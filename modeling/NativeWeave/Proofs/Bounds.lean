import NativeWeave.Proofs.Editing.Bounds
import NativeWeave.Proofs.Editing.Edited

namespace NativeWeave

/-!
# Weaving stays inside of what it edits

Methods are taken out from the last one on, so that the others keep their places, and only methods of
the type are.  A type is edited once, when it is still what it was in the module, and so every edit
finds what it was planned for, whatever the module is like.
-/

open Emit

/-! ## Edits -/

namespace TypePlan

variable {type : TypeDef} {plan : TypePlan}

instance bounded_applyBodies (bodies : List (Nat × Body)) (methods : List Method) :
    Weave.Bounded (applyBodies bodies methods) := by
  induction bodies generalizing methods with
  | nil => exact .ok methods
  | cons edit more ih =>
    unfold applyBodies
    split
    · exact .error (by rintro ⟨⟩)
    · exact ih _

/-- Code can be put in front of every body. -/
instance bounded_installPrelude (prelude : Fragment) (type : TypeDef) :
    Weave.Bounded (installPrelude prelude type) := by
  have each : ∀ body, Weave.Bounded (prependCode prelude body) := by
    intro body
    unfold prependCode
    refine .bindOk fun code _ => ?_
    rcases Code.exists_insert? (Nat.zero_le code.size) prelude with ⟨extended, inserted⟩
    simp only [inserted]
    infer_instance
  unfold installPrelude
  split
  · infer_instance
  · split <;> infer_instance

/-- Methods of the type can be removed from the last one on: the others keep their places. -/
theorem bounded_removals {order : List Nat} {remove : TypeDef → Nat → Weave TypeDef}
    (removes : ∀ (type : TypeDef) (index : Nat), index < type.methods.length →
      ∃ next, remove type index = .ok next ∧ next.methods = type.methods.eraseIdx index)
    (ordered : order.Pairwise (· > ·)) (inside : ∀ index ∈ order, index < type.methods.length) :
    Weave.Bounded (order.foldlM remove type) := by
  induction order generalizing type with
  | nil => exact .ok type
  | cons index more ih =>
    rw [List.pairwise_cons] at ordered
    rw [List.forall_mem_cons] at inside
    rcases removes type index inside.1 with ⟨next, step, methods⟩
    rw [List.foldlM_cons, step]
    refine ih ordered.2 fun other listed => ?_
    have before := ordered.1 other listed
    rw [methods, List.length_eraseIdx_of_lt inside.1]
    omega

theorem bounded_applyRemovals {indices : List Nat}
    (inside : ∀ index ∈ indices, index < type.methods.length) :
    Weave.Bounded (applyRemovals indices type) := by
  refine bounded_removals (fun type index within => ?_) (pairwise_removalOrder indices) ?_
  · rw [TypeDef.removeMethod?, List.getElem?_eq_getElem within]
    exact ⟨_, rfl, rfl⟩
  · intro index listed
    rw [List.mem_mergeSort, List.mem_eraseDups] at listed
    exact inside index listed

theorem length_le_of_installPrelude {prelude : Fragment} {extended : TypeDef}
    (installed : installPrelude prelude type = .ok extended) :
    type.methods.length ≤ extended.methods.length := by
  cases installs_of_installPrelude installed with
  | idle => exact Nat.le_refl _
  | added => exact (List.sublist_append_left _ _).length_le
  | extended => exact (List.length_set).ge

/-- A plan that takes out methods of the type only can be applied to it. -/
theorem bounded_apply (inside : ∀ index ∈ plan.removedMethods, index < type.methods.length) :
    Weave.Bounded (plan.apply type) := by
  unfold apply
  refine .bindOk fun methods bodies => .bindOk fun initialized installed => ?_
  have : Weave.Bounded (applyRemovals plan.removedMethods initialized) := by
    refine bounded_applyRemovals fun index listed => ?_
    have same := length_of_applyBodies bodies plan.renames
    have grown := length_le_of_installPrelude installed
    rw [List.length_append, same] at grown
    have := inside index listed
    omega
  infer_instance

instance bounded_verifyTouched (touched : List String) (tables : Tables) (type : TypeDef) :
    Weave.Bounded (verifyTouched touched tables type) := by
  have each : ∀ method : Method, Weave.Bounded
      ((method.verify tables).mapError (.verification (type.memberSymbol method.name))) := by
    intro method
    cases method.verify tables with
    | ok value => exact .ok value
    | error cause => exact .error (by rintro ⟨⟩)
  unfold verifyTouched
  infer_instance

end TypePlan

open TypePlan in
/-- The plan for a struct takes out no methods. -/
theorem StructBinding.yieldsGives_plan? (binding : StructBinding) (config : Config) (type : TypeDef)
    (index : Nat) :
    (binding.plan? config type).Yields fun plan? => ∀ plan ∈ plan?, plan.Gives index none := by
  have field : ∀ classPtr member,
      (fieldCode config type classPtr member).Yields fun code => code.plan.Gives index none := by
    intro classPtr member
    unfold fieldCode
    refine .after fun field => .bind (yieldsGives_memberSlots index) fun slots gives => ?_
    refine .after fun fill => .after fun token => .after fun value => ?_
    have own : (slots.plan ++ ({ prelude := fill } : TypePlan)).Gives index none :=
      gives.append (gives_of_nil rfl rfl)
    dsimp only
    split
    · exact .after fun write => .pure own
    · exact .after fun write => .pure own
  have marshal : (binding.marshalPlan config type).Yields fun plan => plan.Gives index none := by
    unfold marshalPlan
    refine .bind (yieldsGives_staticSlot index) fun classPtr first => ?_
    refine .bind (yieldsGives_staticSlot index) fun size second => ?_
    refine .after fun findType => .after fun findSize => ?_
    refine .bind (.mapM fun member _ => field _ member) fun fields each => .pure ?_
    exact (((((first.append second).append (gives_of_nil rfl rfl)).append
      (gives_concat_map each)).append (gives_of_nil rfl rfl)).append
        (gives_of_nil rfl rfl)).append (gives_of_nil rfl rfl)
  unfold plan?
  split
  · refine .pure ?_
    rintro plan ⟨⟩
    exact gives_of_nil rfl rfl
  · split
    · exact .pure (by rintro plan ⟨⟩)
    · refine .bind marshal fun plan gives => .pure ?_
      rintro other ⟨⟩
      exact gives

namespace Draft

variable {draft : Draft} {scope : Scope} {processed : List QualifiedName}

instance bounded_declaration (draft : Draft) (index : Nat) (name : QualifiedName) :
    Weave.Bounded (draft.declaration index name) := by
  unfold declaration
  infer_instance

instance bounded_planned {Plan : Type} (draft : Draft) (plan : Emit Plan) [made : plan.Bounded] :
    Weave.Bounded (draft.planned plan) := by
  have := made.bounded draft.module.tables
  unfold planned
  infer_instance

theorem bounded_commit {index : Nat} {current : TypeDef} {plan : TypePlan}
    (here : draft.module.types[index]? = some current)
    (inside : ∀ place ∈ plan.removedMethods, place < current.methods.length) :
    Weave.Bounded (draft.commit index plan) := by
  have := TypePlan.bounded_apply inside
  unfold commit Module.commit
  rw [here]
  infer_instance

theorem Follows.bounded_editStruct (follows : draft.Follows scope processed)
    {binding : StructBinding} {type : TypeDef}
    (present : scope.module.types[binding.type]? = some type)
    (fresh : type.qualifiedName ∉ processed) : Weave.Bounded (draft.editStruct binding) := by
  unfold editStruct
  refine .bindOk fun declared _ => .bindOk fun result planned => ?_
  rcases result with ⟨plan?, extended⟩
  rcases planned_eq_ok planned with ⟨after, made, rfl⟩
  cases plan? with
  | none => exact .ok _
  | some plan =>
    refine bounded_commit (follows.untouched present fresh) fun place taken => ?_
    have stays := (binding.yieldsGives_plan? _ _ place _ _ _ made plan rfl).stays
    exact absurd taken stays

theorem Follows.bounded_editClass (follows : draft.Follows scope processed)
    {binding : ClassBinding} {type : TypeDef}
    (present : scope.module.types[binding.type]? = some type)
    (fresh : type.qualifiedName ∉ processed) : Weave.Bounded (draft.editClass binding) := by
  unfold editClass
  refine .bindOk fun declared found => .bindOk fun result planned => ?_
  rcases result with ⟨⟨plan, diagnostics⟩, extended⟩
  rcases planned_eq_ok planned with ⟨after, made, rfl⟩
  have source := declaration_eq_ok found
  rw [follows.source] at source
  cases present.symm.trans source
  dsimp only
  split
  · exact .ok _
  · rcases ClassBinding.exists_planning made with ⟨planning, same⟩
    cases same
    exact bounded_commit (follows.untouched present fresh) planning.removed_inside

end Draft

/-! ## The order and the hashes -/

namespace Bindings

theorem bounded_visits (bindings : Bindings) :
    (∀ path order name, Weave.Bounded (bindings.visit path order name)) ∧
      ∀ path order names, Weave.Bounded (bindings.visitAll path order names) := by
  refine visit.mutual_induct bindings _ _ ?cyclic ?listed ?unknown ?parts ?done ?more
  case cyclic =>
    intro path order name onPath
    rw [visit, dif_pos onPath]
    exact .error (by rintro ⟨⟩)
  case listed =>
    intro path order name fresh inside
    rw [visit, dif_neg fresh, if_pos inside]
    exact .ok _
  case unknown =>
    intro path order name fresh absent missing
    rw [visit, dif_neg fresh, if_neg absent]
    split
    · exact .ok _
    · next other found => cases missing.symm.trans found
  case parts =>
    intro path order name fresh absent binding layout ih
    rw [visit, dif_neg fresh, if_neg absent]
    split
    · exact .ok _
    · next other found =>
      cases layout.symm.trans found
      infer_instance
  case done =>
    intro path order
    rw [visitAll]
    exact .ok _
  case more =>
    intro path order name more first rest
    rw [visitAll]
    infer_instance

instance bounded_structOrder (bindings : Bindings) : Weave.Bounded bindings.structOrder :=
  bindings.bounded_visits.2 [] [] _

instance bounded_ancestors (bindings : Bindings) (order chain : List QualifiedName)
    (base : Option QualifiedName) : Weave.Bounded (bindings.ancestors order chain base) := by
  fun_induction bindings.ancestors order chain base with
  | case1 => exact .ok _
  | case2 => exact .ok _
  | case3 => exact .ok _
  | case4 => exact .error (by rintro ⟨⟩)
  | case5 _ _ _ _ _ _ ih => exact ih

instance bounded_classOrder (bindings : Bindings) : Weave.Bounded bindings.classOrder := by
  have each : ∀ order binding, Weave.Bounded (bindings.appendClass order binding) := by
    intro order binding
    unfold appendClass
    split <;> infer_instance
  exact (Weave.Bounded.foldlM (fun _ => True) trivial
    fun order binding _ => ⟨each order binding, fun _ _ => trivial⟩).1

end Bindings

instance Ledger.bounded_mark (ledger : Ledger) (name : QualifiedName) :
    Weave.Bounded (ledger.mark name) := by
  unfold mark
  split
  · exact .error (by rintro ⟨⟩)
  · exact .ok _

namespace Fingerprints

variable (known : Fingerprints) (bindings : Bindings)

instance bounded_members (owner : QualifiedName) (members : List MemberBinding) :
    Weave.Bounded (known.members bindings owner members) := by
  have each : ∀ member, Weave.Bounded (known.nested bindings owner member) := by
    intro member
    unfold nested
    split
    · exact .ok _
    · split
      · exact .ok _
      · exact .error (by rintro ⟨⟩)
  unfold Fingerprints.members
  infer_instance

instance bounded_addStruct (binding : StructBinding) :
    Weave.Bounded (known.addStruct bindings binding) := by
  unfold addStruct
  infer_instance

instance bounded_addClass (module : Module) (binding : ClassBinding) :
    Weave.Bounded (known.addClass bindings module binding) := by
  have base : Weave.Bounded (known.baseHash bindings binding) := by
    unfold baseHash
    split
    · exact .ok _
    · split
      · exact .ok _
      · exact .error (by rintro ⟨⟩)
  have functions : ∀ function, Weave.Bounded (known.function bindings binding.name function) := by
    intro function
    unfold Fingerprints.function
    infer_instance
  unfold addClass
  infer_instance

end Fingerprints

instance Report.bounded_ofBindings (known : Fingerprints) (module : String) (bindings : Bindings) :
    Weave.Bounded (ofBindings known module bindings) := by
  have each : ∀ binding, Weave.Bounded (TypeReport.ofBinding known module binding) := by
    intro binding
    unfold TypeReport.ofBinding
    cases binding with
    | ofEnum type => exact .ok _
    | ofStruct type | ofClass type =>
      dsimp only
      split
      · exact .error (by rintro ⟨⟩)
      · exact .ok _
  unfold ofBindings
  infer_instance

/-! ## The whole -/

namespace Progress

variable {progress : Progress} {scope : Scope}

/-- The draft is in line with its source as far as types have been processed. -/
def InLine (progress : Progress) (scope : Scope) : Prop :=
  progress.draft.Follows scope progress.ledger.processed

instance bounded_bound {Binding : Type} (binding : Option Binding) (name : QualifiedName) :
    Weave.Bounded (bound binding name) := by
  unfold bound
  infer_instance

theorem InLine.processStruct (inLine : progress.InLine scope) (name : QualifiedName) :
    Weave.Bounded (progress.processStruct scope.extract.bindings name) ∧
      ∀ next, progress.processStruct scope.extract.bindings name = .ok next →
        next.InLine scope := by
  constructor
  · unfold Progress.processStruct
    refine .bindOk fun ledger marked => .bindOk fun binding bound => ?_
    have found := Weave.ofOption_eq_ok bound
    rcases Bindings.ofStruct_mem_of_findStruct? found with ⟨member, rfl⟩
    rcases scope.exists_declares_of_mem_extract _ member with ⟨index, type, present, rfl, named⟩
    have fresh : type.qualifiedName ∉ progress.ledger.processed := by
      rw [← named]
      exact (Ledger.mark_eq_ok marked).1
    have edit := inLine.bounded_editStruct present fresh
    infer_instance
  · intro next processed
    rcases progress.processStruct_eq_ok processed with ⟨fresh, recorded, binding, found, changes, _⟩
    rcases Bindings.ofStruct_mem_of_findStruct? found with ⟨_, rfl⟩
    have picks : scope.extract.bindings.Picks (.ofStruct binding) := found
    unfold InLine
    rw [recorded]
    exact inLine.step picks fresh changes

theorem InLine.processClass (inLine : progress.InLine scope) (name : QualifiedName) :
    Weave.Bounded (progress.processClass scope.extract.bindings name) ∧
      ∀ next, progress.processClass scope.extract.bindings name = .ok next →
        next.InLine scope := by
  constructor
  · unfold Progress.processClass
    refine .bindOk fun ledger marked => .bindOk fun binding bound => ?_
    have found := Weave.ofOption_eq_ok bound
    rcases Bindings.ofClass_mem_of_findClass? found with ⟨member, rfl⟩
    rcases scope.exists_declares_of_mem_extract _ member with ⟨index, type, present, rfl, named⟩
    have fresh : type.qualifiedName ∉ progress.ledger.processed := by
      rw [← named]
      exact (Ledger.mark_eq_ok marked).1
    have edit := inLine.bounded_editClass present fresh
    infer_instance
  · intro next processed
    rcases progress.processClass_eq_ok processed with ⟨fresh, recorded, binding, found, changes, _⟩
    rcases Bindings.ofClass_mem_of_findClass? found with ⟨_, rfl⟩
    have picks : scope.extract.bindings.Picks (.ofClass binding) := found
    unfold InLine
    rw [recorded]
    exact inLine.step picks fresh changes

end Progress

namespace Scope

instance bounded_start (scope : Scope) (bindings : Bindings) :
    Weave.Bounded (Draft.start scope bindings) := by
  have collaborators : ∀ categories, Weave.Bounded (scope.checkCollaborators categories) := by
    intro categories
    unfold checkCollaborators
    split
    · exact .error (by rintro ⟨⟩)
    · exact .ok _
  unfold Draft.start
  split <;> infer_instance

/-- A run over the types stays inside of them. -/
theorem bounded_process (scope : Scope) : Weave.Bounded (scope.process scope.extract.bindings) := by
  unfold process
  refine .bindOk fun structs _ => .bindOk fun classes _ => .bindOk fun draft begun => ?_
  have start : ({ draft } : Progress).InLine scope := Draft.follows_of_start begun
  rcases Weave.Bounded.foldlM (fun progress : Progress => progress.InLine scope) start
    fun progress name (inLine : progress.InLine scope) => inLine.processStruct name with
    ⟨first, middle⟩
  refine @Weave.Bounded.bindOk _ _ _ _ first fun afterStructs ran => ?_
  rcases Weave.Bounded.foldlM (fun progress : Progress => progress.InLine scope) (middle _ ran)
    fun progress name (inLine : progress.InLine scope) => inLine.processClass name with
    ⟨second, _⟩
  refine @Weave.Bounded.bindOk _ _ _ _ second fun afterClasses _ => ?_
  have enums : Weave.Bounded
      ((scope.extract.bindings.enums.map (·.name)).foldlM Ledger.mark afterClasses.ledger) :=
    (Weave.Bounded.foldlM (fun _ => True) trivial
      fun ledger name _ => ⟨ledger.bounded_mark name, fun _ _ => trivial⟩).1
  infer_instance

/-- Weaving never reaches outside of what it edits, whatever the module is. -/
theorem weave_ne_outOfRange (scope : Scope) : scope.weave ≠ .error .outOfRange := by
  have bounded : Weave.Bounded scope.weave := by
    have := scope.bounded_process
    have bindings : Weave.Bounded (scope.weaveBindings scope.extract) := by
      unfold weaveBindings
      refine .bindOk fun progress _ => ?_
      dsimp only
      split <;> infer_instance
    unfold weave
    split
    · exact .ok _
    · dsimp only
      split
      · exact .ok _
      · split
        · exact .ok _
        · exact bindings
  exact bounded.ne

end Scope

end NativeWeave
