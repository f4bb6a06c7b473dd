import NativeWeave.Proofs.Binding.Fingerprint
import NativeWeave.Proofs.Editing.Edited
import NativeWeave.Proofs.Extraction.Fitting

namespace NativeWeave

/-!
# Weaving does not fail by a fault of its own

In a module whose types have names of their own no type is processed twice, every hash is there when
it is needed, and every binding fits its type.  The order of processing carries the first two: each
struct comes once and behind the structs that it embeds, each class once and behind its base class,
and all structs come before all classes.  The invariant of the run says which names have been
processed and which hashes are known.
-/

/-! ## Edits -/

namespace TypePlan

variable {plan : TypePlan} {type : TypeDef}

theorem safe_applyBodies {bodies : List (Nat × Body)} {methods : List Method}
    (inside : ∀ edit ∈ bodies, edit.1 < methods.length) :
    Weave.Safe (applyBodies bodies methods) := by
  induction bodies generalizing methods with
  | nil => exact .ok _
  | cons edit more ih =>
    rw [List.forall_mem_cons] at inside
    rw [applyBodies, List.getElem?_eq_getElem inside.1]
    refine ih fun other listed => ?_
    rw [List.length_set]
    exact inside.2 other listed

theorem safe_installPrelude (prelude : Fragment) (type : TypeDef) :
    Weave.Safe (installPrelude prelude type) := by
  unfold installPrelude
  split
  · exact .ok _
  · split
    · exact .ok _
    · refine .bind (.bind (.ofDecode _) fun code _ => ?_) fun body _ => .ok _
      split
      · exact .ok _
      · exact .error rfl

theorem safe_applyRemovals (indices : List Nat) (type : TypeDef) :
    Weave.Safe (applyRemovals indices type) := by
  refine (Weave.Safe.foldlM (fun _ _ => True) trivial
    fun _ index _ state _ _ => ⟨?_, fun _ _ => trivial⟩).1
  cases state.removeMethod? index with
  | none => exact .error rfl
  | some parts => exact .ok _

/-- A plan whose new bodies are for methods of the type can be applied. -/
theorem Covered.safe_apply (covered : plan.Covered type) : Weave.Safe (plan.apply type) := by
  refine .bind (safe_applyBodies fun edit listed => ?_) fun methods _ => ?_
  · rcases covered.bodies edit listed with ⟨method, here, _⟩
    exact (List.getElem?_eq_some_iff.mp here).1
  · refine .bind (safe_installPrelude _ _) fun initialized _ => ?_
    exact .bind (safe_applyRemovals _ _) fun reduced _ => .ok _

theorem safe_verifyTouched (touched : List String) (tables : Tables) (type : TypeDef) :
    Weave.Safe (verifyTouched touched tables type) := by
  refine .forM fun method _ => ?_
  cases method.verify tables with
  | ok => exact .ok _
  | error cause => exact .error rfl

end TypePlan

namespace Draft

variable {draft : Draft} {scope : Scope} {processed : List QualifiedName}

theorem safe_start (scope : Scope) (bindings : Bindings) : Weave.Safe (Draft.start scope bindings) := by
  unfold Draft.start
  split
  · refine .bind ?_ fun _ _ => .ok _
    unfold Scope.checkCollaborators
    split
    · exact .error rfl
    · exact .ok _
  · exact .ok _

theorem safe_planned {Plan : Type} {plan : Emit Plan} (safe : plan.Safe) :
    Weave.Safe (draft.planned plan) :=
  .bind (safe.safe draft.module.tables) fun _ _ => .ok _

/-- The type of a name that was not processed yet can be edited by a plan for it. -/
theorem Follows.safe_commit (follows : draft.Follows scope processed) {index : Nat}
    {type : TypeDef} (present : scope.module.types[index]? = some type)
    (fresh : type.qualifiedName ∉ processed) {tables : Tables} {plan : TypePlan}
    (covered : plan.Covered type) (diagnostics : List Diagnostic) :
    Weave.Safe (Draft.commit { draft with
      module := { draft.module with tables }, diagnostics } index plan) := by
  have here := follows.untouched present fresh
  refine .bind ?_ fun module _ => .ok _
  unfold Module.commit
  simp only [here]
  exact .bind covered.safe_apply fun edited _ =>
    .bind (TypePlan.safe_verifyTouched _ _ _) fun _ _ => .ok _

theorem Follows.declaration_eq (follows : draft.Follows scope processed) (binding : TypeBinding)
    {type : TypeDef} (present : scope.module.types[binding.place]? = some type)
    (named : binding.name = type.qualifiedName) :
    draft.declaration binding.place binding.name = .ok type := by
  rw [declaration, follows.source, present, Option.filter_some, named]
  simp only [TypeDef.fullName, beq_self_eq_true, if_true]
  rfl

theorem Follows.safe_editStruct (follows : draft.Follows scope processed)
    {binding : StructBinding} {type : TypeDef}
    (present : scope.module.types[binding.type]? = some type)
    (named : binding.name = type.qualifiedName) (fresh : binding.name ∉ processed)
    (fits : ∀ member ∈ binding.members, member.ExposesField type) :
    Weave.Safe (draft.editStruct binding) := by
  have declared : draft.declaration binding.type binding.name = .ok type :=
    follows.declaration_eq (.ofStruct binding) present named
  unfold editStruct
  rw [declared, ok_bind]
  refine .bind (safe_planned (StructBinding.safe_plan? fits)) fun result planned => ?_
  rcases planned_eq_ok planned with ⟨after, made, same⟩
  dsimp only
  split
  · exact .ok _
  · next plan given =>
    rw [same]
    refine follows.safe_commit present (named ▸ fresh) ?_ _
    exact StructBinding.yields_plan? binding _ _ _ made plan given

theorem Follows.safe_editClass (follows : draft.Follows scope processed)
    {binding : ClassBinding} {type : TypeDef}
    (present : scope.module.types[binding.type]? = some type)
    (named : binding.name = type.qualifiedName) (fresh : binding.name ∉ processed)
    (fits : binding.Fits type) : Weave.Safe (draft.editClass binding) := by
  have declared : draft.declaration binding.type binding.name = .ok type :=
    follows.declaration_eq (.ofClass binding) present named
  unfold editClass
  rw [declared, ok_bind]
  refine .bind (safe_planned (ClassBinding.safe_plan fits)) fun result planned => ?_
  rcases planned_eq_ok planned with ⟨after, made, same⟩
  dsimp only
  split
  · exact .ok _
  · rw [same]
    refine follows.safe_commit present (named ▸ fresh) ?_ _
    exact yields_classPlan _ binding _ _ _ made

end Draft

/-! ## The order -/

namespace Bindings

/-- Embedding that leads back to where it started is all that a visit can fail by. -/
theorem safe_visits (bindings : Bindings) :
    (∀ path order name, Weave.Safe (bindings.visit path order name)) ∧
      ∀ path order names, Weave.Safe (bindings.visitAll path order names) := by
  refine visit.mutual_induct bindings _ _ ?cyclic ?listed ?unknown ?parts ?done ?more
  case cyclic =>
    intro path order name onPath
    rw [visit, dif_pos onPath]
    exact .error rfl
  case listed =>
    intro path order name fresh inside
    rw [visit, dif_neg fresh, if_pos inside]
    exact .ok _
  case unknown =>
    intro path order name fresh absent missing
    rw [visit, dif_neg fresh, if_neg absent]
    split
    · exact .ok _
    · next other found =>
      cases missing.symm.trans found
  case parts =>
    intro path order name fresh absent binding layout ih
    rw [visit, dif_neg fresh, if_neg absent]
    split
    · exact .ok _
    · next other found =>
      cases layout.symm.trans found
      exact .bind ih fun _ _ => .ok _
  case done =>
    intro path order
    rw [visitAll]
    exact .ok _
  case more =>
    intro path order name more first rest
    rw [visitAll]
    exact .bind first fun middle _ => rest middle

theorem safe_structOrder (bindings : Bindings) : Weave.Safe bindings.structOrder :=
  bindings.safe_visits.2 [] [] _

theorem safe_ancestors (bindings : Bindings) (order chain : List QualifiedName)
    (base : Option QualifiedName) : Weave.Safe (bindings.ancestors order chain base) := by
  fun_induction bindings.ancestors order chain base with
  | case1 => exact .ok _
  | case2 => exact .ok _
  | case3 => exact .ok _
  | case4 => exact .error rfl
  | case5 _ _ _ _ _ _ ih => exact ih

theorem safe_classOrder (bindings : Bindings) : Weave.Safe bindings.classOrder := by
  refine (Weave.Safe.foldlM (fun _ _ => True) trivial
    fun _ binding _ order _ _ => ⟨?_, fun _ _ => trivial⟩).1
  unfold appendClass
  split
  · exact .ok _
  · exact .bind (bindings.safe_ancestors _ _ _) fun _ _ => .ok _

end Bindings

theorem Ledger.safe_mark {ledger : Ledger} {name : QualifiedName} (fresh : name ∉ ledger.processed) :
    Weave.Safe (ledger.mark name) := by
  unfold mark isProcessed
  rw [if_neg (by simpa using fresh)]
  exact .ok _

/-! ## A run over the types -/

namespace Progress

variable {progress next : Progress} {scope : Scope} {front structs : List QualifiedName}
  {name : QualifiedName}

/-- Where a run stands that has processed some structs and then some classes: nothing else is marked,
their hashes are known, and the draft is in line with its source. -/
structure Reaches (progress : Progress) (scope : Scope) (structs classes : List QualifiedName) :
    Prop where
  marked : ∀ name ∈ progress.ledger.processed, name ∈ structs ++ classes
  structs : ∀ name ∈ structs, (progress.known.struct? name).isSome = true
  classes : ∀ name ∈ classes, (progress.known.class? name).isSome = true
  follows : progress.draft.Follows scope progress.ledger.processed

theorem Reaches.processStruct (reaches : progress.Reaches scope front [])
    (processed : progress.processStruct scope.extract.bindings name = .ok next) :
    next.Reaches scope (front ++ [name]) [] := by
  rcases progress.processStruct_eq_ok processed with
    ⟨fresh, recorded, binding, found, changes, hash, hashed⟩
  rcases Bindings.ofStruct_mem_of_findStruct? found with ⟨_, rfl⟩
  rcases Fingerprints.struct?_addStruct hashed with ⟨own, others⟩
  have picks : scope.extract.bindings.Picks (.ofStruct binding) := found
  refine ⟨?_, ?_, List.forall_mem_nil _, recorded ▸ reaches.follows.step picks fresh changes⟩
  · rw [recorded, List.append_nil]
    refine List.forall_mem_cons.mpr ⟨List.mem_append_right _ List.mem_cons_self, ?_⟩
    intro earlier marked
    exact List.mem_append_left _ (List.append_nil front ▸ reaches.marked earlier marked)
  · refine List.forall_mem_append.mpr ⟨fun earlier inside => ?_, List.forall_mem_singleton.mpr own⟩
    exact others earlier (reaches.structs earlier inside)

theorem Reaches.processClass (reaches : progress.Reaches scope structs front)
    (processed : progress.processClass scope.extract.bindings name = .ok next) :
    next.Reaches scope structs (front ++ [name]) := by
  rcases progress.processClass_eq_ok processed with
    ⟨fresh, recorded, binding, found, changes, hash, hashed⟩
  rcases Bindings.ofClass_mem_of_findClass? found with ⟨_, rfl⟩
  rcases Fingerprints.class?_addClass hashed with ⟨kept, own, others⟩
  have picks : scope.extract.bindings.Picks (.ofClass binding) := found
  refine ⟨?_, fun earlier inside => ?_, ?_, recorded ▸ reaches.follows.step picks fresh changes⟩
  · rw [recorded, ← List.append_assoc]
    refine List.forall_mem_cons.mpr ⟨List.mem_append_right _ List.mem_cons_self, ?_⟩
    exact fun earlier marked => List.mem_append_left _ (reaches.marked earlier marked)
  · rw [Fingerprints.struct?, kept]
    exact reaches.structs earlier inside
  · refine List.forall_mem_append.mpr ⟨fun earlier inside => ?_, List.forall_mem_singleton.mpr own⟩
    exact others earlier (reaches.classes earlier inside)

variable (distinct : scope.extract.bindings.Distinct)
  (fits : ∀ binding ∈ scope.extract.bindings, ∀ type,
    scope.module.types[binding.place]? = some type → binding.Fits type)
include distinct fits

/-- A struct is processed without a fault of the weaver when the structs inside of it have been. -/
theorem Reaches.safe_processStruct (reaches : progress.Reaches scope front [])
    (fresh : name ∉ front) (known : (scope.extract.bindings.findStruct? name).isSome = true)
    (ready : ∀ need ∈ scope.extract.bindings.embeddedIn name, need ∈ front) :
    Weave.Safe (progress.processStruct scope.extract.bindings name) := by
  have unmarked : name ∉ progress.ledger.processed := by
    intro marked
    exact fresh (List.append_nil front ▸ reaches.marked name marked)
  refine .bind (Ledger.safe_mark unmarked) fun ledger _ => .bind (.ofOption known _) ?_
  intro binding bound
  have found := Weave.ofOption_eq_ok bound
  rcases Bindings.ofStruct_mem_of_findStruct? found with ⟨member, rfl⟩
  rcases scope.exists_declares_of_mem_extract _ member with ⟨index, type, present, rfl, named⟩
  have covered : ∀ inner, scope.extract.bindings.Holds binding.members inner →
      (progress.known.struct? inner).isSome = true := fun inner holds =>
    reaches.structs inner (ready inner
      ((Bindings.embeds_iff distinct.structs).mp ⟨binding, found, holds⟩))
  refine .bind (.of_exists (Fingerprints.exists_addStruct covered)) fun hashed _ => ?_
  exact .bind (reaches.follows.safe_editStruct present named unmarked (fits _ member type present))
    fun _ _ => .ok _

/-- A class is processed without a fault of the weaver when all structs and its base class have
been. -/
theorem Reaches.safe_processClass (reaches : progress.Reaches scope structs front)
    (all : ∀ binding ∈ scope.extract.bindings.structs, binding.name ∈ structs)
    (only : ∀ name ∈ structs, (scope.extract.bindings.findStruct? name).isSome = true)
    (fresh : name ∉ front) (known : (scope.extract.bindings.findClass? name).isSome = true)
    (ready : ∀ need ∈ scope.extract.bindings.baseOf name, need ∈ front) :
    Weave.Safe (progress.processClass scope.extract.bindings name) := by
  have unmarked : name ∉ progress.ledger.processed := by
    intro marked
    rcases List.mem_append.mp (reaches.marked name marked) with struct | earlier
    · rw [distinct.findClass?_of_struct (only name struct)] at known
      cases known
    · exact fresh earlier
  refine .bind (Ledger.safe_mark unmarked) fun ledger _ => .bind (.ofOption known _) ?_
  intro binding bound
  have found := Weave.ofOption_eq_ok bound
  rcases Bindings.ofClass_mem_of_findClass? found with ⟨member, rfl⟩
  rcases scope.exists_declares_of_mem_extract _ member with ⟨index, type, present, rfl, named⟩
  have covered : ∀ inner, (scope.extract.bindings.findStruct? inner).isSome = true →
      (progress.known.struct? inner).isSome = true := by
    intro inner bound
    rcases Option.isSome_iff_exists.mp bound with ⟨struct, declared⟩
    have named := (Bindings.ofStruct_mem_of_findStruct? declared).2
    exact reaches.structs inner (named ▸ all struct (List.mem_of_find?_eq_some declared))
  have based : ∀ name ∈ binding.base,
      (scope.extract.bindings.findClass? name).isSome = true →
        (progress.known.class? name).isSome = true := fun base declared bound =>
    reaches.classes base (ready base ((Bindings.mem_baseOf_iff found).mpr ⟨declared, bound⟩))
  refine .bind (.of_exists (Fingerprints.exists_addClass _ covered based)) fun hashed _ => ?_
  exact .bind (reaches.follows.safe_editClass present named unmarked (fits _ member type present))
    fun _ _ => .ok _

/-- All structs are processed, in their order. -/
theorem Reaches.safe_structs (reaches : progress.Reaches scope [] [])
    (ordered : scope.extract.bindings.structOrder = .ok structs) :
    Weave.Safe (structs.foldlM (Progress.processStruct scope.extract.bindings) progress) ∧
      ∀ after, structs.foldlM (Progress.processStruct scope.extract.bindings) progress = .ok after →
        after.Reaches scope structs [] := by
  rcases Bindings.sortedBy_structOrder ordered with ⟨sorted, only, _⟩
  refine Weave.Safe.foldlM (fun front (progress : Progress) => progress.Reaches scope front []) reaches ?_
  intro front name back progress split reaches
  rcases sorted front name back split with ⟨fresh, ready⟩
  have known := only name (split ▸ List.mem_append_right _ List.mem_cons_self)
  exact ⟨reaches.safe_processStruct distinct fits fresh known ready,
    fun next processed => reaches.processStruct processed⟩

/-- All classes are processed, in their order, when all structs have been. -/
theorem Reaches.safe_classes {classes : List QualifiedName} (reaches : progress.Reaches scope structs [])
    (structsOrdered : scope.extract.bindings.structOrder = .ok structs)
    (ordered : scope.extract.bindings.classOrder = .ok classes) :
    Weave.Safe (classes.foldlM (Progress.processClass scope.extract.bindings) progress) ∧
      ∀ after, classes.foldlM (Progress.processClass scope.extract.bindings) progress = .ok after →
        after.Reaches scope structs classes := by
  rcases Bindings.sortedBy_structOrder structsOrdered with ⟨_, onlyStructs, all⟩
  rcases Bindings.sortedBy_classOrder (fun binding => distinct.findClass?_eq) ordered with
    ⟨sorted, only⟩
  refine Weave.Safe.foldlM (fun front (progress : Progress) => progress.Reaches scope structs front) reaches ?_
  intro front name back progress split reaches
  rcases sorted front name back split with ⟨fresh, ready⟩
  have known := only name (split ▸ List.mem_append_right _ List.mem_cons_self)
  exact ⟨reaches.safe_processClass distinct fits all onlyStructs fresh known ready,
    fun next processed => reaches.processClass processed⟩

omit fits in
/-- The enumerations are marked when nothing but structs and classes is. -/
theorem Reaches.safe_enums {classes : List QualifiedName}
    (reaches : progress.Reaches scope structs classes)
    (onlyStructs : ∀ name ∈ structs, (scope.extract.bindings.findStruct? name).isSome = true)
    (onlyClasses : ∀ name ∈ classes, (scope.extract.bindings.findClass? name).isSome = true) :
    Weave.Safe ((scope.extract.bindings.enums.map (·.name)).foldlM Ledger.mark progress.ledger) := by
  refine (Weave.Safe.foldlM (fun front ledger => ∀ name ∈ ledger.processed,
    name ∈ front ∨ name ∈ structs ++ classes) (fun name => .inr ∘ reaches.marked name) ?_).1
  intro front name back ledger split marked
  have unmarked : name ∉ ledger.processed := by
    intro earlier
    rcases marked name earlier with twice | processed
    · have listed := distinct.enums
      rw [split, List.nodup_middle, List.nodup_cons] at listed
      exact listed.1 (List.mem_append_left _ twice)
    · have inside : name ∈ scope.extract.bindings.enums.map (·.name) :=
        split ▸ List.mem_append_right _ List.mem_cons_self
      rcases List.mem_map.mp inside with ⟨binding, bound, named⟩
      rcases List.mem_filterMap.mp bound with ⟨entry, member, same⟩
      cases entry <;> cases same
      rcases List.mem_append.mp processed with struct | declared
      · rcases Option.isSome_iff_exists.mp (onlyStructs name struct) with ⟨other, found⟩
        rcases Bindings.ofStruct_mem_of_findStruct? found with ⟨present, rfl⟩
        cases distinct.eq_of_name member present named
      · rcases Option.isSome_iff_exists.mp (onlyClasses name declared) with ⟨other, found⟩
        rcases Bindings.ofClass_mem_of_findClass? found with ⟨present, rfl⟩
        cases distinct.eq_of_name member present named
  refine ⟨Ledger.safe_mark unmarked, fun next recorded => ?_⟩
  rw [(Ledger.mark_eq_ok recorded).2]
  refine List.forall_mem_cons.mpr ⟨.inl (List.mem_append_right _ List.mem_cons_self), ?_⟩
  exact fun other earlier => (marked other earlier).imp_left (List.mem_append_left _)

end Progress

/-- The report finds the hashes of all types. -/
theorem Report.safe_ofBindings {known : Fingerprints} {bindings : Bindings} (module : String)
    (structs : ∀ binding ∈ bindings.structs, (known.struct? binding.name).isSome = true)
    (classes : ∀ binding ∈ bindings.classes, (known.class? binding.name).isSome = true) :
    Weave.Safe (Report.ofBindings known module bindings) := by
  refine .bind (.mapM fun binding member => ?_) fun _ _ => .ok _
  unfold TypeReport.ofBinding
  dsimp only
  cases binding with
  | ofEnum type => exact .ok _
  | ofStruct type =>
    have listed : type ∈ bindings.structs := List.mem_filterMap.mpr ⟨_, member, rfl⟩
    rcases Option.isSome_iff_exists.mp (structs type listed) with ⟨hash, present⟩
    simp only [present]
    exact .ok _
  | ofClass type =>
    have listed : type ∈ bindings.classes := List.mem_filterMap.mpr ⟨_, member, rfl⟩
    rcases Option.isSome_iff_exists.mp (classes type listed) with ⟨hashes, present⟩
    simp only [present]
    exact .ok _

namespace Scope

variable {scope : Scope} (distinct : scope.extract.bindings.Distinct)
  (fits : ∀ binding ∈ scope.extract.bindings, ∀ type,
    scope.module.types[binding.place]? = some type → binding.Fits type)
include distinct fits

/-- A run over the types is safe, and in the end all hashes are known. -/
theorem safe_process : Weave.Safe (scope.process scope.extract.bindings) ∧
    ∀ progress, scope.process scope.extract.bindings = .ok progress →
      (∀ binding ∈ scope.extract.bindings.structs,
        (progress.known.struct? binding.name).isSome = true) ∧
      ∀ binding ∈ scope.extract.bindings.classes,
        (progress.known.class? binding.name).isSome = true := by
  have begins : ∀ {draft}, Draft.start scope scope.extract.bindings = .ok draft →
      ({ draft } : Progress).Reaches scope [] [] := fun begun =>
    ⟨List.forall_mem_nil _, List.forall_mem_nil _, List.forall_mem_nil _,
      Draft.follows_of_start begun⟩
  constructor
  · refine .bind (Bindings.safe_structOrder _) fun structs structsOrdered => ?_
    refine .bind (Bindings.safe_classOrder _) fun classes classesOrdered => ?_
    refine .bind (Draft.safe_start _ _) fun draft begun => ?_
    rcases (begins begun).safe_structs distinct fits structsOrdered with ⟨first, middle⟩
    refine .bind first fun afterStructs ran => ?_
    rcases (middle _ ran).safe_classes distinct fits structsOrdered classesOrdered with
      ⟨second, reached⟩
    refine .bind second fun afterClasses ran => ?_
    have onlyStructs := (Bindings.sortedBy_structOrder structsOrdered).2.1
    have onlyClasses :=
      (Bindings.sortedBy_classOrder (fun binding => distinct.findClass?_eq) classesOrdered).2
    exact .bind ((reached _ ran).safe_enums distinct onlyStructs onlyClasses) fun _ _ => .ok _
  · intro progress run
    rcases exists_stages_of_process run with ⟨structs, classes, _, _, _, stages, rfl⟩
    have structsOrdered := stages.structsOrdered
    have classesOrdered := stages.classesOrdered
    have middle := ((begins stages.begun).safe_structs distinct fits structsOrdered).2 _ stages.first
    have reached :=
      (middle.safe_classes distinct fits structsOrdered classesOrdered).2 _ stages.second
    exact ⟨fun binding member =>
        reached.structs _ ((Bindings.sortedBy_structOrder structsOrdered).2.2 binding member),
      fun binding member => reached.classes _ (Bindings.mem_classOrder classesOrdered member)⟩

theorem safe_weaveBindings : Weave.Safe (scope.weaveBindings scope.extract) := by
  rcases safe_process distinct fits with ⟨safe, known⟩
  refine .bind safe fun progress run => ?_
  dsimp only
  split
  · exact .ok _
  · rcases known progress run with ⟨structs, classes⟩
    exact .bind (Report.safe_ofBindings _ structs classes) fun _ _ => .ok _

omit distinct fits in
/-- Weaving a module whose types have names of their own, whose properties name methods as their
accessors, and whose exposed functions have no more parameters than can be numbered does not fail by
a fault of the weaver: no type is processed twice, no hash is missing, and every binding fits its
module. -/
theorem weave_ne_internal_failure (scope : Scope)
    (distinct : (scope.module.types.map (·.qualifiedName)).Nodup)
    (accessors : ∀ type ∈ scope.module.types, type.AccessorsInRange)
    (arguments : ∀ type ∈ scope.module.types, type.ArgumentsInRange scope.config) :
    (∀ name, scope.weave ≠ .error (.duplicateProcessing name)) ∧
    (∀ dependent dependency,
      scope.weave ≠ .error (.missingDependencyHash dependent dependency)) ∧
    ∀ reason, scope.weave ≠ .error (.inconsistent reason) := by
  have safe : Weave.Safe scope.weave := by
    unfold weave
    split
    · exact .ok _
    · dsimp only
      split
      · exact .ok _
      · split
        · exact .ok _
        · exact safe_weaveBindings (distinct_extract distinct)
            fun binding member type present => fits_of_mem_extract accessors arguments member present
  refine ⟨fun name failed => ?_, fun dependent dependency failed => ?_, fun reason failed => ?_⟩
  · cases safe _ failed
  · cases safe _ failed
  · cases safe _ failed

end Scope

/-! ## A module of ships -/

namespace Fleet

def course : TypeDef where
  name := "Course"
  namespaceName := "Sea"
  kind := .structType
  attributes := [{ type := ⟨"Tether.Attributes", "NativeStruct"⟩ }]
  fields := [
    { name := "heading", type := .i32
      attributes := [{ type := ⟨"Tether.Attributes", "NativeProperty"⟩ }] }]

/-- A class with an exposed property that embeds a struct, and with an exposed function. -/
def ship : TypeDef where
  name := "Ship"
  namespaceName := "Sea"
  base := some (.named ⟨"Tether.Runtime", "NativeObject"⟩)
  attributes := [{ type := ⟨"Tether.Attributes", "NativeClass"⟩ }]
  properties := [
    { name := "Course", type := course.signature, getter := some 0, setter := some 1
      attributes := [{ type := ⟨"Tether.Attributes", "NativeProperty"⟩ }] }]
  methods := [
    { name := "get_Course", result := course.signature },
    { name := "set_Course", parameters := [{ name := "value", type := course.signature }] },
    { name := "Steer", parameters := [{ name := "course", type := course.signature }]
      attributes := [{ type := ⟨"Tether.Attributes", "NativeFunction"⟩ }] }]

/-- A class whose base class is annotated too, declared in front of it. -/
def frigate : TypeDef where
  name := "Frigate"
  namespaceName := "Sea"
  base := some ship.signature
  attributes := [{ type := ⟨"Tether.Attributes", "NativeClass"⟩ }]

def scope : Scope where
  context := {}
  module := { Module.empty "Sea" with types := [frigate, ship, course] }

/-- The classes and the struct are in range. -/
theorem weave_ne_internal_failure_scope :
    (scope.module.types.map (·.qualifiedName)).Nodup ∧
    (∀ type ∈ scope.module.types, type.AccessorsInRange) ∧
    (∀ type ∈ scope.module.types, type.ArgumentsInRange scope.config) ∧
    (∀ name, scope.weave ≠ .error (.duplicateProcessing name)) ∧
    (∀ dependent dependency,
      scope.weave ≠ .error (.missingDependencyHash dependent dependency)) ∧
    ∀ reason, scope.weave ≠ .error (.inconsistent reason) := by
  have distinct : (scope.module.types.map (·.qualifiedName)).Nodup := by decide
  have accessors : ∀ type ∈ scope.module.types, type.AccessorsInRange := by
    simp [scope, frigate, ship, course, TypeDef.AccessorsInRange]
  have short : ∀ type ∈ scope.module.types, ∀ method ∈ type.methods,
      method.parameters.length ≤ 1 := by decide
  have arguments : ∀ type ∈ scope.module.types, type.ArgumentsInRange scope.config :=
    fun type listed method inside _ => (short type listed method inside).trans (by omega)
  exact ⟨distinct, accessors, arguments,
    scope.weave_ne_internal_failure distinct accessors arguments⟩

end Fleet

end NativeWeave
