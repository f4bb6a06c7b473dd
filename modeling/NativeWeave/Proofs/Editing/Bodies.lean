import NativeWeave.Proofs.Editing.Accessors
import NativeWeave.Proofs.Editing.Additions
import NativeWeave.Proofs.Editing.Placement
import NativeWeave.Proofs.Extraction.Checked

namespace NativeWeave

/-!
# What is planned for one method

Each stage of planning a class is about methods of its own: accessors, constructors, and the others.
What the whole plan has for a method that is no accessor is therefore what one stage has for it.
-/

namespace TypePlan

/-- The plan has a body for the method with an index or has none, and does not take it out. -/
structure Gives (plan : TypePlan) (index : Nat) (body? : Option Body) : Prop where
  body : lastBody? index plan.bodies = body?
  stays : index ∉ plan.removedMethods

variable {index : Nat}

theorem gives_of_nil {plan : TypePlan} (bodies : plan.bodies = [])
    (removed : plan.removedMethods = []) : plan.Gives index none where
  body := by
    rw [bodies]
    rfl
  stays := by
    rw [removed]
    exact List.not_mem_nil

theorem gives_empty : ({} : TypePlan).Gives index none :=
  gives_of_nil rfl rfl

/-- A plan that may take fields out has no bodies. -/
theorem gives_removedFields (condition : Prop) [Decidable condition] (hidden : List String) :
    (if condition then ({ removedFields := hidden } : TypePlan) else {}).Gives index none := by
  split
  · exact gives_of_nil rfl rfl
  · exact gives_empty

theorem gives_replaceBody (place : Nat) (name : String) (body : Body) :
    (replaceBody place name body).Gives index (if place = index then some body else none) where
  body := Option.none_or
  stays := List.not_mem_nil

theorem gives_replaceBody_of_ne {place : Nat} (other : place ≠ index) (name : String)
    (body : Body) : (replaceBody place name body).Gives index none := by
  have gives : (replaceBody place name body).Gives index _ := gives_replaceBody place name body
  rwa [if_neg other] at gives

theorem Gives.append {first second : TypePlan} {one other : Option Body}
    (front : first.Gives index one) (back : second.Gives index other) :
    (first ++ second).Gives index (other.or one) where
  body := by
    change lastBody? index (first.bodies ++ second.bodies) = _
    rw [lastBody?_append, front.body, back.body]
  stays member := by
    rcases List.mem_append.mp member with early | late
    · exact front.stays early
    · exact back.stays late

theorem gives_concat {plans : List TypePlan} (each : ∀ plan ∈ plans, plan.Gives index none) :
    (concat plans).Gives index none := by
  induction plans with
  | nil => exact gives_empty
  | cons plan more ih =>
    rw [List.forall_mem_cons] at each
    exact each.1.append (ih each.2)

/-- Of several plans one is about the method. -/
theorem gives_concat_append {front back : List TypePlan} {plan : TypePlan} {body? : Option Body}
    (early : ∀ plan ∈ front, plan.Gives index none) (own : plan.Gives index body?)
    (late : ∀ plan ∈ back, plan.Gives index none) :
    (concat (front ++ plan :: back)).Gives index body? := by
  induction front with
  | nil =>
    have whole := own.append (gives_concat late)
    rwa [Option.none_or] at whole
  | cons first more ih =>
    rw [List.forall_mem_cons] at early
    have whole := early.1.append (ih early.2)
    rwa [Option.or_none] at whole

theorem gives_concat_map {Item : Type} {items : List Item} {part : Item → TypePlan}
    (each : ∀ item ∈ items, (part item).Gives index none) :
    (concat (items.map part)).Gives index none :=
  gives_concat (List.forall_mem_map.mpr each)

end TypePlan

/-- The method with an index is the getter or the setter of the property that the member exposes. -/
def MemberBinding.HasAccessor (member : MemberBinding) (type : TypeDef) (index : Nat) : Prop :=
  ∃ property, type.Exposes member property ∧ ∃ place : UInt32,
    (property.getter = some place ∨ property.setter = some place) ∧ place.toNat = index

/-- The method with an index is the getter or the setter of an exposed property. -/
def ClassBinding.IsAccessor (binding : ClassBinding) (type : TypeDef) (index : Nat) : Prop :=
  ∃ member ∈ binding.members, ∃ property, type.Exposes member property ∧ ∃ place : UInt32,
    (property.getter = some place ∨ property.setter = some place) ∧ place.toNat = index

theorem MemberBinding.HasAccessor.isAccessor {member : MemberBinding} {type : TypeDef}
    {binding : ClassBinding} {index : Nat} (own : member.HasAccessor type index)
    (listed : member ∈ binding.members) : binding.IsAccessor type index :=
  ⟨member, listed, own⟩

open TypePlan Emit

variable {index : Nat}

/-! ## Slots -/

theorem yieldsGives_staticSlot (index : Nat) {owner kind : Signature} {name : String} :
    (staticSlot owner name kind).Yields fun slot => slot.plan.Gives index none := by
  unfold staticSlot
  exact .after fun token => .pure (gives_of_nil rfl rfl)

theorem yieldsGives_optionalSlot (index : Nat) {wanted : Bool} {owner kind : Signature}
    {name : String} : (optionalSlot wanted owner name kind).Yields fun slot =>
      slot.plan.Gives index none := by
  unfold optionalSlot
  split
  · exact .bind (yieldsGives_staticSlot index) fun slot gives => .pure gives
  · exact .pure gives_empty

theorem yieldsGives_memberSlots (index : Nat) {owner : Signature} {base : String}
    {category : Category} : (memberSlots owner base category).Yields fun slots =>
      slots.plan.Gives index none := by
  unfold memberSlots
  refine .bind (yieldsGives_staticSlot index) fun offset first => ?_
  refine .bind (yieldsGives_optionalSlot index) fun handle second => ?_
  refine .bind (yieldsGives_optionalSlot index) fun elementSize third => ?_
  refine .bind (yieldsGives_optionalSlot index) fun width fourth => ?_
  exact .pure (((first.append second).append third).append fourth)

/-! ## Properties -/

namespace ClassSite

variable {site : ClassSite} {member : MemberBinding} {property : Property} {slots : MemberSlots}
  {address : NativeAddress} {tokens : List UInt32}

theorem yieldsGives_wrapperSlot (index : Nat) {property : String} {category : Category} :
    (site.wrapperSlot property category).Yields fun slot => slot.plan.Gives index none := by
  unfold wrapperSlot
  split
  · exact .pure gives_empty
  · exact .after fun token => .pure (gives_of_nil rfl rfl)

theorem yieldsGives_planGetter {getter : Nat} (other : getter ≠ index) :
    (site.planGetter member getter slots address).Yields fun reading =>
      reading.plan.Gives index none := by
  unfold planGetter
  exact .after fun method => .after fun live => .after fun load => .after fun token =>
    .pure (gives_replaceBody_of_ne other _ _)

theorem yieldsGives_planSetterBody
    (other : ∀ place, property.setter = some place → place.toNat ≠ index) :
    (site.planSetterBody member property slots address tokens).Yields fun body =>
      body.plan.Gives index none := by
  unfold planSetterBody
  refine .after fun code => ?_
  cases declared : property.setter with
  | some place =>
    exact .after fun setter => .pure (gives_replaceBody_of_ne (other place declared) _ _)
  | none =>
    refine .after fun isStored => ?_
    split
    · exact .pure (gives_of_nil rfl rfl)
    · exact .pure gives_empty

theorem yieldsGives_planSetter
    (other : ∀ place, property.setter = some place → place.toNat ≠ index) :
    (site.planSetter member property slots address tokens).Yields fun setter =>
      setter.plan.Gives index none := by
  unfold planSetter
  refine .bind (yieldsGives_planSetterBody other) fun body gives => ?_
  split
  · exact .pure gives
  · exact .after fun token => .pure gives

theorem gives_of_planRemoval {result : TypePlan × List Diagnostic}
    (planned : site.planRemoval member property = .ok result)
    (other : ∀ place, property.setter = some place → place.toNat ≠ index) :
    result.1.Gives index none := by
  unfold planRemoval at planned
  cases declared : property.setter with
  | none =>
    rw [declared] at planned
    cases planned
    exact gives_empty
  | some place =>
    rw [declared] at planned
    rcases bind_eq_ok_iff.mp planned with ⟨setter, _, planned⟩
    rcases bind_eq_ok_iff.mp planned with ⟨diagnostics, _, final⟩
    cases final
    refine ⟨rfl, fun member => ?_⟩
    exact other place declared (List.mem_singleton.mp member).symm

theorem yieldsGives_planAccessors {getter : Nat} (reads : getter ≠ index)
    (writes : ∀ place, property.setter = some place → place.toNat ≠ index) :
    (site.planAccessors member property getter).Yields fun planned =>
      planned.plan.Gives index none := by
  unfold planAccessors
  refine .bind (yieldsGives_memberSlots index) fun slots first => ?_
  refine .bind (yieldsGives_wrapperSlot index) fun wrapper second => ?_
  refine .after fun fill => .after fun base => ?_
  refine .bind (yieldsGives_planGetter reads) fun reading third => ?_
  have start : (slots.plan ++ wrapper.plan ++ ({ prelude := fill } : TypePlan)
      ++ reading.plan).Gives index none :=
    ((first.append second).append (gives_of_nil rfl rfl)).append third
  dsimp only
  split
  · refine .bind (.lift fun planned => gives_of_planRemoval planned writes) fun removal fourth => ?_
    rw [pure_bind]
    exact .pure (((start.append gives_empty).append fourth).append (gives_removedFields _ _))
  · refine .bind (yieldsGives_planSetter writes) fun setter fourth => ?_
    rw [pure_bind]
    exact .pure (((start.append fourth).append gives_empty).append (gives_removedFields _ _))

/-- The plan of a property is about its accessors. -/
theorem yieldsGives_planProperty (other : ¬ member.HasAccessor site.type index) :
    (site.planProperty member).Yields fun planned => planned.plan.Gives index none := by
  unfold planProperty
  split
  · next place bound =>
    refine .bind (.lift Weave.ofOption_eq_ok) fun property found => ?_
    refine .bind (.lift Weave.ofOption_eq_ok) fun getter declared => ?_
    have exposes : site.type.Exposes member property := ⟨place, bound, found⟩
    refine yieldsGives_planAccessors (fun same => ?_) (fun setter writes same => ?_)
    · exact other ⟨property, exposes, getter, .inl declared, same⟩
    · exact other ⟨property, exposes, setter, .inr writes, same⟩
  · exact .pure gives_empty

/-- What the plans of all properties have for a method that belongs to one of them alone is what the
plan of that property has. -/
theorem gives_of_planProperties {front back : List MemberBinding} {before after : Tables}
    {properties : List PropertyPlan}
    (run : (front ++ member :: back).mapM site.planProperty before = .ok (properties, after)) :
    ∃ start finish planned, site.planProperty member start = .ok (planned, finish) ∧
      finish.Grows after ∧ ∀ index,
        (∀ other ∈ front ++ back, ¬ other.HasAccessor site.type index) → ∀ body?,
          planned.plan.Gives index body? →
            (concat (properties.map (·.plan))).Gives index body? := by
  rcases Emit.exists_of_mapM_append run with
    ⟨start, finish, early, planned, late, ahead, own, behind, rfl⟩
  refine ⟨start, finish, planned, own, Grows.grows behind, fun index others body? gives => ?_⟩
  have first : ∀ planned ∈ early, planned.plan.Gives index none :=
    Yields.mapM (fun other listed =>
      yieldsGives_planProperty (others other (List.mem_append_left _ listed))) _ _ _ ahead
  have second : ∀ planned ∈ late, planned.plan.Gives index none :=
    Yields.mapM (fun other listed =>
      yieldsGives_planProperty (others other (List.mem_append_right _ listed))) _ _ _ behind
  rw [List.map_append, List.map_cons]
  exact gives_concat_append (List.forall_mem_map.mpr first) gives (List.forall_mem_map.mpr second)

/-! ## Constructors -/

theorem yieldsGives_planConstruction {backing : Backing} {effects : List ConstructionEffect}
    {method : Method} {place : Nat} {locals : List Signature} {code : Code} {baseCall : Nat}
    (other : place ≠ index) :
    (site.planConstruction backing effects method place locals code baseCall).Yields
      fun planned => planned.1.Gives index none := by
  unfold planConstruction
  refine .after fun relocation => ?_
  dsimp only
  split
  · exact .pure gives_empty
  · split
    · exact .bind .throw fun _ (impossible : False) => impossible.elim
    · refine .after fun emitted => ?_
      split
      · exact .throw
      · exact .pure (gives_replaceBody_of_ne other _ _)

theorem yieldsGives_planConstructor {backing : Backing} {effects : List ConstructionEffect}
    {place : Nat} {method : Method} (other : place ≠ index) :
    (site.planConstructor backing effects place method).Yields
      fun planned => planned.1.Gives index none := by
  unfold planConstructor
  split
  · exact .pure gives_empty
  · refine .after fun code => ?_
    dsimp only
    split
    · exact .pure gives_empty
    · split
      · exact .pure gives_empty
      · exact yieldsGives_planConstruction other

theorem gives_foldl_addPlan {parts : List (TypePlan × List Diagnostic)}
    {start : TypePlan × List Diagnostic} {body? : Option Body} (first : start.1.Gives index body?)
    (each : ∀ part ∈ parts, part.1.Gives index none) :
    (parts.foldl addPlan start).1.Gives index body? := by
  induction parts generalizing start with
  | nil => exact first
  | cons part more ih =>
    rw [List.forall_mem_cons] at each
    exact ih (first.append each.1) each.2

end ClassSite

/-! ## Other methods -/

namespace Backing

variable {backing : Backing} {type : TypeDef} {method : Method}

theorem gives_of_methodPlan {place : Nat} {result : TypePlan × List Diagnostic}
    (planned : backing.methodPlan type method place = .ok result) (other : place ≠ index) :
    result.1.Gives index none := by
  unfold methodPlan at planned
  split at planned
  · cases planned
    exact gives_empty
  · rcases bind_eq_ok_iff.mp planned with ⟨code, _, final⟩
    cases final
    dsimp only
    split
    · exact gives_empty
    · exact gives_replaceBody_of_ne other _ _

/-- The methods that are redirected, with their indices. -/
def others (type : TypeDef) (plan : TypePlan) : List (Method × Nat) :=
  type.methods.zipIdx.filter fun (method, index) =>
    !method.isConstructor && !plan.replaces index && !plan.removedMethods.contains index

/-- What is planned for all redirected methods has for one of them what its own plan has for it. -/
theorem method_of_methodPlans {plan : TypePlan} {result : TypePlan × List Diagnostic}
    (planned : backing.methodPlans type plan = .ok result)
    (here : type.methods[index]? = some method) (other : method.isConstructor = false)
    (kept : plan.Gives index none) :
    ∃ part, (backing = [] ∧ part = ({}, []) ∨ backing.methodPlan type method index = .ok part) ∧
      (Diagnostic.hasErrors result.2 = false → Diagnostic.hasErrors part.2 = false) ∧
      ∀ body?, part.1.Gives index body? → result.1.Gives index body? := by
  unfold methodPlans at planned
  split at planned
  · next empty =>
    cases planned
    exact ⟨_, .inl ⟨List.isEmpty_iff.mp empty, rfl⟩, id, fun _ => id⟩
  · rcases bind_eq_ok_iff.mp planned with ⟨parts, run, final⟩
    cases final
    change (others type plan).mapM _ = _ at run
    have listed : (method, index) ∈ others type plan := by
      refine List.mem_filter.mpr ⟨List.mk_mem_zipIdx_iff_getElem?.mpr here, ?_⟩
      have replaced : plan.replaces index = false := not_replaced_of_lastBody? kept.body
      have removed : plan.removedMethods.contains index = false := by
        rw [Bool.eq_false_iff]
        exact fun member => kept.stays (List.contains_iff_mem.mp member)
      simp only [other, replaced, removed, Bool.not_false, Bool.and_self]
    have indices : (others type plan).Pairwise (·.2 ≠ ·.2) := by
      have all : (type.methods.zipIdx.map Prod.snd).Pairwise (· ≠ ·) := by
        rw [List.zipIdx_map_snd]
        exact List.nodup_range'
      exact (List.pairwise_map.mp all).filter _
    rcases List.append_of_mem listed with ⟨front, back, split⟩
    rw [split] at run indices
    rw [List.pairwise_append, List.pairwise_cons] at indices
    rcases NativeWeave.exists_of_mapM_append run with ⟨early, part, late, ahead, own, behind, rfl⟩
    have first : ∀ part ∈ early, part.1.Gives index none := by
      intro part member
      rcases exists_of_mem_mapM ahead member with ⟨⟨found, place⟩, inside, step⟩
      exact gives_of_methodPlan step (indices.2.2 _ inside _ List.mem_cons_self)
    have second : ∀ part ∈ late, part.1.Gives index none := by
      intro part member
      rcases exists_of_mem_mapM behind member with ⟨⟨found, place⟩, inside, step⟩
      exact gives_of_methodPlan step (indices.2.1.1 _ inside).symm
    refine ⟨part, .inr own, fun clean => ?_, fun body? gives => ?_⟩
    · rw [List.flatMap_append, List.flatMap_cons, Diagnostic.hasErrors_append,
        Diagnostic.hasErrors_append] at clean
      simp only [Bool.or_eq_false_iff] at clean
      exact clean.2.1
    · rw [List.map_append, List.map_cons]
      exact gives_concat_append (List.forall_mem_map.mpr first) gives (List.forall_mem_map.mpr second)

/-- Constructors and methods that have got a body are left alone when the others are redirected. -/
theorem gives_of_methodPlans {plan : TypePlan} {result : TypePlan × List Diagnostic}
    (planned : backing.methodPlans type plan = .ok result)
    (here : type.methods[index]? = some method)
    (settled : method.isConstructor = true ∨ plan.replaces index = true) :
    result.1.Gives index none := by
  unfold methodPlans at planned
  split at planned
  · cases planned
    exact gives_empty
  · rcases bind_eq_ok_iff.mp planned with ⟨parts, run, final⟩
    cases final
    refine gives_concat_map fun part member => ?_
    rcases exists_of_mem_mapM run member with ⟨⟨found, place⟩, kept, step⟩
    rcases List.mem_filter.mp kept with ⟨listed, wanted⟩
    refine gives_of_methodPlan step ?_
    rintro rfl
    cases here.symm.trans (List.mk_mem_zipIdx_iff_getElem?.mp listed)
    rcases settled with constructor | replaced
    · simp [constructor] at wanted
    · simp [replaced] at wanted

end Backing

/-! ## Functions -/

namespace ClassSite

variable {site : ClassSite}

theorem yieldsGives_planValue (index : Nat) {function : FunctionBinding} {handle : UInt32}
    {hasThis : Bool} {value : MemberBinding} :
    (site.planValue function handle hasThis value).Yields fun planned =>
      planned.plan.Gives index none := by
  unfold planValue
  refine .bind (yieldsGives_memberSlots index) fun slots gives => .after fun fill => ?_
  have whole : (slots.plan ++ ({ prelude := fill } : TypePlan)).Gives index none :=
    gives.append (gives_of_nil rfl rfl)
  dsimp only
  split
  · exact .after fun argument => .pure whole
  · exact .after fun argument => .pure whole

/-- The code of a function keeps its place and its body. -/
theorem yieldsGives_planFunction (earlier : TypePlan) (function : FunctionBinding) :
    (site.planFunction earlier function).Yields fun plan => plan.Gives index none := by
  unfold planFunction
  refine .after fun method => ?_
  refine .bind (yieldsGives_staticSlot index) fun handle first => ?_
  refine .bind (yieldsGives_staticSlot index) fun size second => ?_
  refine .after fun findHandle => .after fun findSize => ?_
  refine .bind (.mapM fun value _ => yieldsGives_planValue index) fun values each => ?_
  refine .after fun callerBody => .after fun invokerBody => .pure ?_
  have slots : (handle.plan ++ size.plan ++ ({ prelude := findHandle ++ findSize } : TypePlan)
      ++ TypePlan.concat (values.map (·.plan))).Gives index none :=
    ((first.append second).append (gives_of_nil rfl rfl)).append (gives_concat_map each)
  exact ((slots.append (gives_of_nil rfl rfl)).append (gives_of_nil rfl rfl)).append
    (gives_of_nil rfl rfl)

/-! ## Classes -/

/-- Constructors are told apart by their indices. -/
theorem pairwise_constructors (type : TypeDef) : type.constructors.Pairwise (·.1 ≠ ·.1) := by
  have indices : (type.methods.zipIdx.map Prod.snd).Pairwise (· ≠ ·) := by
    rw [List.zipIdx_map_snd]
    exact List.nodup_range'
  exact List.pairwise_map.mpr ((List.pairwise_map.mp indices).filter _)

theorem hasErrors_foldl_addPlan (parts : List (TypePlan × List Diagnostic))
    (start : TypePlan × List Diagnostic) : Diagnostic.hasErrors (parts.foldl addPlan start).2 =
      (Diagnostic.hasErrors start.2 || parts.any fun part => Diagnostic.hasErrors part.2) := by
  induction parts generalizing start with
  | nil => exact (Bool.or_false _).symm
  | cons part more ih =>
    rw [List.foldl_cons, ih, List.any_cons, ← Bool.or_assoc]
    congr 1
    exact Diagnostic.hasErrors_append _ _

/-- What all constructors together get for one of them is what its own plan has for it. -/
theorem gives_of_planConstructors {backing : Backing} {effects : List ConstructionEffect}
    {constructor : Method} {before after : Tables} {planned : TypePlan × List Diagnostic}
    (run : site.planConstructors backing effects before = .ok (planned, after))
    (here : (index, constructor) ∈ site.type.constructors) :
    ∃ start finish part, before.Grows start ∧ finish.Grows after ∧
      site.planConstructor backing effects index constructor start = .ok (part, finish) ∧
      (Diagnostic.hasErrors planned.2 = false → Diagnostic.hasErrors part.2 = false) ∧
      ∀ body?, part.1.Gives index body? → planned.1.Gives index body? := by
  rcases bind_eq_ok_iff.mp run with ⟨⟨parts, last⟩, each, final⟩
  cases final
  rcases List.append_of_mem here with ⟨front, back, split⟩
  have apart := pairwise_constructors site.type
  rw [split, List.pairwise_append, List.pairwise_cons] at apart
  rw [split] at each
  rcases Emit.exists_of_mapM_append each with
    ⟨start, finish, early, part, late, ahead, own, behind, rfl⟩
  have others : ∀ constructor ∈ front ++ back, constructor.1 ≠ index := by
    intro other member
    rcases List.mem_append.mp member with first | second
    · exact apart.2.2 other first _ List.mem_cons_self
    · exact (apart.2.1.1 other second).symm
  have first : ∀ part ∈ early, part.1.Gives index none :=
    Yields.mapM (fun other member => yieldsGives_planConstructor
      (others other (List.mem_append_left _ member))) _ _ _ ahead
  have second : ∀ part ∈ late, part.1.Gives index none :=
    Yields.mapM (fun other member => yieldsGives_planConstructor
      (others other (List.mem_append_right _ member))) _ _ _ behind
  refine ⟨start, finish, part, Grows.grows ahead, Grows.grows behind, own, ?_, ?_⟩
  · intro clean
    rw [hasErrors_foldl_addPlan, List.any_append, List.any_cons] at clean
    simp only [Bool.or_eq_false_iff] at clean
    exact clean.2.2.1
  · intro body? gives
    rw [List.foldl_append, List.foldl_cons]
    refine gives_foldl_addPlan ?_ second
    have nothing : (early.foldl addPlan ({}, [])).1.Gives index none :=
      gives_foldl_addPlan gives_empty first
    have both := nothing.append gives
    rwa [Option.or_none] at both

/-- Methods that are no constructors are left alone when those are edited. -/
theorem gives_of_planConstructors_of_other {backing : Backing} {effects : List ConstructionEffect}
    {method : Method} (here : site.type.methods[index]? = some method)
    (other : method.isConstructor = false) :
    (site.planConstructors backing effects).Yields fun planned => planned.1.Gives index none := by
  refine .bind (.mapM fun item member => ?_) fun parts each =>
    .pure (gives_foldl_addPlan gives_empty each)
  refine yieldsGives_planConstructor ?_
  rintro rfl
  rcases List.mem_map.mp member with ⟨⟨constructor, place⟩, listed, rfl⟩
  rcases List.mem_filter.mp listed with ⟨inside, constructs⟩
  cases here.symm.trans (List.mk_mem_zipIdx_iff_getElem?.mp inside)
  cases other.symm.trans constructs

end ClassSite

/-! ## Classes -/

/-- The stages in which the edits to a class are planned, and the tables between them. -/
structure ClassBinding.Planning (config : Config) (source : Module) (type : TypeDef)
    (binding : ClassBinding) (before after : Tables) where
  classPtr : Planned UInt32
  findType : Fragment
  properties : List PropertyPlan
  constructed : TypePlan × List Diagnostic
  redirected : TypePlan × List Diagnostic
  functions : List TypePlan
  start : Tables
  first : Tables
  second : Tables
  third : Tables
  slot : staticSlot type.signature Naming.nativeClassPtr .intPtr before = .ok (classPtr, start)
  typed : Prelude.nativeType config binding.nativeName classPtr.value start = .ok (findType, first)
  accessors : binding.members.mapM
    (ClassSite.planProperty ⟨config, source, type, binding, classPtr.value⟩) first =
      .ok (properties, second)
  constructors : ClassSite.planConstructors ⟨config, source, type, binding, classPtr.value⟩
    (properties.flatMap (·.backing)).reverse (properties.flatMap (·.effects)) second =
      .ok (constructed, third)
  others : Backing.methodPlans (properties.flatMap (·.backing)).reverse type
    (({ prelude := findType } : TypePlan) ++ concat (properties.map (·.plan)) ++ constructed.1) =
      .ok redirected
  last : binding.functions.mapM
    (ClassSite.planFunction ⟨config, source, type, binding, classPtr.value⟩
      (({ prelude := findType } : TypePlan) ++ concat (properties.map (·.plan)) ++ constructed.1
        ++ redirected.1)) third = .ok (functions, after)

namespace ClassBinding.Planning

variable {config : Config} {source : Module} {type : TypeDef} {binding : ClassBinding}
  {before after : Tables}

def site (planning : binding.Planning config source type before after) : ClassSite :=
  ⟨config, source, type, binding, planning.classPtr.value⟩

/-- The table of hidden fields. -/
def backing (planning : binding.Planning config source type before after) : Backing :=
  (planning.properties.flatMap (·.backing)).reverse

/-- What new objects need. -/
def effects (planning : binding.Planning config source type before after) :
    List ConstructionEffect :=
  planning.properties.flatMap (·.effects)

/-- The edits for the accessors and their slots. -/
def accessorPlan (planning : binding.Planning config source type before after) : TypePlan :=
  ({ prelude := planning.findType } : TypePlan) ++ concat (planning.properties.map (·.plan))

/-- The whole plan. -/
def plan (planning : binding.Planning config source type before after) : TypePlan :=
  planning.classPtr.plan ++ (planning.accessorPlan ++ planning.constructed.1
    ++ planning.redirected.1
    ++ (concat planning.functions ++ ({ touched := [Method.initializerName] } : TypePlan)))

def diagnostics (planning : binding.Planning config source type before after) :
    List Diagnostic :=
  planning.properties.flatMap (·.diagnostics) ++ planning.constructed.2 ++ planning.redirected.2

end ClassBinding.Planning

variable {config : Config} {source : Module} {type : TypeDef} {binding : ClassBinding}
  {before after : Tables}

/-- A plan for a class comes from its stages. -/
theorem ClassBinding.exists_planning {planned : TypePlan × List Diagnostic}
    (run : binding.plan config source type before = .ok (planned, after)) :
    ∃ planning : binding.Planning config source type before after,
      planned = (planning.plan, planning.diagnostics) := by
  unfold plan at run
  rcases exists_of_bind run with ⟨classPtr, start, slot, run⟩
  rcases exists_of_bind run with ⟨members, last, run, final⟩
  cases final
  unfold ClassSite.planMembers at run
  rcases exists_of_bind run with ⟨findType, first, typed, run⟩
  rcases exists_of_bind run with ⟨properties, second, accessors, run⟩
  rcases exists_of_bind run with ⟨constructed, third, constructors, run⟩
  rcases exists_of_bind run with ⟨redirected, fourth, rest, run⟩
  rcases exists_of_bind run with ⟨functions, fifth, last, final⟩
  rcases eq_of_lift rest with ⟨others, rfl⟩
  cases final
  refine ⟨⟨classPtr, findType, properties, constructed, redirected, functions, start, first, second,
    third, slot, typed, accessors, constructors, others, last⟩, ?_⟩
  change (_, [] ++ (_ ++ [])) = _
  rw [List.nil_append, List.append_nil]
  rfl

namespace ClassBinding.Planning

theorem clean_iff (planning : binding.Planning config source type before after) :
    Diagnostic.hasErrors planning.diagnostics = false ↔
      Diagnostic.hasErrors (planning.properties.flatMap (·.diagnostics)) = false ∧
      Diagnostic.hasErrors planning.constructed.2 = false ∧
      Diagnostic.hasErrors planning.redirected.2 = false := by
  unfold diagnostics
  rw [Diagnostic.hasErrors_append, Diagnostic.hasErrors_append, Bool.or_eq_false_iff,
    Bool.or_eq_false_iff, and_assoc]

/-! Tables only grow from one stage to the next. -/

section Tables

variable {tables : Tables} (planning : binding.Planning config source type before after)
  (grows : after.Grows tables)
include grows

theorem third_grows : planning.third.Grows tables :=
  (Grows.grows planning.last).trans grows

theorem second_grows : planning.second.Grows tables :=
  (Grows.grows planning.constructors).trans (planning.third_grows grows)

theorem first_grows : planning.first.Grows tables :=
  (Grows.grows planning.accessors).trans (planning.second_grows grows)

theorem start_grows : planning.start.Grows tables :=
  (Grows.grows planning.typed).trans (planning.first_grows grows)

end Tables

/-- The whole plan has for a method that is no accessor what the edits to constructors and the
redirections have for it. -/
theorem gives (planning : binding.Planning config source type before after)
    (accessor : ¬ binding.IsAccessor type index) {one other : Option Body}
    (constructed : planning.constructed.1.Gives index one)
    (redirected : planning.redirected.1.Gives index other) :
    planning.plan.Gives index (other.or one) := by
  have properties : ∀ planned ∈ planning.properties, planned.plan.Gives index none :=
    Yields.mapM (fun member listed => ClassSite.yieldsGives_planProperty fun own =>
      accessor (own.isAccessor listed)) _ _ _ planning.accessors
  have functions : ∀ plan ∈ planning.functions, plan.Gives index none :=
    Yields.mapM (fun function _ => ClassSite.yieldsGives_planFunction _ function) _ _ _ planning.last
  have slot : planning.classPtr.plan.Gives index none :=
    yieldsGives_staticSlot index _ _ _ planning.slot
  have early : planning.accessorPlan.Gives index none :=
    (gives_of_nil rfl rfl).append (gives_concat_map properties)
  have late : (concat planning.functions
      ++ ({ touched := [Method.initializerName] } : TypePlan)).Gives index none :=
    (gives_concat functions).append (gives_of_nil rfl rfl)
  have whole := slot.append (((early.append constructed).append redirected).append late)
  rwa [Option.or_none, Option.or_none, Option.none_or] at whole

/-- What becomes of an accessor that belongs to one property alone is up to the plan of that property. -/
theorem accessor (planning : binding.Planning config source type before after)
    (origins : binding.members.Pairwise (·.origin ≠ ·.origin)) {member : MemberBinding}
    (listed : member ∈ binding.members) :
    ∃ start finish planned, planning.site.planProperty member start = .ok (planned, finish) ∧
      finish.Grows planning.second ∧ ∀ index method, type.methods[index]? = some method →
        method.isConstructor = false →
        (∀ other ∈ binding.members, other.origin ≠ member.origin → ¬ other.HasAccessor type index) →
          ∀ body, planned.plan.Gives index (some body) → planning.plan.Gives index (some body) := by
  have run := planning.accessors
  rcases List.append_of_mem listed with ⟨front, back, split⟩
  rw [split] at run
  rw [split, List.pairwise_append, List.pairwise_cons] at origins
  rcases ClassSite.gives_of_planProperties run with ⟨start, finish, planned, own, grows, gives⟩
  refine ⟨start, finish, planned, own, grows, fun index method here other alone body given => ?_⟩
  have others : ∀ other ∈ front ++ back, ¬ other.HasAccessor type index := by
    intro other inside
    rcases List.mem_append.mp inside with early | late
    · refine alone other ?_ (origins.2.2 other early member List.mem_cons_self)
      rw [split]
      exact List.mem_append_left _ early
    · refine alone other ?_ (origins.2.1.1 other late).symm
      rw [split]
      exact List.mem_append_right _ (List.mem_cons_of_mem _ late)
  have accessors : planning.accessorPlan.Gives index (some body) :=
    (gives_of_nil rfl rfl).append (gives index others (some body) given)
  have constructed : planning.constructed.1.Gives index none :=
    ClassSite.gives_of_planConstructors_of_other here other _ _ _ planning.constructors
  have replaced : (planning.accessorPlan ++ planning.constructed.1).replaces index = true := by
    have known := mem_of_lastBody? (accessors.append constructed).body
    exact List.any_eq_true.mpr ⟨_, known, beq_self_eq_true index⟩
  have redirected := Backing.gives_of_methodPlans planning.others here (.inr replaced)
  have functions : ∀ plan ∈ planning.functions, plan.Gives index none :=
    Yields.mapM (fun function _ => ClassSite.yieldsGives_planFunction _ function) _ _ _ planning.last
  have slot : planning.classPtr.plan.Gives index none :=
    yieldsGives_staticSlot index _ _ _ planning.slot
  have late : (concat planning.functions
      ++ ({ touched := [Method.initializerName] } : TypePlan)).Gives index none :=
    (gives_concat functions).append (gives_of_nil rfl rfl)
  exact slot.append (((accessors.append constructed).append redirected).append late)

/-- What becomes of a constructor that is no accessor is up to the plan made for it, which knows the
hidden fields and the effects of all properties. -/
theorem constructor (planning : binding.Planning config source type before after)
    (clean : Diagnostic.hasErrors planning.diagnostics = false) {constructor : Method}
    (here : type.methods[index]? = some constructor)
    (constructs : constructor.isConstructor = true) (accessor : ¬ binding.IsAccessor type index) :
    ∃ start finish part, planning.second.Grows start ∧ finish.Grows planning.third ∧
      planning.site.planConstructor planning.backing planning.effects index constructor start =
        .ok (part, finish) ∧
      Diagnostic.hasErrors part.2 = false ∧
      ∀ body?, part.1.Gives index body? → planning.plan.Gives index body? := by
  have listed : (index, constructor) ∈ type.constructors := by
    refine List.mem_map.mpr ⟨(constructor, index), List.mem_filter.mpr ⟨?_, constructs⟩, rfl⟩
    exact List.mk_mem_zipIdx_iff_getElem?.mpr here
  rcases ClassSite.gives_of_planConstructors planning.constructors listed with
    ⟨start, finish, part, begun, ended, own, fine, gives⟩
  refine ⟨start, finish, part, begun, ended, own, fine (planning.clean_iff.mp clean).2.1,
    fun body? kept => ?_⟩
  have whole := planning.gives accessor (gives body? kept)
    (Backing.gives_of_methodPlans planning.others here (.inl constructs))
  rwa [Option.none_or] at whole

/-- What becomes of any other method is up to its redirection. -/
theorem method (planning : binding.Planning config source type before after)
    (clean : Diagnostic.hasErrors planning.diagnostics = false) {method : Method}
    (here : type.methods[index]? = some method) (other : method.isConstructor = false)
    (accessor : ¬ binding.IsAccessor type index) :
    ∃ part, (planning.backing = [] ∧ part = ({}, []) ∨
        planning.backing.methodPlan type method index = .ok part) ∧
      Diagnostic.hasErrors part.2 = false ∧
      ∀ body?, part.1.Gives index body? → planning.plan.Gives index body? := by
  have properties : ∀ planned ∈ planning.properties, planned.plan.Gives index none :=
    Yields.mapM (fun member listed => ClassSite.yieldsGives_planProperty fun own =>
      accessor (own.isAccessor listed)) _ _ _ planning.accessors
  have constructed : planning.constructed.1.Gives index none :=
    ClassSite.gives_of_planConstructors_of_other here other _ _ _ planning.constructors
  have kept : (planning.accessorPlan ++ planning.constructed.1).Gives index none :=
    ((gives_of_nil rfl rfl).append (gives_concat_map properties)).append constructed
  rcases Backing.method_of_methodPlans planning.others here other kept with
    ⟨part, own, fine, gives⟩
  refine ⟨part, own, fine (planning.clean_iff.mp clean).2.2, fun body? given => ?_⟩
  have whole := planning.gives accessor constructed (gives body? given)
  rwa [Option.or_none] at whole

end ClassBinding.Planning

end NativeWeave
