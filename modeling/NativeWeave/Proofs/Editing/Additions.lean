import NativeWeave.Proofs.Editing.Accessors

namespace NativeWeave

/-!
# The names that plans add

A plan adds fields and methods under names that follow from the binding alone.  Fields are told apart
by their names, and methods by their names and the types of their parameters.  What a plan adds is
counted for each of its parts and put together as the parts are.
-/

/-- What tells a method from the others of its type. -/
def Method.key (method : Method) : String × List Signature :=
  (method.name, method.parameterTypes)

/-- The names that edits add to a type, give to its methods and take from its fields. -/
structure Additions where
  fields : List String := []
  methods : List (String × List Signature) := []
  renames : List (Nat × String) := []
  removed : List String := []

namespace Additions

def append (first second : Additions) : Additions where
  fields := first.fields ++ second.fields
  methods := first.methods ++ second.methods
  renames := first.renames ++ second.renames
  removed := first.removed ++ second.removed

instance : Append Additions := ⟨append⟩

def concat (parts : List Additions) : Additions :=
  parts.foldr append {}

theorem append_empty (additions : Additions) : additions ++ {} = additions := by
  change append additions {} = additions
  simp [append]

theorem mk_append_mk (fields otherFields : List String)
    (methods otherMethods : List (String × List Signature)) (renames otherRenames : List (Nat × String))
    (removed otherRemoved : List String) :
    Additions.mk fields methods renames removed
        ++ Additions.mk otherFields otherMethods otherRenames otherRemoved =
      ⟨fields ++ otherFields, methods ++ otherMethods, renames ++ otherRenames,
        removed ++ otherRemoved⟩ :=
  rfl

/-- What several parts add of one kind. -/
theorem concat_map {Item Added : Type} (added : Additions → List Added) (nothing : added {} = [])
    (both : ∀ first second : Additions, added (first ++ second) = added first ++ added second)
    (items : List Item) (part : Item → Additions) :
    added (concat (items.map part)) = items.flatMap fun item => added (part item) := by
  induction items with
  | nil => exact nothing
  | cons item more ih =>
    rw [List.flatMap_cons, ← ih]
    exact both _ _

/-- Parts that add fields only. -/
theorem concat_fields {Item : Type} (items : List Item) (fields : Item → List String) :
    concat (items.map fun item => { fields := fields item }) =
      { fields := items.flatMap fields } := by
  induction items with
  | nil => rfl
  | cons item more ih =>
    rw [List.map_cons, List.flatMap_cons]
    change append _ (concat _) = _
    rw [ih]
    rfl

end Additions

/-- The methods that exist, as they are told apart, under the indices of some new names. -/
def TypeDef.keysAt (type : TypeDef) (renames : List (Nat × String)) :
    List (String × List Signature) :=
  renames.filterMap fun edit => type.methods[edit.1]?.map (·.key)

namespace TypePlan

/-- The plan adds these names.  Of the methods some may be missing, and for a method that gets a new
name another one may stand in under the old one. -/
structure Adds (plan : TypePlan) (type : TypeDef) (additions : Additions) : Prop where
  fields : plan.fields.map (·.name) = additions.fields
  methods : List.Subperm (plan.methods.map (·.key))
    (additions.methods ++ type.keysAt additions.renames)
  renames : plan.renames = additions.renames
  removed : plan.removedFields = additions.removed
  /-- For an initializer that gets a new name there is another one. -/
  initializer : ∀ edit ∈ plan.renames, ∀ method ∈ type.methods[edit.1]?,
    method.isTypeInitializer = true → plan.methods.any (·.isTypeInitializer) = true

variable {type : TypeDef}

/-- A plan that adds no fields and methods. -/
theorem adds_of_nil {plan : TypePlan} (fields : plan.fields = []) (methods : plan.methods = [])
    (renames : plan.renames = []) (removed : plan.removedFields = []) : plan.Adds type {} where
  fields := by rw [fields, List.map_nil]
  methods := by
    rw [methods, List.map_nil]
    exact List.nil_subperm
  renames := renames
  removed := removed
  initializer := by simp [renames]

theorem Adds.append {first second : TypePlan} {one other : Additions}
    (front : first.Adds type one) (back : second.Adds type other) :
    (first ++ second).Adds type (one ++ other) where
  fields := by
    change (first.fields ++ second.fields).map _ = one.fields ++ other.fields
    rw [List.map_append, front.fields, back.fields]
  methods := by
    change List.Subperm ((first.methods ++ second.methods).map _)
      ((one.methods ++ other.methods) ++ type.keysAt (one.renames ++ other.renames))
    rw [List.map_append, TypeDef.keysAt, List.filterMap_append]
    refine (front.methods.append back.methods).trans (List.Perm.subperm ?_)
    rw [List.append_assoc, List.append_assoc]
    refine List.Perm.append_left _ ?_
    rw [← List.append_assoc, ← List.append_assoc]
    exact List.Perm.append_right _ List.perm_append_comm
  renames := by
    change first.renames ++ second.renames = one.renames ++ other.renames
    rw [front.renames, back.renames]
  removed := by
    change first.removedFields ++ second.removedFields = one.removed ++ other.removed
    rw [front.removed, back.removed]
  initializer edit member method found initializes := by
    change (first.methods ++ second.methods).any _ = true
    rw [List.any_append, Bool.or_eq_true]
    rcases List.mem_append.mp member with one | other
    · exact .inl (front.initializer edit one method found initializes)
    · exact .inr (back.initializer edit other method found initializes)

/-- Plans that add nothing add nothing together. -/
theorem adds_concat_nothing {plans : List TypePlan} (each : ∀ plan ∈ plans, plan.Adds type {}) :
    (concat plans).Adds type {} := by
  induction plans with
  | nil => exact adds_of_nil rfl rfl rfl rfl
  | cons plan more ih =>
    rw [List.forall_mem_cons] at each
    exact each.1.append (ih each.2)

/-- A plan that adds nothing takes nothing away either. -/
theorem Adds.append_nothing {first second : TypePlan} {additions : Additions}
    (front : first.Adds type additions) (back : second.Adds type {}) :
    (first ++ second).Adds type additions := by
  rw [← additions.append_empty]
  exact front.append back

/-- Code for the initializer adds nothing. -/
theorem Adds.prelude {plan : TypePlan} {additions : Additions} (adds : plan.Adds type additions)
    (fill : Fragment) : (plan ++ ({ prelude := fill } : TypePlan)).Adds type additions :=
  adds.append_nothing (adds_of_nil rfl rfl rfl rfl)

/-- A list of methods to verify adds nothing. -/
theorem Adds.touches {plan : TypePlan} {additions : Additions} (adds : plan.Adds type additions)
    (touched : List String) : (plan ++ ({ touched } : TypePlan)).Adds type additions :=
  adds.append_nothing (adds_of_nil rfl rfl rfl rfl)

/-- Plans put together add what each of them adds. -/
theorem adds_concat_map {Item Part : Type} {items : List Item} {parts : List Part}
    (part : Part → TypePlan) {added : Item → Additions}
    (each : List.Forall₂ (fun item result => (part result).Adds type (added item)) items parts) :
    (concat (parts.map part)).Adds type (Additions.concat (items.map added)) := by
  induction each with
  | nil => exact adds_of_nil rfl rfl rfl rfl
  | cons first _ ih => exact first.append ih

theorem adds_replaceBody (index : Nat) (name : String) (body : Body) :
    (replaceBody index name body).Adds type {} :=
  adds_of_nil rfl rfl rfl rfl

theorem adds_addMethod (method : Method) :
    (addMethod method).Adds type { methods := [method.key] } where
  fields := rfl
  methods := (List.append_nil _).symm ▸ List.Subperm.refl _
  renames := rfl
  removed := rfl
  initializer := nofun

/-- Slots come behind the fields that were added before. -/
theorem Adds.addFields {first second : TypePlan} {additions : Additions} {names : List String}
    (front : first.Adds type additions) (back : second.Adds type { fields := names }) :
    (first ++ second).Adds type { additions with fields := additions.fields ++ names } := by
  have whole := front.append back
  cases additions
  simpa only [Additions.mk_append_mk, List.append_nil] using whole

/-- A method comes behind those that were added before. -/
theorem Adds.addMethod {plan : TypePlan} {additions : Additions} (adds : plan.Adds type additions)
    (method : Method) : (plan ++ TypePlan.addMethod method).Adds type
      { additions with methods := additions.methods ++ [method.key] } := by
  have whole := adds.append (adds_addMethod method)
  cases additions
  simpa only [Additions.mk_append_mk, List.append_nil] using whole

/-- A method stands in for one that gets a new name. -/
theorem Adds.standIn {plan : TypePlan} {additions : Additions} (adds : plan.Adds type additions)
    {index : Nat} {name : String} {touched : List String} {method : Method} (replacement : Method)
    (found : type.methods[index]? = some method) (same : replacement.key = method.key)
    (still : method.isTypeInitializer = true → replacement.isTypeInitializer = true) :
    (plan ++ ({ renames := [(index, name)], touched } : TypePlan)
      ++ TypePlan.addMethod replacement).Adds type
        { additions with renames := additions.renames ++ [(index, name)] } where
  fields := by
    change (plan.fields ++ [] ++ []).map _ = additions.fields
    rw [List.append_nil, List.append_nil, adds.fields]
  methods := by
    have key : type.keysAt [(index, name)] = [replacement.key] := by
      rw [same, TypeDef.keysAt, List.filterMap_cons, found]
      rfl
    change List.Subperm ((plan.methods ++ [] ++ [replacement]).map _)
      (additions.methods ++ type.keysAt (additions.renames ++ [(index, name)]))
    rw [List.append_nil, List.map_append, TypeDef.keysAt, List.filterMap_append,
      ← List.append_assoc]
    exact adds.methods.append (List.Perm.subperm (.of_eq key.symm))
  renames := by
    change plan.renames ++ [(index, name)] ++ [] = additions.renames ++ [(index, name)]
    rw [List.append_nil, adds.renames]
  removed := by
    change plan.removedFields ++ [] ++ [] = additions.removed
    rw [List.append_nil, List.append_nil, adds.removed]
  initializer edit member other there initializes := by
    change (plan.methods ++ [] ++ [replacement]).any _ = true
    rw [List.append_nil, List.any_append, Bool.or_eq_true]
    change edit ∈ plan.renames ++ [(index, name)] ++ [] at member
    rw [List.append_nil] at member
    rcases List.mem_append.mp member with old | new
    · exact .inl (adds.initializer edit old other there initializes)
    · cases List.mem_singleton.mp new
      cases found.symm.trans there
      exact .inr (List.any_eq_true.mpr
        ⟨replacement, List.mem_singleton_self replacement, still initializes⟩)

end TypePlan

namespace Emit

/-- Results of one step for many items are related to the items if that of each item is. -/
theorem Yields.forall₂ {α β : Type} {items : List α} {step : α → Emit β} {related : α → β → Prop}
    (each : ∀ item ∈ items, (step item).Yields (related item)) :
    (items.mapM step).Yields (List.Forall₂ related items) := by
  induction items with
  | nil =>
    rw [List.mapM_nil]
    exact .pure .nil
  | cons item more ih =>
    rw [List.forall_mem_cons] at each
    rw [List.mapM_cons]
    exact .bind each.1 fun first holds => .bind (ih each.2) fun others hold =>
      .pure (.cons holds hold)

end Emit

open TypePlan Emit

variable {config : Config} {type : TypeDef}

/-! ## Slots -/

/-- The names of the static fields that values of a category need. -/
def Category.slotNames (category : Category) (base : String) : List String :=
  [Naming.offsetSlot base]
    ++ (if category.needsHandle then [Naming.handleSlot base] else [])
    ++ (if category.needsElementSize then [Naming.elementSizeSlot base] else [])
    ++ (if category.needsWidth then [Naming.widthSlot base] else [])

theorem yieldsAdds_staticSlot (type : TypeDef) {owner kind : Signature} {name : String} :
    (staticSlot owner name kind).Yields fun slot => slot.plan.Adds type { fields := [name] } := by
  unfold staticSlot
  exact .after fun token => .pure ⟨rfl, List.nil_subperm, rfl, rfl, List.forall_mem_nil _⟩

theorem yieldsAdds_optionalSlot (type : TypeDef) {wanted : Bool} {owner kind : Signature}
    {name : String} :
    (optionalSlot wanted owner name kind).Yields fun slot =>
      slot.plan.Adds type { fields := if wanted then [name] else [] } := by
  unfold optionalSlot
  split
  · exact .bind (yieldsAdds_staticSlot type) fun slot adds => .pure adds
  · exact .pure (adds_of_nil rfl rfl rfl rfl)

theorem yieldsAdds_memberSlots (type : TypeDef) {owner : Signature} {base : String}
    {category : Category} :
    (memberSlots owner base category).Yields fun slots =>
      slots.plan.Adds type { fields := category.slotNames base } := by
  unfold memberSlots
  refine .bind (yieldsAdds_staticSlot type) fun offset first => ?_
  refine .bind (yieldsAdds_optionalSlot type) fun handle second => ?_
  refine .bind (yieldsAdds_optionalSlot type) fun elementSize third => ?_
  refine .bind (yieldsAdds_optionalSlot type) fun width fourth => ?_
  exact .pure (((first.append second).append third).append fourth)

/-! ## Structs -/

namespace StructBinding

/-- The names that marshalling adds to a struct. -/
def marshalAdditions (binding : StructBinding) : Additions where
  fields := [Naming.nativeClassPtr, Naming.nativeDataSize]
    ++ binding.members.flatMap fun member => member.category.slotNames member.name
  methods := [(Method.constructorName, [.intPtr]), (Naming.toNative, [.intPtr])]

/-- The names that editing adds to a struct. -/
def additions (config : Config) (binding : StructBinding) : Additions :=
  if binding.blittable then {}
  else if config.isCoreStruct binding.name then {}
  else binding.marshalAdditions

theorem yieldsAdds_fieldCode (classPtr : UInt32) (member : MemberBinding) :
    (fieldCode config type classPtr member).Yields fun code =>
      code.plan.Adds type { fields := member.category.slotNames member.name } := by
  unfold fieldCode
  refine .after fun field => .bind (yieldsAdds_memberSlots type) fun slots adds => ?_
  refine .after fun fill => .after fun token => .after fun value => ?_
  dsimp only
  split
  · exact .after fun write => .pure (adds.prelude fill)
  · exact .after fun write => .pure (adds.prelude fill)

theorem yieldsAdds_marshalPlan (binding : StructBinding) :
    (binding.marshalPlan config type).Yields fun plan =>
      plan.Adds type binding.marshalAdditions := by
  unfold marshalPlan
  refine .bind (yieldsAdds_staticSlot type) fun classPtr first => ?_
  refine .bind (yieldsAdds_staticSlot type) fun size second => ?_
  refine .after fun findType => .after fun findSize => ?_
  refine .bind (.forall₂ fun member _ => yieldsAdds_fieldCode classPtr.value member)
    fun fields each => .pure ?_
  have slots := adds_concat_map FieldCode.plan each
  rw [Additions.concat_fields] at slots
  have edits := ((first.addFields second).prelude (findType ++ findSize)).addFields slots
  exact ((edits.addMethod _).addMethod _).touches _

/-- A struct gets what marshalling adds, if it gets anything. -/
theorem yieldsAdds_plan? (binding : StructBinding) :
    (binding.plan? config type).Yields fun plan? =>
      ∀ plan ∈ plan?, plan.Adds type (binding.additions config) := by
  unfold plan? additions
  split
  · refine .pure fun plan member => ?_
    cases member
    exact adds_of_nil rfl rfl rfl rfl
  · split
    · exact .pure nofun
    · refine .bind (yieldsAdds_marshalPlan binding) fun plan adds => .pure fun other member => ?_
      cases member
      exact adds

end StructBinding

/-! ## Properties -/

/-- The names that the accessors of a property add: its slots, a field for its wrapper, and a setter
if it has none.  Its hidden field goes away. -/
def MemberBinding.accessorAdditions (config : Config) (type : TypeDef) (member : MemberBinding)
    (property : Property) : Additions where
  fields := member.category.slotNames member.name
    ++ if (config.wrapperType? member.category).isSome then [Naming.wrapperField member.name] else []
  methods := if property.setter.isNone && !member.category.suppressesSetter then
      [(Naming.setter member.name, [member.valueType])] else []
  removed := if (type.findField? (Naming.backingField member.name)).isSome then
      [Naming.backingField member.name] else []

/-- The names that a member of a class adds.  Only properties add any. -/
def MemberBinding.additions (config : Config) (type : TypeDef) (member : MemberBinding) :
    Additions :=
  match member.origin with
  | .property index => (type.properties[index]?.map (member.accessorAdditions config type)).getD {}
  | _ => {}

namespace ClassSite

variable {site : ClassSite}

theorem yieldsAdds_wrapperSlot (type : TypeDef) {property : String} {category : Category} :
    (site.wrapperSlot property category).Yields fun slot => slot.plan.Adds type
      { fields := if (site.config.wrapperType? category).isSome then
          [Naming.wrapperField property] else [] } := by
  unfold wrapperSlot
  split
  · next none =>
    rw [none]
    exact .pure (adds_of_nil rfl rfl rfl rfl)
  · next some =>
    rw [some]
    exact .after fun token => .pure ⟨rfl, List.nil_subperm, rfl, rfl, List.forall_mem_nil _⟩

theorem yieldsAdds_planGetter (type : TypeDef) {member : MemberBinding} {index : Nat}
    {slots : MemberSlots} {address : NativeAddress} :
    (site.planGetter member index slots address).Yields fun reading =>
      reading.plan.Adds type {} := by
  unfold planGetter
  exact .after fun getter => .after fun live => .after fun load => .after fun token =>
    .pure (adds_replaceBody _ _ _)

theorem yieldsAdds_planSetterBody (type : TypeDef) {member : MemberBinding} {property : Property}
    {slots : MemberSlots} {address : NativeAddress} {tokens : List UInt32} :
    (site.planSetterBody member property slots address tokens).Yields fun body =>
      body.plan.Adds type { methods := if property.setter.isNone then
        [(Naming.setter member.name, [member.valueType])] else [] } := by
  unfold planSetterBody
  refine .after fun code => ?_
  split
  · next declared =>
    rw [declared]
    exact .after fun setter => .pure (adds_replaceBody _ _ _)
  · next missing =>
    rw [missing]
    refine .after fun isStored => ?_
    split
    · exact .pure (adds_addMethod _)
    · exact .pure ⟨rfl, List.nil_subperm, rfl, rfl, List.forall_mem_nil _⟩

theorem yieldsAdds_planSetter (type : TypeDef) {member : MemberBinding} {property : Property}
    {slots : MemberSlots} {address : NativeAddress} {tokens : List UInt32} :
    (site.planSetter member property slots address tokens).Yields fun setter =>
      setter.plan.Adds type { methods := if property.setter.isNone then
        [(Naming.setter member.name, [member.valueType])] else [] } := by
  unfold planSetter
  refine .bind (yieldsAdds_planSetterBody type) fun body adds => ?_
  split
  · exact .pure adds
  · exact .after fun token => .pure adds

theorem adds_of_planRemoval (type : TypeDef) {member : MemberBinding} {property : Property}
    {result : TypePlan × List Diagnostic} (planned : site.planRemoval member property = .ok result) :
    result.1.Adds type {} := by
  unfold planRemoval at planned
  split at planned
  · cases planned
    exact adds_of_nil rfl rfl rfl rfl
  · rcases bind_eq_ok_iff.mp planned with ⟨setter, _, planned⟩
    rcases bind_eq_ok_iff.mp planned with ⟨diagnostics, _, final⟩
    cases final
    exact adds_of_nil rfl rfl rfl rfl

theorem yieldsAdds_planAccessors {member : MemberBinding} {property : Property} {getter : Nat} :
    (site.planAccessors member property getter).Yields fun planned =>
      planned.plan.Adds site.type (member.accessorAdditions site.config site.type property) := by
  unfold planAccessors
  refine .bind (yieldsAdds_memberSlots site.type) fun slots first => ?_
  refine .bind (yieldsAdds_wrapperSlot site.type) fun wrapper second => ?_
  refine .after fun fill => .after fun base => ?_
  refine .bind (yieldsAdds_planGetter site.type) fun reading third => ?_
  have start := ((first.addFields second).prelude fill).append_nothing third
  have emptied : ∀ hidden, (if (site.type.findField? hidden).isSome then
      ({ removedFields := [hidden] } : TypePlan) else {}).Adds site.type
        { removed := if (site.type.findField? hidden).isSome then [hidden] else [] } := by
    intro hidden
    split
    · exact ⟨rfl, List.nil_subperm, rfl, rfl, List.forall_mem_nil _⟩
    · exact adds_of_nil rfl rfl rfl rfl
  have nothing : ({} : TypePlan).Adds site.type {} := adds_of_nil rfl rfl rfl rfl
  dsimp only [MemberBinding.accessorAdditions]
  split
  · next suppressed =>
    refine .bind (.lift (adds_of_planRemoval site.type)) fun removal fourth => ?_
    rw [pure_bind]
    have whole := ((start.append_nothing nothing).append_nothing fourth).append
      (emptied (Naming.backingField member.name))
    refine .pure ?_
    simpa only [Additions.mk_append_mk, List.append_nil, List.nil_append, suppressed, Bool.not_true,
      Bool.and_false, Bool.false_eq_true, if_false] using whole
  · next settable =>
    refine .bind (yieldsAdds_planSetter site.type) fun setter fourth => ?_
    rw [pure_bind]
    have whole := ((start.append fourth).append_nothing nothing).append
      (emptied (Naming.backingField member.name))
    refine .pure ?_
    simpa only [Additions.mk_append_mk, List.append_nil, List.nil_append,
      Bool.not_eq_true _ ▸ settable, Bool.not_false, Bool.and_true] using whole

/-- The plan of a member adds the names of its accessors. -/
theorem yieldsAdds_planProperty (member : MemberBinding) :
    (site.planProperty member).Yields fun planned =>
      planned.plan.Adds site.type (member.additions site.config site.type) := by
  unfold planProperty MemberBinding.additions
  cases member.origin with
  | property index =>
    dsimp only
    refine .bind (.lift Weave.ofOption_eq_ok) fun property found => .after fun getter => ?_
    rw [found]
    exact yieldsAdds_planAccessors
  | _ => exact .pure (adds_of_nil rfl rfl rfl rfl)

/-! ## Constructors and other methods -/

theorem adds_foldl_addPlan {type : TypeDef} {parts : List (TypePlan × List Diagnostic)}
    {start : TypePlan × List Diagnostic} (first : start.1.Adds type {})
    (each : ∀ part ∈ parts, part.1.Adds type {}) : (parts.foldl addPlan start).1.Adds type {} := by
  induction parts generalizing start with
  | nil => exact first
  | cons part more ih =>
    rw [List.forall_mem_cons] at each
    exact ih (first.append_nothing each.1) each.2

theorem yieldsAdds_planConstruction (type : TypeDef) {backing : Backing}
    {effects : List ConstructionEffect} {method : Method} {index : Nat} {locals : List Signature}
    {code : Code} {baseCall : Nat} :
    (site.planConstruction backing effects method index locals code baseCall).Yields
      fun planned => planned.1.Adds type {} := by
  unfold planConstruction
  refine .after fun relocation => ?_
  dsimp only
  split
  · exact .pure (adds_of_nil rfl rfl rfl rfl)
  · split
    · exact .bind .throw fun _ (impossible : False) => impossible.elim
    · refine .after fun emitted => ?_
      split
      · exact .throw
      · exact .pure (adds_replaceBody _ _ _)

theorem yieldsAdds_planConstructor (type : TypeDef) {backing : Backing}
    {effects : List ConstructionEffect} {index : Nat} {method : Method} :
    (site.planConstructor backing effects index method).Yields
      fun planned => planned.1.Adds type {} := by
  unfold planConstructor
  split
  · exact .pure (adds_of_nil rfl rfl rfl rfl)
  · refine .after fun code => ?_
    dsimp only
    split
    · exact .pure (adds_of_nil rfl rfl rfl rfl)
    · split
      · exact .pure (adds_of_nil rfl rfl rfl rfl)
      · exact yieldsAdds_planConstruction type

theorem yieldsAdds_planConstructors (type : TypeDef) {backing : Backing}
    {effects : List ConstructionEffect} :
    (site.planConstructors backing effects).Yields fun planned => planned.1.Adds type {} := by
  unfold planConstructors
  refine .bind (.mapM fun constructor _ => yieldsAdds_planConstructor type) fun parts each => ?_
  exact .pure (adds_foldl_addPlan (adds_of_nil rfl rfl rfl rfl) each)

end ClassSite

namespace Backing

theorem adds_of_methodPlan {backing : Backing} {method : Method} {index : Nat}
    {result : TypePlan × List Diagnostic}
    (planned : backing.methodPlan type method index = .ok result) : result.1.Adds type {} := by
  unfold methodPlan at planned
  split at planned
  · cases planned
    exact adds_of_nil rfl rfl rfl rfl
  · rcases bind_eq_ok_iff.mp planned with ⟨code, _, final⟩
    cases final
    dsimp only
    split
    · exact adds_of_nil rfl rfl rfl rfl
    · exact adds_replaceBody _ _ _

/-- Redirecting code adds no names. -/
theorem adds_of_methodPlans {backing : Backing} {plan : TypePlan}
    {result : TypePlan × List Diagnostic} (planned : backing.methodPlans type plan = .ok result) :
    result.1.Adds type {} := by
  unfold methodPlans at planned
  split at planned
  · cases planned
    exact adds_of_nil rfl rfl rfl rfl
  · rcases bind_eq_ok_iff.mp planned with ⟨parts, run, final⟩
    cases final
    refine adds_concat_nothing (List.forall_mem_map.mpr fun part member => ?_)
    rcases exists_of_mem_mapM run member with ⟨⟨method, index⟩, _, step⟩
    exact adds_of_methodPlan step

end Backing

/-! ## Functions and classes -/

/-- The names that an exposed function adds.  The method that it is made from gets a new name and is
replaced under the old one. -/
def FunctionBinding.additions (function : FunctionBinding) : Additions where
  fields := [Naming.functionSlot function.name, Naming.parametersSizeSlot function.name]
    ++ function.values.flatMap fun value =>
      value.category.slotNames (Naming.parameterSlots function.name value.name)
  methods := [(Naming.invoker function.name, [.intPtr, .intPtr])]
  renames := [(function.method, Naming.implementation function.name)]

/-- The names that editing adds to a class. -/
def ClassBinding.additions (config : Config) (type : TypeDef) (binding : ClassBinding) :
    Additions :=
  { fields := [Naming.nativeClassPtr] }
    ++ (Additions.concat (binding.members.map (·.additions config type))
      ++ Additions.concat (binding.functions.map (·.additions)))

namespace ClassSite

variable {site : ClassSite}

theorem yieldsAdds_planValue (type : TypeDef) {function : FunctionBinding} {handle : UInt32}
    {hasThis : Bool} {value : MemberBinding} :
    (site.planValue function handle hasThis value).Yields fun planned => planned.plan.Adds type
      { fields := value.category.slotNames (Naming.parameterSlots function.name value.name) } := by
  unfold planValue
  refine .bind (yieldsAdds_memberSlots type) fun slots adds => .after fun fill => ?_
  dsimp only
  split
  · exact .after fun argument => .pure (adds.prelude fill)
  · exact .after fun argument => .pure (adds.prelude fill)

theorem isStatic_caller (call : FunctionSite) (body : Body) :
    (call.caller body).isStatic = call.method.isStatic := by
  have kept : ~~~(Method.virtualFlag ||| Method.abstractFlag) &&& Method.staticFlag =
      Method.staticFlag := by decide
  simp only [Method.isStatic, hasFlag, FunctionSite.caller, UInt32.and_assoc, kept]

/-- The method that stands in for an initializer is one. -/
theorem isTypeInitializer_caller (call : FunctionSite) (body : Body) :
    (call.caller body).isTypeInitializer = call.method.isTypeInitializer := by
  rw [Method.isTypeInitializer, isStatic_caller]
  rfl

/-- The two methods that a function adds are its invoker and one under the name of the method that
it is made from. -/
theorem yieldsAdds_planFunction (earlier : TypePlan) (function : FunctionBinding) :
    (site.planFunction earlier function).Yields fun plan =>
      plan.Adds site.type function.additions := by
  unfold planFunction
  refine .bind (.lift Weave.ofOption_eq_ok) fun method found => ?_
  refine .bind (yieldsAdds_staticSlot site.type) fun handle first => ?_
  refine .bind (yieldsAdds_staticSlot site.type) fun size second => ?_
  refine .after fun findHandle => .after fun findSize => ?_
  refine .bind (.forall₂ fun value _ => yieldsAdds_planValue site.type) fun values each => ?_
  refine .after fun callerBody => .after fun invokerBody => .pure ?_
  have slots := adds_concat_map Planned.plan each
  rw [Additions.concat_fields] at slots
  have edits := ((first.addFields second).prelude (findHandle ++ findSize)).addFields slots
  have still := isTypeInitializer_caller
    ⟨site, function, method, handle.value, size.value, values.map (·.value)⟩ callerBody
  refine (edits.standIn (FunctionSite.caller _ callerBody) found ?_ still.trans).addMethod _
  rfl

theorem yieldsAdds_planMembers :
    site.planMembers.Yields fun planned => planned.1.Adds site.type
      (Additions.concat (site.binding.members.map (·.additions site.config site.type))
        ++ Additions.concat (site.binding.functions.map (·.additions))) := by
  unfold planMembers
  refine .after fun findType => ?_
  refine .bind (.forall₂ fun member _ => yieldsAdds_planProperty member) fun properties each => ?_
  dsimp only
  refine .bind (yieldsAdds_planConstructors site.type) fun constructed second => ?_
  refine .bind (.lift Backing.adds_of_methodPlans) fun redirected third => ?_
  have findings : ({ prelude := findType } : TypePlan).Adds site.type {} :=
    adds_of_nil rfl rfl rfl rfl
  have earlier := ((findings.append (adds_concat_map PropertyPlan.plan each)).append_nothing second).append_nothing
    third
  refine .bind (.forall₂ fun function _ => yieldsAdds_planFunction _ function)
    fun functions fourth => .pure ?_
  have made := adds_concat_map id fourth
  rw [List.map_id] at made
  exact earlier.append (made.touches _)

end ClassSite

/-- A class gets a slot for its handle and what its members and functions add. -/
theorem yieldsAdds_classPlan (source : Module) (binding : ClassBinding) :
    (binding.plan config source type).Yields fun planned =>
      planned.1.Adds type (binding.additions config type) := by
  unfold ClassBinding.plan
  refine .bind (yieldsAdds_staticSlot type) fun classPtr first => ?_
  exact .bind ClassSite.yieldsAdds_planMembers fun members second => .pure (first.append second)

/-! ## New names -/

/-- Properties get no new names. -/
theorem MemberBinding.additions_renames_nil (config : Config) (type : TypeDef)
    (member : MemberBinding) :
    (member.additions config type).renames = [] := by
  unfold additions
  split
  · next index _ => cases type.properties[index]? <;> rfl
  · rfl

/-- The code of each exposed function gets a name of its own. -/
theorem ClassBinding.additions_renames (config : Config) (type : TypeDef) (binding : ClassBinding) :
    (binding.additions config type).renames = binding.functions.map fun function =>
      (function.method, Naming.implementation function.name) := by
  have members :
      (Additions.concat (binding.members.map (·.additions config type))).renames = [] := by
    rw [Additions.concat_map Additions.renames rfl fun _ _ => rfl]
    exact List.flatMap_eq_nil_iff.mpr fun member _ => member.additions_renames_nil config type
  have functions : (Additions.concat (binding.functions.map (·.additions))).renames =
      binding.functions.map fun function =>
        (function.method, Naming.implementation function.name) := by
    rw [Additions.concat_map Additions.renames rfl fun _ _ => rfl, List.map_eq_flatMap]
    rfl
  change [] ++ (Additions.renames _ ++ Additions.renames _) = _
  rw [List.nil_append, members, functions, List.nil_append]

/-- Only hidden fields of exposed properties are removed. -/
theorem ClassBinding.exists_of_mem_removed {binding : ClassBinding} {name : String}
    (removed : name ∈ (binding.additions config type).removed) :
    ∃ member ∈ binding.members, ∃ property, type.Exposes member property ∧
      name = Naming.backingField member.name := by
  change name ∈ [] ++ (Additions.removed _ ++ Additions.removed _) at removed
  rw [List.nil_append, Additions.concat_map Additions.removed rfl fun _ _ => rfl,
    Additions.concat_map Additions.removed rfl fun _ _ => rfl] at removed
  rcases List.mem_append.mp removed with ofMember | ofFunction
  · rcases List.mem_flatMap.mp ofMember with ⟨member, listed, removed⟩
    unfold MemberBinding.additions at removed
    split at removed
    · next index origin =>
      cases declared : type.properties[index]? with
      | none =>
        rw [declared] at removed
        cases removed
      | some property =>
        rw [declared] at removed
        change name ∈ if _ then _ else [] at removed
        split at removed
        · exact ⟨member, listed, property, ⟨index, origin, declared⟩,
            List.mem_singleton.mp removed⟩
        · cases removed
    · cases removed
  · rcases List.mem_flatMap.mp ofFunction with ⟨_, _, removed⟩
    cases removed

end NativeWeave
