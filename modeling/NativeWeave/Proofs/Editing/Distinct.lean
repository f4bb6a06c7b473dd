import NativeWeave.Proofs.Editing.Edited
import NativeWeave.Proofs.Editing.Renaming
import NativeWeave.Proofs.Editing.SlotNames

namespace NativeWeave

/-!
# Members of woven types are told apart

Extraction only asks whether one of four names that an exposed function needs is taken.  What else
editing adds may clash: slots with one another, if the functions or values that they belong to have
the same name, and with fields of the type; hidden setters with its methods.  If the names of a
declaration leave room for all of these, the members of the woven type are told apart again.
-/

/-- No two fields have the same name, and no two methods the same name and parameters. -/
structure TypeDef.Distinct (type : TypeDef) : Prop where
  fields : type.fieldNames.Nodup
  methods : type.methodKeys.Nodup

/-! ## Names of generated methods -/

namespace Naming

theorem setter_inj {property other : String} (same : setter property = setter other) :
    property = other := by
  have parts := congrArg String.toList same
  rw [setter, setter, String.toList_append, String.toList_append] at parts
  exact String.toList_inj.mp (List.append_cancel_left parts)

theorem invoker_inj {function other : String} (same : invoker function = invoker other) :
    function = other := by
  have parts := congrArg String.toList same
  rw [invoker, invoker, String.toList_append, String.toList_append] at parts
  exact String.toList_inj.mp (List.append_cancel_left parts)

theorem implementation_inj {function other : String}
    (same : implementation function = implementation other) : function = other := by
  have parts := congrArg String.toList same
  rw [implementation, implementation, String.toList_append, String.toList_append] at parts
  exact String.toList_inj.mp (List.append_cancel_right parts)

theorem head?_setter (property : String) : (setter property).toList.head? = some 's' := by
  rw [setter, String.toList_append]
  rfl

theorem head?_invoker (function : String) : (invoker function).toList.head? = some 'I' := by
  rw [invoker, String.toList_append]
  rfl

theorem setter_ne_invoker (property function : String) : setter property ≠ invoker function := by
  intro same
  have heads := head?_setter property
  rw [same, head?_invoker] at heads
  exact absurd heads (by decide)

theorem setter_ne_initializer (property : String) : setter property ≠ Method.initializerName := by
  intro same
  have heads := head?_setter property
  rw [same] at heads
  exact absurd heads (by decide)

theorem invoker_ne_initializer (function : String) :
    invoker function ≠ Method.initializerName := by
  intro same
  have heads := head?_invoker function
  rw [same] at heads
  exact absurd heads (by decide)

theorem implementation_ne_initializer (function : String) :
    implementation function ≠ Method.initializerName := by
  intro same
  have ends : "_Implementation".toList <:+ (implementation function).toList := by
    rw [implementation, String.toList_append]
    exact List.suffix_append _ _
  rw [same] at ends
  exact absurd ends (by decide)

end Naming

theorem Naming.functionSlot_ne_backingField (function property : String) :
    functionSlot function ≠ backingField property := by
  intro same
  have lasts := congrArg (fun name => name.toList.getLast?) same
  simp only [functionSlot, backingField, String.toList_append, List.getLast?_append] at lasts
  change some 'n' = some 'd' at lasts
  exact absurd lasts (by decide)

/-- What the check of the names for a function finds out. -/
theorem Scope.not_mem_of_generatedConflict? {type : TypeDef} {function : String}
    (free : generatedConflict? type function = none) :
    (∀ method ∈ type.methods, method.name ≠ Naming.implementation function ∧
      method.name ≠ Naming.invoker function) ∧
    ∀ name ∈ type.fieldNames, name ≠ Naming.functionSlot function ∧
      name ≠ Naming.parametersSizeSlot function := by
  rcases Option.or_eq_none_iff.mp free with ⟨methods, fields⟩
  rw [List.find?_eq_none] at methods fields
  constructor
  · intro method member
    have found : (type.findMethod? method.name).isSome = true := by
      rw [TypeDef.findMethod?, List.findIdx?_isSome]
      exact List.any_eq_true.mpr ⟨method, member, beq_self_eq_true _⟩
    constructor
    · intro same
      exact methods _ List.mem_cons_self (same ▸ found)
    · intro same
      exact methods _ (List.mem_cons_of_mem _ List.mem_cons_self) (same ▸ found)
  · intro name member
    rcases List.mem_map.mp member with ⟨field, declared, rfl⟩
    have found : (type.findField? field.name).isSome = true := by
      rw [TypeDef.findField?, List.findIdx?_isSome]
      exact List.any_eq_true.mpr ⟨field, declared, beq_self_eq_true _⟩
    constructor
    · intro same
      exact fields _ List.mem_cons_self (same ▸ found)
    · intro same
      exact fields _ (List.mem_cons_of_mem _ List.mem_cons_self) (same ▸ found)

/-! ## Room for generated members -/

namespace ClassBinding

/-- The setters that properties without one are given. -/
def hiddenSetters (config : Config) (type : TypeDef) (binding : ClassBinding) :
    List (String × List Signature) :=
  binding.members.flatMap fun member => (member.additions config type).methods

/-- What the slots for the values of functions are named after. -/
def valueNames (binding : ClassBinding) : List String :=
  binding.functions.flatMap fun function => function.carriers.map (·.1)

/-- The names in a class leave room for what editing adds. -/
structure LeavesRoom (binding : ClassBinding) (config : Config) (type : TypeDef) : Prop where
  functions : (binding.functions.map (·.name)).Nodup
  values : binding.valueNames.Nodup
  /-- The slots of a value are not those of a property. -/
  apart : ∀ name ∈ binding.valueNames, name ∉ binding.members.map (·.name)
  fields : ∀ name ∈ type.fieldNames, name ≠ Naming.nativeClassPtr ∧
    name ∉ Carrier.names (binding.carriers config)
  setters : ∀ key ∈ binding.hiddenSetters config type, key ∉ type.methodKeys
  /-- The new name of a function is none that another one needs. -/
  implementations : ∀ function ∈ binding.functions,
    (∀ other ∈ binding.functions,
      Naming.implementation function.name ≠ Naming.invoker other.name) ∧
    ∀ key ∈ binding.hiddenSetters config type, Naming.implementation function.name ≠ key.1

end ClassBinding

/-- Constructors and initializers are what they are called. -/
structure TypeDef.Conventional (type : TypeDef) : Prop where
  constructors : ∀ method ∈ type.methods, method.name = Method.constructorName →
    method.isStatic = false
  initializer : ∀ method ∈ type.methods, method.key = Method.initializerKey →
    method.isStatic = true

/-- The names in a type leave room for what editing adds to it. -/
def TypeBinding.LeavesRoom (config : Config) (type : TypeDef) : TypeBinding → Prop
  | .ofClass binding => binding.LeavesRoom config type
  | .ofStruct binding => ∀ name ∈ type.fieldNames, name ∉ (binding.additions config).fields
  | .ofEnum _ => True

/-! ## Distinct members -/

open List in
theorem nodup_of_subperm {α : Type} {items others : List α} (within : items <+~ others)
    (distinct : others.Nodup) : items.Nodup := by
  rcases within with ⟨reordered, same, sublist⟩
  exact same.nodup_iff.mp (distinct.sublist sublist)

/-- What an edit adds differs from one another and from what there is: then the members of the edited
type are told apart. -/
theorem TypePlan.Adds.distinct {plan : TypePlan} {type now : TypeDef} {additions : Additions}
    (adds : plan.Adds type additions) (applied : plan.apply type = .ok now)
    (indices : (additions.renames.map (·.1)).Nodup)
    (fields : (type.fieldNames ++ additions.fields).Nodup)
    (methods : (type.methodKeys ++ additions.methods ++ type.renamedKeys additions.renames
      ++ type.newInitializerKeys).Nodup) :
    now.Distinct := by
  have names := adds.fieldNames_of_apply applied
  exact ⟨names ▸ fields.filter _,
    nodup_of_subperm (adds.methodKeys_of_apply indices applied) methods⟩

/-- A new initializer is not among the methods of the type. -/
theorem TypeDef.not_mem_of_newInitializerKeys {type : TypeDef} {key : String × List Signature}
    (conventional : type.Conventional) (member : key ∈ type.newInitializerKeys) :
    key = Method.initializerKey ∧ key ∉ type.methodKeys := by
  unfold newInitializerKeys at member
  split at member
  · cases member
  · next missing =>
    cases List.mem_singleton.mp member
    refine ⟨rfl, fun present => missing ?_⟩
    rcases List.mem_map.mp present with ⟨method, declared, same⟩
    refine List.any_eq_true.mpr ⟨method, declared, ?_⟩
    have named : method.name = Method.initializerName := congrArg Prod.fst same
    rw [Method.isTypeInitializer, named, conventional.initializer method declared same]
    rfl

theorem TypeDef.nodup_newInitializerKeys (type : TypeDef) : type.newInitializerKeys.Nodup := by
  unfold newInitializerKeys
  split
  · exact List.nodup_nil
  · exact List.nodup_singleton _

namespace StructBinding

variable {binding : StructBinding} {config : Config} {type : TypeDef}

/-- The slots of a struct are told apart. -/
theorem nodup_additions_fields (distinct : type.Distinct)
    (checked : TypeBinding.Checked type (.ofStruct binding)) :
    (binding.additions config).fields.Nodup := by
  have bases : (binding.carriers.map (·.1)).Nodup := by
    rw [carriers, List.map_map]
    exact distinct.fields.sublist checked.1
  have kinds : ∀ carrier ∈ binding.carriers, carrier.2.Nodup :=
    List.forall_mem_map.mpr fun member _ => member.category.nodup_slotKinds
  have slots := Carrier.nodup_names bases kinds
  have marshal : binding.marshalAdditions.fields.Nodup := by
    rw [marshalAdditions_fields]
    refine List.nodup_append.mpr ⟨by decide, slots, ?_⟩
    intro name whole other slot same
    subst same
    rcases Carrier.mem_names slot with ⟨carrier, _, kind, _, rfl⟩
    rcases kind.name_ne_of_whole carrier.1 with ⟨first, second⟩
    rcases List.mem_cons.mp whole with one | other
    · exact first one
    · exact second (List.mem_singleton.mp other)
  unfold additions
  split
  · exact List.nodup_nil
  · split
    · exact List.nodup_nil
    · exact marshal

/-- No method of a struct gets a new name. -/
theorem additions_renames_nil (binding : StructBinding) (config : Config) :
    (binding.additions config).renames = [] := by
  unfold additions
  split
  · rfl
  · split <;> rfl

/-- Of the methods that marshalling needs none is there. -/
theorem not_mem_of_additions (conventional : type.Conventional)
    (checked : TypeBinding.Checked type (.ofStruct binding)) {key : String × List Signature}
    (member : key ∈ (binding.additions config).methods) :
    key ∉ type.methodKeys ∧ key ≠ Method.initializerKey := by
  unfold additions at member
  split at member
  · cases member
  · next generic =>
    have unmarshalled := checked.2 (Bool.not_eq_true _ ▸ generic)
    split at member
    · cases member
    · rcases List.mem_cons.mp member with rfl | other
      · refine ⟨fun present => ?_, by decide⟩
        rcases List.mem_map.mp present with ⟨method, declared, same⟩
        rcases Prod.mk.injEq .. ▸ same with ⟨named, typed⟩
        have marshals := unmarshalled method declared
        have unbound := conventional.constructors method declared named
        simp [Scope.isMarshalMember, Method.isConstructor, named, typed, unbound] at marshals
      · cases List.mem_singleton.mp other
        refine ⟨fun present => ?_, by decide⟩
        rcases List.mem_map.mp present with ⟨method, declared, same⟩
        have named : method.name = Naming.toNative := congrArg Prod.fst same
        have marshals := unmarshalled method declared
        simp [Scope.isMarshalMember, named] at marshals

theorem nodup_methods (distinct : type.Distinct) (conventional : type.Conventional)
    (checked : TypeBinding.Checked type (.ofStruct binding)) :
    (type.methodKeys ++ (binding.additions config).methods ++ type.newInitializerKeys).Nodup := by
  have added : (binding.additions config).methods.Nodup := by
    unfold additions
    split
    · exact List.nodup_nil
    · split
      · exact List.nodup_nil
      · change [(Method.constructorName, [Signature.intPtr]),
          (Naming.toNative, [Signature.intPtr])].Nodup
        decide
  refine List.nodup_append.mpr ⟨List.nodup_append.mpr ⟨distinct.methods, added, ?_⟩,
    type.nodup_newInitializerKeys, ?_⟩
  · rintro key present _ member rfl
    exact (not_mem_of_additions conventional checked member).1 present
  · rintro key present _ member rfl
    rcases TypeDef.not_mem_of_newInitializerKeys conventional member with ⟨rfl, missing⟩
    rcases List.mem_append.mp present with old | new
    · exact missing old
    · exact (not_mem_of_additions conventional checked new).2 rfl

end StructBinding

namespace ClassBinding

variable {binding : ClassBinding} {config : Config} {type : TypeDef}

/-- Properties and values of functions are told apart. -/
theorem nodup_carriers (properties : (type.properties.map (·.name)).Nodup)
    (checked : TypeBinding.Checked type (.ofClass binding)) (room : binding.LeavesRoom config type) :
    ((binding.carriers config).map (·.1)).Nodup := by
  have bases : (binding.carriers config).map (·.1) =
      binding.members.map (·.name) ++ binding.valueNames := by
    rw [carriers, List.map_append, List.map_map, List.map_flatMap]
    rfl
  rw [bases]
  refine List.nodup_append.mpr ⟨properties.sublist checked.1, room.values, ?_⟩
  rintro name member _ value rfl
  exact room.apart name value member

theorem kinds_of_mem_carriers {carrier : Carrier} (member : carrier ∈ binding.carriers config) :
    carrier.2.Nodup ∧ ∀ kind ∈ carrier.2, kind ∉ SlotKind.ofFunction := by
  rcases List.mem_append.mp member with property | value
  · rcases List.mem_map.mp property with ⟨exposed, _, rfl⟩
    exact ⟨exposed.nodup_slotKinds config, exposed.not_mem_ofFunction config⟩
  · rcases List.mem_flatMap.mp value with ⟨function, _, value⟩
    rcases List.mem_map.mp value with ⟨passed, _, rfl⟩
    exact ⟨passed.category.nodup_slotKinds, passed.category.not_mem_ofFunction⟩

/-- The slots of a class are told apart. -/
theorem nodup_slots (properties : (type.properties.map (·.name)).Nodup)
    (checked : TypeBinding.Checked type (.ofClass binding)) (room : binding.LeavesRoom config type) :
    (Naming.nativeClassPtr :: (Carrier.names (binding.carriers config)
      ++ Carrier.names binding.functionCarriers)).Nodup := by
  have values := Carrier.nodup_names (nodup_carriers properties checked room)
    fun carrier member => (kinds_of_mem_carriers member).1
  have functions : (Carrier.names binding.functionCarriers).Nodup := by
    refine Carrier.nodup_names ?_ (List.forall_mem_map.mpr fun function _ => ?_)
    · rw [functionCarriers, List.map_map]
      exact room.functions
    · change SlotKind.ofFunction.Nodup
      decide
  have slots : ∀ name ∈ Carrier.names (binding.carriers config)
      ++ Carrier.names binding.functionCarriers, Naming.nativeClassPtr ≠ name := by
    rintro _ member rfl
    rw [← Carrier.names_append] at member
    rcases Carrier.mem_names member with ⟨carrier, _, kind, _, same⟩
    exact (kind.name_ne_of_whole carrier.1).1 same.symm
  refine List.nodup_cons.mpr ⟨fun member => slots _ member rfl,
    List.nodup_append.mpr ⟨values, functions, ?_⟩⟩
  rintro name value _ own rfl
  rcases Carrier.mem_names value with ⟨carrier, inside, kind, needed, rfl⟩
  rcases Carrier.mem_names own with ⟨other, among, second, held, same⟩
  rcases List.mem_map.mp among with ⟨function, _, rfl⟩
  rcases SlotKind.name_inj.mp same with ⟨rfl, _⟩
  exact (kinds_of_mem_carriers inside).2 kind needed held

/-- The slots of a class are told apart, and from the fields of the class. -/
theorem nodup_fields (distinct : type.Distinct) (properties : (type.properties.map (·.name)).Nodup)
    (checked : TypeBinding.Checked type (.ofClass binding)) (room : binding.LeavesRoom config type) :
    (type.fieldNames ++ (binding.additions config type).fields).Nodup := by
  have within := additions_fields_subperm config type binding
  have slots := nodup_slots properties checked room
  refine List.nodup_append.mpr ⟨distinct.fields, nodup_of_subperm within slots, ?_⟩
  rintro name field _ added rfl
  rcases room.fields name field with ⟨handle, data⟩
  rcases List.mem_cons.mp (within.subset added) with whole | slot
  · exact handle whole
  · rcases List.mem_append.mp slot with value | own
    · exact data value
    · rcases Carrier.mem_names own with ⟨carrier, among, kind, held, rfl⟩
      rcases List.mem_map.mp among with ⟨function, exposed, rfl⟩
      have free := (checked.2 function exposed).2
      rcases (Scope.not_mem_of_generatedConflict? free).2 _ field with ⟨handle, size⟩
      rcases List.mem_cons.mp held with rfl | other
      · exact handle rfl
      · cases List.mem_singleton.mp other
        exact size rfl

theorem sublist_additions_methods (config : Config) (type : TypeDef) (member : MemberBinding) :
    (member.additions config type).methods.Sublist
      [(Naming.setter member.name, [member.valueType])] := by
  unfold MemberBinding.additions
  split
  · next index _ =>
    cases type.properties[index]? with
    | none => exact List.nil_sublist _
    | some property =>
      change (if _ then _ else []).Sublist _
      split
      · exact .refl _
      · exact List.nil_sublist _
  · exact List.nil_sublist _

theorem additions_methods (config : Config) (type : TypeDef) (binding : ClassBinding) :
    (binding.additions config type).methods = binding.hiddenSetters config type
      ++ binding.functions.map fun function =>
        (Naming.invoker function.name, [.intPtr, .intPtr]) := by
  have members : (Additions.concat (binding.members.map (·.additions config type))).methods =
      binding.hiddenSetters config type :=
    Additions.concat_map Additions.methods rfl (fun _ _ => rfl) _ _
  have functions : (Additions.concat (binding.functions.map (·.additions))).methods =
      binding.functions.map fun function =>
        (Naming.invoker function.name, [.intPtr, .intPtr]) := by
    rw [Additions.concat_map Additions.methods rfl fun _ _ => rfl, List.map_eq_flatMap]
    rfl
  change [] ++ (Additions.methods _ ++ Additions.methods _) = _
  rw [List.nil_append, members, functions]

/-- Functions with different names are made from different methods. -/
theorem nodup_renames (checked : TypeBinding.Checked type (.ofClass binding))
    (room : binding.LeavesRoom config type) :
    ((binding.additions config type).renames.map (·.1)).Nodup := by
  have names : (binding.functions.map (·.method)).map (fun index =>
      type.methods[index]?.map (·.name)) = (binding.functions.map (·.name)).map some := by
    rw [List.map_map, List.map_map]
    refine List.map_congr_left fun function member => ?_
    rcases (checked.2 function member).1 with ⟨method, found, named⟩
    simp only [Function.comp_apply, found, Option.map_some, named]
  rw [additions_renames, List.map_map]
  refine List.Nodup.of_map (fun index => type.methods[index]?.map (·.name)) ?_
  exact names ▸ room.functions.map (Option.some_injective String)

/-- The names that renamed methods get. -/
theorem sublist_renamedKeys (type : TypeDef) (renames : List (Nat × String)) :
    ((type.renamedKeys renames).map (·.1)).Sublist (renames.map (·.2)) := by
  induction renames with
  | nil => exact .refl _
  | cons edit more ih =>
    rw [TypeDef.renamedKeys, List.filterMap_cons, List.map_cons]
    cases type.methods[edit.1]? with
    | none => exact ih.cons _
    | some method => exact ih.cons_cons _

theorem sublist_hiddenSetters (config : Config) (type : TypeDef) (binding : ClassBinding) :
    ((binding.hiddenSetters config type).map (·.1)).Sublist
      (binding.members.map fun member => Naming.setter member.name) := by
  have keys : (binding.hiddenSetters config type).Sublist
      (binding.members.map fun member => (Naming.setter member.name, [member.valueType])) := by
    rw [List.map_eq_flatMap]
    exact List.Sublist.flatMap_right _ fun member _ => sublist_additions_methods config type member
  have named := keys.map Prod.fst
  rwa [List.map_map] at named

theorem exists_of_mem_renamedKeys {key : String × List Signature}
    (member : key ∈ type.renamedKeys (binding.additions config type).renames) :
    ∃ function ∈ binding.functions, key.1 = Naming.implementation function.name := by
  have named := (sublist_renamedKeys type _).subset (List.mem_map_of_mem (f := (·.1)) member)
  rw [additions_renames, List.map_map] at named
  rcases List.mem_map.mp named with ⟨function, exposed, same⟩
  exact ⟨function, exposed, same.symm⟩

/-- The methods that are added to a class are told apart. -/
theorem nodup_generated (properties : (type.properties.map (·.name)).Nodup)
    (checked : TypeBinding.Checked type (.ofClass binding)) (room : binding.LeavesRoom config type) :
    ((binding.additions config type).methods
      ++ type.renamedKeys (binding.additions config type).renames).Nodup := by
  have members := properties.sublist checked.1
  have setters : ((binding.hiddenSetters config type).map (·.1)).Nodup := by
    refine List.Nodup.sublist (sublist_hiddenSetters config type binding) ?_
    have named := members.map fun _ _ => Naming.setter_inj
    rwa [List.map_map] at named
  have invokers : (binding.functions.map fun function => Naming.invoker function.name).Nodup := by
    have named := room.functions.map fun _ _ => Naming.invoker_inj
    rwa [List.map_map] at named
  have implementations :
      ((type.renamedKeys (binding.additions config type).renames).map (·.1)).Nodup := by
    refine List.Nodup.sublist (sublist_renamedKeys type _) ?_
    have named := room.functions.map fun _ _ => Naming.implementation_inj
    rw [List.map_map] at named
    rw [additions_renames, List.map_map]
    exact named
  refine List.Nodup.of_map Prod.fst ?_
  rw [additions_methods, List.map_append, List.map_append, List.map_map]
  refine List.nodup_append.mpr ⟨List.nodup_append.mpr ⟨setters, invokers, ?_⟩, implementations, ?_⟩
  · rintro name setter _ invoker rfl
    rcases List.mem_map.mp ((sublist_hiddenSetters config type binding).subset setter) with
      ⟨member, _, rfl⟩
    rcases List.mem_map.mp invoker with ⟨function, _, same⟩
    exact Naming.setter_ne_invoker _ _ same.symm
  · rintro name added _ renamed rfl
    rcases List.mem_map.mp renamed with ⟨key, inside, rfl⟩
    rcases exists_of_mem_renamedKeys inside with ⟨function, exposed, named⟩
    rcases room.implementations function exposed with ⟨first, second⟩
    rw [named] at added
    rcases List.mem_append.mp added with setter | invoker
    · rcases List.mem_map.mp setter with ⟨other, among, same⟩
      exact second other among same.symm
    · rcases List.mem_map.mp invoker with ⟨other, among, same⟩
      exact first other among same.symm

/-- The methods that are added to a class are none that it has, and none of them initializes it. -/
theorem not_mem_of_generated (checked : TypeBinding.Checked type (.ofClass binding))
    (room : binding.LeavesRoom config type) {key : String × List Signature}
    (member : key ∈ (binding.additions config type).methods
      ++ type.renamedKeys (binding.additions config type).renames) :
    key ∉ type.methodKeys ∧ key ≠ Method.initializerKey := by
  rcases List.mem_append.mp member with added | renamed
  · rw [additions_methods] at added
    rcases List.mem_append.mp added with setter | invoker
    · refine ⟨room.setters key setter, ?_⟩
      rintro rfl
      rcases List.mem_map.mp ((sublist_hiddenSetters config type binding).subset
        (List.mem_map_of_mem setter)) with ⟨exposed, _, same⟩
      exact Naming.setter_ne_initializer _ same
    · rcases List.mem_map.mp invoker with ⟨function, exposed, rfl⟩
      refine ⟨fun present => ?_, fun same =>
        Naming.invoker_ne_initializer _ (congrArg Prod.fst same)⟩
      rcases List.mem_map.mp present with ⟨method, declared, same⟩
      have free := (checked.2 function exposed).2
      exact ((Scope.not_mem_of_generatedConflict? free).1 method declared).2
        (congrArg Prod.fst same)
  · rcases exists_of_mem_renamedKeys renamed with ⟨function, exposed, named⟩
    constructor
    · intro present
      rcases List.mem_map.mp present with ⟨method, declared, same⟩
      have free := (checked.2 function exposed).2
      exact ((Scope.not_mem_of_generatedConflict? free).1 method declared).1
        ((congrArg Prod.fst same).trans named)
    · rintro rfl
      exact Naming.implementation_ne_initializer _ named.symm

/-- The methods of a class are told apart from those that are added to it. -/
theorem nodup_methods (distinct : type.Distinct) (properties : (type.properties.map (·.name)).Nodup)
    (conventional : type.Conventional) (checked : TypeBinding.Checked type (.ofClass binding))
    (room : binding.LeavesRoom config type) :
    (type.methodKeys ++ (binding.additions config type).methods
      ++ type.renamedKeys (binding.additions config type).renames
      ++ type.newInitializerKeys).Nodup := by
  rw [List.append_assoc type.methodKeys]
  refine List.nodup_append.mpr ⟨List.nodup_append.mpr
    ⟨distinct.methods, nodup_generated properties checked room, ?_⟩,
    type.nodup_newInitializerKeys, ?_⟩
  · rintro key present _ generated rfl
    exact (not_mem_of_generated checked room generated).1 present
  · rintro key present _ initializer rfl
    rcases TypeDef.not_mem_of_newInitializerKeys conventional initializer with ⟨rfl, missing⟩
    rcases List.mem_append.mp present with old | generated
    · exact missing old
    · exact (not_mem_of_generated checked room generated).2 rfl

/-- Each function has a slot for its handle. -/
theorem functionSlots_sublist (binding : ClassBinding) (config : Config) (type : TypeDef) :
    (binding.functions.map fun function => Naming.functionSlot function.name).Sublist
      (binding.additions config type).fields := by
  rw [additions_fields, List.map_eq_flatMap]
  refine ((List.Sublist.flatMap_right _ fun function _ => ?_).trans
    (List.sublist_append_right _ _)).cons _
  exact List.singleton_sublist.mpr List.mem_cons_self

end ClassBinding

/-! ## Woven types -/

/-- An edited type of which the names leave room has its members told apart. -/
theorem Module.EditedAs.distinct {module source : Module} {config : Config}
    {binding : TypeBinding} {type now : TypeDef}
    (edited : module.EditedAs config source binding type now) (distinct : type.Distinct)
    (properties : (type.properties.map (·.name)).Nodup) (conventional : type.Conventional)
    (checked : binding.Checked type) (room : binding.LeavesRoom config type) : now.Distinct := by
  rcases edited with ⟨plan, after, plans, _, applied⟩
  cases plans with
  | @ofStruct binding _ _ _ _ made =>
    have adds := StructBinding.yieldsAdds_plan? binding _ _ _ made plan rfl
    have unnamed := binding.additions_renames_nil config
    refine adds.distinct applied ?_ ?_ ?_
    · rw [unnamed]
      exact List.nodup_nil
    · refine List.nodup_append.mpr ⟨distinct.fields,
        StructBinding.nodup_additions_fields distinct checked, ?_⟩
      rintro name field _ added rfl
      exact room name field added
    · rw [unnamed, TypeDef.renamedKeys, List.filterMap_nil, List.append_nil]
      exact StructBinding.nodup_methods distinct conventional checked
  | @ofClass binding _ _ _ _ _ made _ =>
    have adds := yieldsAdds_classPlan source binding _ _ _ made
    exact adds.distinct applied (ClassBinding.nodup_renames checked room)
      (ClassBinding.nodup_fields distinct properties checked room)
      (ClassBinding.nodup_methods distinct properties conventional checked room)

namespace Scope

variable {scope : Scope} {result : WovenModule}

/-- Weaving keeps the members of all types apart if the names in the annotated types leave room for
what is added to them. -/
theorem distinct_of_weave (woven : scope.weave = .ok (.woven result))
    (distinct : ∀ type ∈ scope.module.types,
      type.Distinct ∧ (type.properties.map (·.name)).Nodup)
    (conventional : ∀ type ∈ scope.module.types, type.Conventional)
    (room : ∀ binding ∈ scope.extract.bindings, ∀ type,
      scope.module.types[binding.place]? = some type → binding.LeavesRoom scope.config type) :
    ∀ now ∈ result.module.types, now.Distinct := by
  intro now member
  rcases types_of_weave woven with ⟨_, length, types, _⟩
  rcases List.mem_iff_getElem?.mp member with ⟨index, there⟩
  have inside : index < scope.module.types.length :=
    length ▸ (List.getElem?_eq_some_iff.mp there).1
  have present : scope.module.types[index]? = some scope.module.types[index] :=
    List.getElem?_eq_getElem inside
  have declared := List.mem_of_getElem? present
  rcases types present with ⟨found, here, origin⟩
  cases there.symm.trans here
  rcases origin with rfl | ⟨binding, picks, rfl, edited⟩
  · exact (distinct _ declared).1
  · exact edited.distinct (distinct _ declared).1 (distinct _ declared).2 (conventional _ declared)
      (checked_of_mem_extract picks.mem present) (room binding picks.mem _ present)

/-- A woven class has the fields that it had and its slots, in this order, without the hidden fields
of its exposed properties. -/
theorem fieldNames_of_weave (woven : scope.weave = .ok (.woven result)) {binding : ClassBinding}
    (bound : scope.extract.bindings.findClass? binding.name = some binding) {type : TypeDef}
    (present : scope.module.types[binding.type]? = some type) :
    ∃ now ∈ result.module.types, now.fieldNames =
      (type.fieldNames ++ (binding.additions scope.config type).fields).filter
        (!(binding.additions scope.config type).removed.contains ·) := by
  rcases types_of_weave woven with ⟨_, _, _, classes⟩
  rcases @classes (.ofClass binding) type bound trivial present with
    ⟨now, there, plan, after, plans, _, applied⟩
  cases plans with
  | ofClass _ made _ =>
    have adds := yieldsAdds_classPlan scope.module binding _ _ _ made
    exact ⟨now, List.mem_of_getElem? there, adds.fieldNames_of_apply applied⟩

/-- Exposed functions of the same name share their slots: nothing asks whether there are any. -/
theorem not_nodup_of_overloads (woven : scope.weave = .ok (.woven result)) {binding : ClassBinding}
    (bound : scope.extract.bindings.findClass? binding.name = some binding) {type : TypeDef}
    (present : scope.module.types[binding.type]? = some type)
    (overloads : ¬ (binding.functions.map (·.name)).Nodup) :
    ∃ now ∈ result.module.types, ¬ now.fieldNames.Nodup := by
  rcases fieldNames_of_weave woven bound present with ⟨now, member, names⟩
  refine ⟨now, member, fun distinct => overloads ?_⟩
  have slots := binding.functionSlots_sublist scope.config type
  have kept := (slots.trans (List.sublist_append_right type.fieldNames _)).filter
    (!(binding.additions scope.config type).removed.contains ·)
  rw [List.filter_eq_self.mpr ?_, ← names] at kept
  · have names : ((binding.functions.map (·.name)).map Naming.functionSlot).Nodup := by
      rw [List.map_map]
      exact distinct.sublist kept
    exact names.of_map _
  · intro name slot
    rcases List.mem_map.mp slot with ⟨function, _, rfl⟩
    rw [Bool.not_eq_true', ← Bool.not_eq_true, List.contains_iff_mem]
    intro removed
    rcases ClassBinding.exists_of_mem_removed removed with
      ⟨_, _, _, _, same⟩
    exact Naming.functionSlot_ne_backingField _ _ same

/-- The struct that is marshalled leaves room for that, so its members are told apart. -/
theorem distinct_of_weave_toggle : ∃ result, Toggle.scope.weave = .ok (.woven result) ∧
    ∀ now ∈ result.module.types, now.Distinct := by
  have distinct : ∀ type ∈ Toggle.scope.module.types,
      type.Distinct ∧ (type.properties.map (·.name)).Nodup := by
    refine List.forall_mem_singleton.mpr ⟨⟨?_, ?_⟩, ?_⟩ <;> decide
  have conventional : ∀ type ∈ Toggle.scope.module.types, type.Conventional := by
    refine List.forall_mem_singleton.mpr ⟨?_, ?_⟩ <;> decide
  have room : ∀ binding ∈ Toggle.scope.extract.bindings, ∀ type,
      Toggle.scope.module.types[binding.place]? = some type →
        binding.LeavesRoom Toggle.scope.config type := by
    rw [Toggle.extract_scope]
    refine List.forall_mem_singleton.mpr fun type present => ?_
    cases present
    change ∀ name ∈ Toggle.type.fieldNames, name ∉ _
    decide
  rcases Toggle.exists_woven with ⟨result, woven⟩
  exact ⟨result, woven, distinct_of_weave woven distinct conventional room⟩

end Scope

end NativeWeave
