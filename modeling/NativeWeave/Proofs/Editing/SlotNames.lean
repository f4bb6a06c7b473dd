import NativeWeave.Proofs.Editing.Additions

namespace NativeWeave

/-!
# Names of slots

A slot is named after what it belongs to, with an ending that says what it keeps.  None of the
endings ends in another one, so the name of a slot gives away both parts.  Two slots can therefore
only clash if two of the things that they belong to have the same name.
-/

/-- What a slot keeps. -/
inductive SlotKind
  | offset
  | handle
  | elementSize
  | width
  | wrapper
  | function
  | parametersSize
deriving DecidableEq, Repr

namespace SlotKind

def all : List SlotKind :=
  [offset, handle, elementSize, width, wrapper, function, parametersSize]

def ending : SlotKind → String
  | offset => "_Offset"
  | handle => "_NativeProperty"
  | elementSize => "_ElementSize"
  | width => "_Width"
  | wrapper => "_Wrapper"
  | function => "_NativeFunction"
  | parametersSize => "_ParamsSize"

/-- The name of the slot of something called `base`. -/
def name (kind : SlotKind) (base : String) : String :=
  base ++ kind.ending

theorem mem_all (kind : SlotKind) : kind ∈ all := by
  cases kind <;> decide

theorem ending_suffix_name (kind : SlotKind) (base : String) :
    kind.ending.toList <:+ (kind.name base).toList := by
  rw [name, String.toList_append]
  exact List.suffix_append _ _

/-- No ending ends in another one. -/
theorem eq_of_ending_suffix {kind other : SlotKind}
    (suffix : kind.ending.toList <:+ other.ending.toList) : kind = other := by
  have each : ∀ kind ∈ all, ∀ other ∈ all,
      kind.ending.toList <:+ other.ending.toList → kind = other := by decide
  exact each kind kind.mem_all other other.mem_all suffix

/-- The name of a slot says what it keeps and what it belongs to. -/
theorem name_inj {kind other : SlotKind} {base stem : String} :
    kind.name base = other.name stem ↔ kind = other ∧ base = stem := by
  refine ⟨fun same => ?_, fun ⟨one, two⟩ => one ▸ two ▸ rfl⟩
  have both := List.suffix_or_suffix_of_suffix (kind.ending_suffix_name base)
    (same ▸ other.ending_suffix_name stem)
  have kinds : kind = other :=
    both.elim eq_of_ending_suffix fun suffix => (eq_of_ending_suffix suffix).symm
  subst kinds
  have parts : base.toList ++ kind.ending.toList = stem.toList ++ kind.ending.toList := by
    rw [← String.toList_append, ← String.toList_append]
    exact congrArg String.toList same
  exact ⟨rfl, String.toList_inj.mp (List.append_cancel_right parts)⟩

/-- No slot is called like one of the two that belong to a type as a whole. -/
theorem name_ne_of_whole (kind : SlotKind) (base : String) :
    kind.name base ≠ Naming.nativeClassPtr ∧ kind.name base ≠ Naming.nativeDataSize := by
  have apart : ∀ kind ∈ all, ¬ kind.ending.toList <:+ Naming.nativeClassPtr.toList ∧
      ¬ kind.ending.toList <:+ Naming.nativeDataSize.toList := by decide
  rcases apart kind kind.mem_all with ⟨first, second⟩
  exact ⟨fun same => first (same ▸ kind.ending_suffix_name base),
    fun same => second (same ▸ kind.ending_suffix_name base)⟩

end SlotKind

/-! ## Carriers -/

/-- The slots that values of a category need. -/
def Category.slotKinds (category : Category) : List SlotKind :=
  [.offset] ++ (if category.needsHandle then [.handle] else [])
    ++ (if category.needsElementSize then [.elementSize] else [])
    ++ (if category.needsWidth then [.width] else [])

theorem Category.slotNames_eq (category : Category) (base : String) :
    category.slotNames base = category.slotKinds.map (·.name base) := by
  simp only [slotNames, slotKinds, List.map_append, apply_ite (List.map _), List.map_nil,
    List.map_cons]
  rfl

theorem Category.nodup_slotKinds (category : Category) : category.slotKinds.Nodup := by
  unfold slotKinds
  cases category.needsHandle <;> cases category.needsElementSize <;> cases category.needsWidth <;>
    decide

/-- The slots that belong to a function itself. -/
def SlotKind.ofFunction : List SlotKind :=
  [.function, .parametersSize]

theorem Category.not_mem_ofFunction (category : Category) :
    ∀ kind ∈ category.slotKinds, kind ∉ SlotKind.ofFunction := by
  unfold slotKinds
  cases category.needsHandle <;> cases category.needsElementSize <;> cases category.needsWidth <;>
    decide

/-- Something that has slots: its name and what they keep. -/
abbrev Carrier := String × List SlotKind

namespace Carrier

/-- The slots of several carriers. -/
def slots (carriers : List Carrier) : List (SlotKind × String) :=
  carriers.flatMap fun carrier => carrier.2.map (·, carrier.1)

/-- The names of these slots. -/
def names (carriers : List Carrier) : List String :=
  carriers.flatMap fun carrier => carrier.2.map (·.name carrier.1)

theorem names_eq (carriers : List Carrier) :
    names carriers = (slots carriers).map fun slot => slot.1.name slot.2 := by
  rw [names, slots, List.map_flatMap]
  simp only [List.map_map]
  rfl

theorem names_append (first second : List Carrier) :
    names (first ++ second) = names first ++ names second :=
  List.flatMap_append

/-- If no two carriers have the same name no two slots have. -/
theorem nodup_names {carriers : List Carrier} (bases : (carriers.map (·.1)).Nodup)
    (kinds : ∀ carrier ∈ carriers, carrier.2.Nodup) : (names carriers).Nodup := by
  have slots : (slots carriers).Nodup := by
    refine List.nodup_flatMap.mpr ⟨fun carrier member => (kinds carrier member).map ?_, ?_⟩
    · exact fun _ _ same => congrArg Prod.fst same
    · refine (List.pairwise_map.mp bases).imp fun {first second} different => ?_
      intro slot one other
      rcases List.mem_map.mp one with ⟨_, _, rfl⟩
      rcases List.mem_map.mp other with ⟨_, _, same⟩
      exact different (congrArg Prod.snd same).symm
  rw [names_eq]
  exact slots.map fun _ _ same => Prod.ext_iff.mpr (SlotKind.name_inj.mp same)

/-- A name among those of slots is that of a carrier with one of its endings. -/
theorem mem_names {carriers : List Carrier} {name : String} (member : name ∈ names carriers) :
    ∃ carrier ∈ carriers, ∃ kind ∈ carrier.2, name = kind.name carrier.1 := by
  rcases List.mem_flatMap.mp member with ⟨carrier, inside, member⟩
  rcases List.mem_map.mp member with ⟨kind, needed, rfl⟩
  exact ⟨carrier, inside, kind, needed, rfl⟩

end Carrier

/-! ## Structs and classes -/

/-- The slots of a member of a class. -/
def MemberBinding.slotKinds (config : Config) (member : MemberBinding) : List SlotKind :=
  member.category.slotKinds
    ++ if (config.wrapperType? member.category).isSome then [.wrapper] else []

theorem MemberBinding.nodup_slotKinds (config : Config) (member : MemberBinding) :
    (member.slotKinds config).Nodup := by
  unfold slotKinds Category.slotKinds
  cases (config.wrapperType? member.category).isSome <;> cases member.category.needsHandle <;>
    cases member.category.needsElementSize <;> cases member.category.needsWidth <;> decide

theorem MemberBinding.not_mem_ofFunction (config : Config) (member : MemberBinding) :
    ∀ kind ∈ member.slotKinds config, kind ∉ SlotKind.ofFunction := by
  intro kind needed
  rcases List.mem_append.mp needed with own | wrapped
  · exact member.category.not_mem_ofFunction kind own
  · split at wrapped
    · cases List.mem_singleton.mp wrapped
      decide
    · cases wrapped

namespace StructBinding

/-- The exposed fields with their slots. -/
def carriers (binding : StructBinding) : List Carrier :=
  binding.members.map fun member => (member.name, member.category.slotKinds)

theorem marshalAdditions_fields (binding : StructBinding) : binding.marshalAdditions.fields =
    [Naming.nativeClassPtr, Naming.nativeDataSize] ++ Carrier.names binding.carriers := by
  simp only [marshalAdditions, Carrier.names, carriers, List.flatMap_map, Category.slotNames_eq]

end StructBinding

namespace FunctionBinding

/-- The parameters and the return value of a function with their slots. -/
def carriers (function : FunctionBinding) : List Carrier :=
  function.values.map fun value =>
    (Naming.parameterSlots function.name value.name, value.category.slotKinds)

/-- The function itself with its slots. -/
def carrier (function : FunctionBinding) : Carrier :=
  (function.name, SlotKind.ofFunction)

theorem additions_fields (function : FunctionBinding) : function.additions.fields =
    Carrier.names [function.carrier] ++ Carrier.names function.carriers := by
  simp only [additions, Carrier.names, carriers, List.flatMap_map, Category.slotNames_eq]
  rfl

end FunctionBinding

namespace ClassBinding

/-- The exposed properties and the values of functions with their slots. -/
def carriers (config : Config) (binding : ClassBinding) : List Carrier :=
  binding.members.map (fun member => (member.name, member.slotKinds config))
    ++ binding.functions.flatMap (·.carriers)

/-- The functions with the slots of their own. -/
def functionCarriers (binding : ClassBinding) : List Carrier :=
  binding.functions.map (·.carrier)

theorem sublist_additions_fields (config : Config) (type : TypeDef) (member : MemberBinding) :
    (member.additions config type).fields.Sublist
      ((member.slotKinds config).map (·.name member.name)) := by
  have own : ∀ property, (member.accessorAdditions config type property).fields =
      (member.slotKinds config).map (·.name member.name) := by
    intro property
    simp only [MemberBinding.accessorAdditions, MemberBinding.slotKinds, Category.slotNames_eq,
      List.map_append, apply_ite (List.map _)]
    rfl
  unfold MemberBinding.additions
  split
  · next index _ =>
    cases type.properties[index]? with
    | none => exact List.nil_sublist _
    | some property => exact own property ▸ .refl _
  · exact List.nil_sublist _

theorem additions_fields (config : Config) (type : TypeDef) (binding : ClassBinding) :
    (binding.additions config type).fields = Naming.nativeClassPtr ::
      ((binding.members.flatMap fun member => (member.additions config type).fields)
        ++ binding.functions.flatMap fun function => function.additions.fields) := by
  rw [← Additions.concat_map Additions.fields rfl fun _ _ => rfl,
    ← Additions.concat_map Additions.fields rfl fun _ _ => rfl]
  rfl

open List in
/-- The fields that are added to a class are slots, apart from the one for its handle. -/
theorem additions_fields_subperm (config : Config) (type : TypeDef) (binding : ClassBinding) :
    (binding.additions config type).fields <+~
      Naming.nativeClassPtr :: (Carrier.names (binding.carriers config)
        ++ Carrier.names binding.functionCarriers) := by
  have members : (binding.members.flatMap fun member => (member.additions config type).fields) <+
      Carrier.names (binding.members.map fun member => (member.name, member.slotKinds config)) := by
    rw [Carrier.names, List.flatMap_map]
    exact List.Sublist.flatMap_right _ fun member _ => sublist_additions_fields config type member
  have functions : (binding.functions.flatMap fun function => function.additions.fields) ~
      Carrier.names binding.functionCarriers
        ++ Carrier.names (binding.functions.flatMap (·.carriers)) := by
    have own : (binding.functions.flatMap fun function => Carrier.names [function.carrier]) =
        Carrier.names binding.functionCarriers := by
      simp only [Carrier.names, functionCarriers, List.flatMap_map, List.flatMap_singleton]
    have values : (binding.functions.flatMap fun function => Carrier.names function.carriers) =
        Carrier.names (binding.functions.flatMap (·.carriers)) :=
      List.flatMap_assoc.symm
    simp only [FunctionBinding.additions_fields]
    rw [← own, ← values]
    exact (List.flatMap_append_perm _ _ _).symm
  rw [additions_fields, carriers, Carrier.names_append, List.append_assoc]
  refine (List.subperm_cons _).mpr ((members.subperm.append functions.subperm).trans ?_)
  exact (List.perm_append_comm.append_left _).subperm

end ClassBinding

end NativeWeave
