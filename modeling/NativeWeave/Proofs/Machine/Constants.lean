import NativeWeave.Proofs.Extraction.Complete
import NativeWeave.Proofs.Machine.Moving

namespace NativeWeave

/-!
# Constants of enumerations

The members of an enumeration count up from zero, and each value has one byte in native memory.  An
enumeration with more members than a byte has values is accepted nevertheless; its constants survive in
native memory exactly if there are at most 256 of them.
-/

open Machine Diagnostic

/-! ## Storing and loading -/

namespace Category

/-- Wherever the code of the category writes a constant to, it leaves the byte there and changes
nothing else. -/
def StoresAs (category : Category) (constant : Int64) (byte : UInt8) : Prop :=
  ∀ config type slots address source tables, ∃ fragment : Fragment,
    category.toNative config type slots address source tables = .ok (fragment, tables) ∧
    ∀ (machine : Machine) frame state start, machine.Locates frame state address start →
      machine.Finds frame state source (.integer constant.toBitVec) →
        ∀ stack, machine.Passes frame fragment stack state stack
          { state with memory := state.memory.write start [byte] }

/-- Wherever the code of the category finds the byte, it gives the constant and changes nothing. -/
def LoadsAs (category : Category) (byte : UInt8) (constant : Int64) : Prop :=
  ∀ config type slots address tables, ∃ fragment : Fragment,
    category.fromNative config type slots address tables = .ok (fragment, tables) ∧
    ∀ (machine : Machine) frame state start, machine.Locates frame state address start →
      state.memory start = byte →
        ∀ stack, machine.Passes frame fragment stack state (.integer constant.toBitVec :: stack) state

/-- What the code of the category stores for the constant, it loads as the constant again. -/
def Preserves (category : Category) (constant : Int64) : Prop :=
  ∃ byte, category.StoresAs constant byte ∧ category.LoadsAs byte constant

/-- The code of the category stores two constants as the same byte. -/
def Confuses (category : Category) (first second : Int64) : Prop :=
  ∃ byte, category.StoresAs first byte ∧ category.StoresAs second byte

end Category

/-! ## A machine to observe bytes with -/

namespace Machine

/-- A machine that cannot call anything. -/
def secluded : Machine where
  tables := {}
  shape _ := .block 0
  fits _ := by decide
  initial _ := .null
  conforms _ _ := false
  actual member _ := member
  allocate _ state := (.null, state)
  answer _ _ _ := .fails

end Machine

/-- A state with an address and a number in its variables. -/
def MachineState.passing (start : Address) (memory : NativeMemory) (constant : Int64) :
    MachineState where
  memory
  cells
    | .argument 0 0 => .integer start
    | _ => .integer constant.toBitVec
  statics _ := .null
  frames := 1
  extent := 0

namespace Category

variable {native : String} {owner : QualifiedName} {constant other : Int64} {byte : UInt8}

theorem storesAs_enumeration (native : String) (owner : QualifiedName) (constant : Int64) :
    (enumeration native owner).StoresAs constant (UInt8.ofNat constant.toBitVec.toNat) := by
  intro config type slots address source tables
  refine ⟨_, rfl, fun machine frame state start locates finds stack => ?_⟩
  exact ((passes_address locates).append (passes_push finds)).append
    (passes_of_perform fun _ => rfl)

theorem loadsAs_enumeration (native : String) (owner : QualifiedName) (byte : UInt8) :
    (enumeration native owner).LoadsAs byte (Int64.ofNat byte.toNat) := by
  intro config type slots address tables
  refine ⟨_, rfl, fun machine frame state start locates here stack => ?_⟩
  have loaded : (Shape.primitive .u8).load state.memory start =
      .integer (Int64.ofNat byte.toNat).toBitVec := by
    have single : state.memory.read start 1 = [byte] := by simp [NativeMemory.read, here]
    simp [Shape.load, NativeKind.size, NativeKind.load, single, Bytes.toNat]
  refine (passes_address locates).append (passes_of_perform fun _ => ?_)
  rw [perform, performIndirect, loaded]

/-- A constant is stored as its low byte, and as nothing else. -/
theorem storesAs_enumeration_iff :
    (enumeration native owner).StoresAs constant byte ↔
      byte = UInt8.ofNat constant.toBitVec.toNat := by
  constructor
  · intro stores
    rcases stores {} .void ⟨0, none, none, none, none⟩ ⟨.argument 0, none⟩ (.argument 1) {} with
      ⟨fragment, emitted, passes⟩
    rcases storesAs_enumeration native owner constant {} .void ⟨0, none, none, none, none⟩
      ⟨.argument 0, none⟩ (.argument 1) {} with ⟨_, same, usual⟩
    cases emitted.symm.trans same
    let state := MachineState.passing 0 (fun _ => 0) constant
    have written := ((passes secluded 0 state 0 rfl rfl []).unique
      (usual secluded 0 state 0 rfl rfl [])).2
    exact congrFun (congrArg MachineState.memory written) 0
  · rintro rfl
    exact storesAs_enumeration native owner constant

/-- A byte is loaded as its number, and as nothing else. -/
theorem loadsAs_enumeration_iff :
    (enumeration native owner).LoadsAs byte constant ↔ constant = Int64.ofNat byte.toNat := by
  constructor
  · intro loads
    rcases loads {} .void ⟨0, none, none, none, none⟩ ⟨.argument 0, none⟩ {} with
      ⟨fragment, emitted, passes⟩
    rcases loadsAs_enumeration native owner byte {} .void ⟨0, none, none, none, none⟩
      ⟨.argument 0, none⟩ {} with ⟨_, same, usual⟩
    cases emitted.symm.trans same
    let state := MachineState.passing 0 (fun _ => byte) constant
    have loaded := ((passes secluded 0 state 0 rfl rfl []).unique
      (usual secluded 0 state 0 rfl rfl [])).1
    exact Int64.toBitVec_inj.mp (Value.integer.inj (List.cons.inj loaded).1)
  · rintro rfl
    exact loadsAs_enumeration native owner byte

/-- Constants survive if they fit into a byte. -/
theorem preserves_enumeration_iff :
    (enumeration native owner).Preserves constant ↔ constant.toBitVec.toNat < 256 := by
  simp only [Preserves, storesAs_enumeration_iff, loadsAs_enumeration_iff, exists_eq_left,
    ← Int64.toBitVec_inj, ← BitVec.toNat_inj]
  simp only [UInt8.toNat_ofNat', Int64.toBitVec_ofNat', BitVec.toNat_ofNat]
  omega

/-- Constants with the same low byte are confused. -/
theorem confuses_enumeration_iff : (enumeration native owner).Confuses constant other ↔
    constant.toBitVec.toNat % 256 = other.toBitVec.toNat % 256 := by
  simp only [Confuses, storesAs_enumeration_iff, exists_eq_left]
  simp [← UInt8.toNat_inj]

example : (enumeration "Stance" ⟨"Game", "Stance"⟩).Confuses 0 256 := by
  rw [confuses_enumeration_iff]
  decide

end Category

/-! ## Accepted enumerations -/

/-- The constants of the members of an enumeration, in order. -/
def TypeDef.constants (type : TypeDef) : List Int64 :=
  (type.fields.filter (·.isLiteral)).filterMap (·.constant)

/-- The members of an enumeration that obeys the rules count up from zero. -/
theorem EnumBinding.Lawful.constants_eq {type : TypeDef} (lawful : EnumBinding.Lawful type) :
    type.constants =
      (List.range (type.fields.filter (·.isLiteral)).length).map Int64.ofNat := by
  have each : (type.fields.filter (·.isLiteral)).map (·.constant) =
      ((List.range (type.fields.filter (·.isLiteral)).length).map Int64.ofNat).map some := by
    apply List.ext_getElem (by simp)
    intro position inside _
    rw [List.length_map] at inside
    simp [lawful.contiguous position _ (List.getElem?_eq_getElem inside)]
  have constants := congrArg (List.filterMap id) each
  rw [List.filterMap_map, List.filterMap_map] at constants
  simpa [TypeDef.constants] using constants

namespace Scope

variable {scope : Scope} {index : Nat} {type : TypeDef}

theorem lawful_of_mem_extractEnum {binding : EnumBinding}
    (accepted : binding ∈ (scope.extractEnum index type).binding) :
    EnumBinding.Lawful type ∧
      binding.members.length = (type.fields.filter (·.isLiteral)).length := by
  have silent : (scope.extractEnum index type).diagnostics.isEmpty = true := by
    have found := accepted
    unfold extractEnum at found
    dsimp only at found
    split at found
    · next silent => exact silent
    · cases found
  have clean : hasErrors (scope.extractEnum index type).diagnostics = false := by
    rw [List.isEmpty_iff.mp silent]
    rfl
  rcases accounts_extractEnum clean with ⟨other, made, lawful, members⟩
  cases made.symm.trans accepted
  exact ⟨lawful, by rw [members, List.length_map]⟩

/-- An enumeration is accepted exactly if it obeys the rules, however many members it has. -/
theorem isSome_extractEnum :
    (scope.extractEnum index type).binding.isSome = true ↔ EnumBinding.Lawful type := by
  rw [Option.isSome_iff_exists]
  constructor
  · rintro ⟨binding, accepted⟩
    exact (lawful_of_mem_extractEnum accepted).1
  · intro lawful
    rcases accounts_extractEnum (hasErrors_extractEnum.mpr lawful) with ⟨binding, accepted, _⟩
    exact ⟨binding, accepted⟩

end Scope

section Counting

variable {native : String} {owner : QualifiedName} {count : Nat}

/-- Numbers that count up from zero survive exactly if the last one fits into a byte. -/
theorem preserves_range_iff :
    (∀ constant ∈ (List.range count).map Int64.ofNat,
        (Category.enumeration native owner).Preserves constant) ↔ count ≤ 256 := by
  simp only [List.forall_mem_map, List.mem_range, Category.preserves_enumeration_iff,
    Int64.toBitVec_ofNat', BitVec.toNat_ofNat]
  constructor
  · intro survive
    by_contra more
    have last := survive 256 (by omega)
    omega
  · intro few position inside
    omega

/-- Numbers that count up from zero stay distinct exactly if the last one fits into a byte. -/
theorem pairwise_range_iff :
    ((List.range count).map Int64.ofNat).Pairwise (fun first second =>
        ¬ (Category.enumeration native owner).Confuses first second) ↔ count ≤ 256 := by
  rw [List.pairwise_map, List.pairwise_iff_getElem]
  simp only [List.length_range, List.getElem_range, Category.confuses_enumeration_iff,
    Int64.toBitVec_ofNat', BitVec.toNat_ofNat]
  constructor
  · intro apart
    by_contra more
    have first := apart 0 256 (by omega) (by omega) (by decide)
    omega
  · intro few first second _ inside before
    omega

end Counting

namespace Scope

/-- An enumeration is accepted exactly if it is backed by a byte and its members count up from zero.
Its constants survive in native memory, and stay distinct there, exactly if there are at most 256. -/
theorem extractEnum_preserves (scope : Scope) (index : Nat) (type : TypeDef) :
    ((scope.extractEnum index type).binding.isSome = true ↔ EnumBinding.Lawful type) ∧
    ∀ binding ∈ (scope.extractEnum index type).binding, ∀ native owner,
      ((∀ constant ∈ type.constants, (Category.enumeration native owner).Preserves constant) ↔
        binding.members.length ≤ 256) ∧
      (type.constants.Pairwise (fun first second =>
          ¬ (Category.enumeration native owner).Confuses first second) ↔
        binding.members.length ≤ 256) := by
  refine ⟨isSome_extractEnum, fun binding accepted native owner => ?_⟩
  rcases lawful_of_mem_extractEnum accepted with ⟨lawful, count⟩
  rw [count, lawful.constants_eq]
  exact ⟨preserves_range_iff, pairwise_range_iff⟩

/-- The modes of the arena are two, and both survive in native memory. -/
theorem extractEnum_preserves_mode : ∃ binding ∈ (Arena.scope.extractEnum 2 Arena.mode).binding,
    ∀ native owner,
      (∀ constant ∈ Arena.mode.constants, (Category.enumeration native owner).Preserves constant) ∧
      Arena.mode.constants.Pairwise fun first second =>
        ¬ (Category.enumeration native owner).Confuses first second := by
  have accepted : ((Arena.scope.extractEnum 2 Arena.mode).binding.map (·.members.length)) =
      some 2 := by decide
  rcases Option.map_eq_some_iff.mp accepted with ⟨binding, found, count⟩
  have few : binding.members.length ≤ 256 := by omega
  refine ⟨binding, found, fun native owner => ?_⟩
  rcases (extractEnum_preserves Arena.scope 2 Arena.mode).2 binding found native owner with
    ⟨survive, apart⟩
  exact ⟨survive.mpr few, apart.mpr few⟩

end Scope

end NativeWeave
