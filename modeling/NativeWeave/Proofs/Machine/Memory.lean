import Mathlib
import NativeWeave.Module.Reference

namespace NativeWeave

/-!
# Values and memory of the stack machine

Managed code computes with values and keeps them in variables; native memory is an array of bytes.
Primitives go from one side to the other by their kind: storing one writes its low bytes, least
significant first, and loading one extends what is read to the width of the stack.
-/

/-- A variable that managed code can take the address of. -/
inductive Cell
  | argument (frame index : Nat)
  | localVariable (frame index : Nat)
  | field (object : Nat) (member : MemberRef)
deriving DecidableEq

abbrev Address := BitVec 64

/-- A value on the stack or in a variable. -/
inductive Value
  | null
  /-- An integer, an address among them, in the width of the stack. -/
  | integer (bits : BitVec 64)
  | single (bits : BitVec 32)
  | double (bits : BitVec 64)
  | text (text : String)
  | object (identity : Nat)
  /-- A struct that has the same bytes on both sides. -/
  | block (contents : Bytes)
  | reference (place : Cell)
deriving DecidableEq

namespace Value

/-- A truth value is a number. -/
def truth (flag : Bool) : Value :=
  integer (if flag then 1 else 0)

/-- What a jump takes for true. -/
def isTrue : Value → Bool
  | null => false
  | integer bits => bits != 0
  | _ => true

end Value

/-! ## Primitives -/

namespace NativeKind

/-- The value that a stored number stands for. -/
def load (kind : NativeKind) (stored : Nat) : Value :=
  match kind with
  | i8 | i16 | i32 => .integer ((BitVec.ofNat (8 * kind.size) stored).signExtend 64)
  | u8 | u16 | u32 | i64 | u64 | pointer => .integer (BitVec.ofNat 64 stored)
  | f32 => .single (BitVec.ofNat 32 stored)
  | f64 => .double (BitVec.ofNat 64 stored)

/-- The number whose low bytes are stored for a value. -/
def store? (kind : NativeKind) (value : Value) : Option Nat :=
  match kind, value with
  | f32, .single bits => some bits.toNat
  | f64, .double bits => some bits.toNat
  | f32, _ | f64, _ => none
  | _, .integer bits => some bits.toNat
  | _, _ => none

/-- The value is in the range of the kind.  Floating-point numbers are all bit patterns. -/
def Holds (kind : NativeKind) (value : Value) : Prop :=
  match kind, value with
  | f32, .single _ | f64, .double _ => True
  | i8, .integer bits | i16, .integer bits | i32, .integer bits | i64, .integer bits =>
    -2 ^ (8 * kind.size - 1) ≤ bits.toInt ∧ bits.toInt < 2 ^ (8 * kind.size - 1)
  | u8, .integer bits | u16, .integer bits | u32, .integer bits | u64, .integer bits
  | pointer, .integer bits => bits.toNat < 2 ^ (8 * kind.size)
  | _, _ => False

/-- Sign extension gives back what was cut off from a small number. -/
theorem signExtend_ofNat {width : Nat} (positive : 0 < width) (narrow : width ≤ 64)
    {bits : BitVec 64} (low : -2 ^ (width - 1) ≤ bits.toInt) (high : bits.toInt < 2 ^ (width - 1)) :
    (BitVec.ofNat width (bits.toNat % 2 ^ width)).signExtend 64 = bits := by
  have cut : BitVec.ofNat width (bits.toNat % 2 ^ width) = bits.setWidth width := by
    apply BitVec.eq_of_toNat_eq
    rw [BitVec.toNat_ofNat, Nat.mod_mod, BitVec.toNat_setWidth]
  have doubled : 2 ^ width = 2 * 2 ^ (width - 1) := by
    rw [Nat.mul_comm, ← Nat.pow_succ, Nat.succ_eq_add_one, Nat.sub_add_cancel positive]
  have half : ((2 ^ (width - 1) : Nat) : Int) = 2 ^ (width - 1) := Int.natCast_pow 2 _
  apply BitVec.eq_of_toInt_eq
  rw [cut, BitVec.toInt_signExtend_of_le narrow, BitVec.toInt_setWidth,
    ← Int.bmod_bmod_of_dvd (Nat.pow_dvd_pow 2 narrow),
    ← BitVec.toInt_eq_toNat_bmod]
  apply Int.bmod_eq_of_le <;> omega

/-- A value in the range of its kind is loaded back from the number that is stored for it. -/
theorem load_of_store? {kind : NativeKind} {value : Value} (holds : kind.Holds value) :
    ∃ number, kind.store? value = some number ∧ kind.load (number % 2 ^ (8 * kind.size)) = value := by
  have whole : ∀ bits : BitVec 64, BitVec.ofNat 64 (bits.toNat % 2 ^ 64) = bits := fun bits => by
    rw [Nat.mod_eq_of_lt bits.isLt, BitVec.ofNat_toNat, BitVec.setWidth_eq]
  have small : ∀ {bits : BitVec 64} {width : Nat}, bits.toNat < 2 ^ width →
      BitVec.ofNat 64 (bits.toNat % 2 ^ width) = bits := fun short => by
    rw [Nat.mod_eq_of_lt short, BitVec.ofNat_toNat, BitVec.setWidth_eq]
  cases value with
  | integer bits =>
    cases kind with
    | i8 | i16 | i32 =>
      exact ⟨_, rfl, congrArg Value.integer (signExtend_ofNat (by decide) (by decide) holds.1 holds.2)⟩
    | u8 | u16 | u32 => exact ⟨_, rfl, congrArg Value.integer (small holds)⟩
    | i64 | u64 | pointer => exact ⟨_, rfl, congrArg Value.integer (whole bits)⟩
    | f32 | f64 => exact holds.elim
  | single bits =>
    cases kind with
    | f32 =>
      refine ⟨_, rfl, congrArg Value.single ?_⟩
      change BitVec.ofNat 32 (bits.toNat % 2 ^ 32) = bits
      rw [Nat.mod_eq_of_lt bits.isLt, BitVec.ofNat_toNat, BitVec.setWidth_eq]
    | _ => exact holds.elim
  | double bits =>
    cases kind with
    | f64 => exact ⟨_, rfl, congrArg Value.double (whole bits)⟩
    | _ => exact holds.elim
  | _ => cases kind <;> exact holds.elim

end NativeKind

/-! ## Native memory -/

/-- The address is one of the `count` addresses from another one on. -/
def Address.Covers (start : Address) (count : Nat) (place : Address) : Prop :=
  (place - start).toNat < count

instance (start : Address) (count : Nat) (place : Address) : Decidable (start.Covers count place) :=
  inferInstanceAs (Decidable (_ < _))

abbrev NativeMemory := Address → UInt8

namespace NativeMemory

variable {memory other : NativeMemory} {start place : Address} {count : Nat} {bytes : Bytes}

/-- Two memories have the same bytes at some addresses. -/
def AgreesOn (memory other : NativeMemory) (places : Address → Prop) : Prop :=
  ∀ place, places place → memory place = other place

/-- The bytes from an address on. -/
def read (memory : NativeMemory) (start : Address) (count : Nat) : Bytes :=
  (List.range count).map fun offset => memory (start + BitVec.ofNat 64 offset)

/-- The memory with other bytes from an address on. -/
def write (memory : NativeMemory) (start : Address) (bytes : Bytes) : NativeMemory := fun place =>
  bytes[(place - start).toNat]?.getD (memory place)

/-- The memory with the same byte at all addresses of a block. -/
def fill (memory : NativeMemory) (start : Address) (count : Nat) (byte : UInt8) : NativeMemory :=
  fun place => if (place - start).toNat < count then byte else memory place

theorem covers_offset {offset : Nat} (inside : offset < count) :
    start.Covers count (start + BitVec.ofNat 64 offset) := by
  have back : start + BitVec.ofNat 64 offset - start = BitVec.ofNat 64 offset := by
    rw [BitVec.add_comm, BitVec.add_sub_cancel]
  rw [Address.Covers, back, BitVec.toNat_ofNat]
  exact Nat.lt_of_le_of_lt (Nat.mod_le _ _) inside

theorem read_congr (agrees : memory.AgreesOn other (start.Covers count)) :
    memory.read start count = other.read start count :=
  List.map_congr_left fun _ inside => agrees _ (covers_offset (List.mem_range.mp inside))

/-- What is written is read back. -/
theorem read_write (short : bytes.length ≤ 2 ^ 64) :
    (memory.write start bytes).read start bytes.length = bytes := by
  apply List.ext_getElem?
  intro offset
  rw [read, List.getElem?_map]
  by_cases inside : offset < bytes.length
  · have back : start + BitVec.ofNat 64 offset - start = BitVec.ofNat 64 offset := by
      rw [BitVec.add_comm, BitVec.add_sub_cancel]
    rw [List.getElem?_range inside, Option.map_some, write, back, BitVec.toNat_ofNat,
      Nat.mod_eq_of_lt (Nat.lt_of_lt_of_le inside short), List.getElem?_eq_getElem inside]
    rfl
  · rw [List.getElem?_eq_none (by simpa using inside), List.getElem?_eq_none (by simpa using inside)]
    rfl

/-- Writing changes no other byte. -/
theorem write_agreesOn (memory : NativeMemory) (start : Address) (bytes : Bytes) :
    (memory.write start bytes).AgreesOn memory fun place => ¬ start.Covers bytes.length place := by
  intro place outside
  rw [write, List.getElem?_eq_none (Nat.le_of_not_lt outside)]
  rfl

theorem fill_agreesOn (memory : NativeMemory) (start : Address) (count : Nat) (byte : UInt8) :
    (memory.fill start count byte).AgreesOn memory fun place => ¬ start.Covers count place :=
  fun _ outside => if_neg outside

end NativeMemory

/-! ## Values in memory -/

/-- How the values of a type lie in native memory. -/
inductive Shape
  | primitive (kind : NativeKind)
  /-- The bytes of a struct, so many of them. -/
  | block (size : Nat)

namespace Shape

def size : Shape → Nat
  | primitive kind => kind.size
  | block size => size

theorem size_primitive_le (kind : NativeKind) : (primitive kind).size ≤ 2 ^ 64 := by
  cases kind <;> decide

/-- The value that lies at an address. -/
def load (shape : Shape) (memory : NativeMemory) (start : Address) : Value :=
  match shape with
  | primitive kind => kind.load (memory.read start kind.size).toNat
  | block size => .block (memory.read start size)

/-- The bytes of a value. -/
def bytes? (shape : Shape) (value : Value) : Option Bytes :=
  match shape, value with
  | primitive kind, _ => (kind.store? value).map (Bytes.littleEndian kind.size)
  | block size, .block contents => if contents.length = size then some contents else none
  | block _, _ => none

/-- The value is one of the shape, and in its range. -/
def Holds (shape : Shape) (value : Value) : Prop :=
  match shape with
  | primitive kind => kind.Holds value
  | block size => ∃ contents, value = .block contents ∧ contents.length = size

variable {shape : Shape} {value : Value} {memory other : NativeMemory} {start : Address}

theorem load_congr (agrees : memory.AgreesOn other (start.Covers shape.size)) :
    shape.load memory start = shape.load other start := by
  cases shape with
  | primitive kind =>
    have same : memory.read start kind.size = other.read start kind.size :=
      NativeMemory.read_congr agrees
    rw [load, load, same]
  | block size => exact congrArg Value.block (NativeMemory.read_congr agrees)

/-- A value of a shape is read back from its bytes. -/
theorem load_write (holds : shape.Holds value) (fits : shape.size ≤ 2 ^ 64) :
    ∃ bytes, shape.bytes? value = some bytes ∧ bytes.length = shape.size ∧
      ∀ memory : NativeMemory, ∀ start, shape.load (memory.write start bytes) start = value := by
  cases shape with
  | primitive kind =>
    rcases NativeKind.load_of_store? holds with ⟨number, stored, loaded⟩
    have length := Bytes.length_littleEndian kind.size number
    refine ⟨_, congrArg (Option.map _) stored, length, fun memory start => ?_⟩
    have back : (memory.write start _).read start _ = Bytes.littleEndian kind.size number :=
      NativeMemory.read_write (Nat.le_trans (Nat.le_of_eq length) fits)
    rw [length] at back
    have power : Nat.pow 256 kind.size = 2 ^ (8 * kind.size) := (Nat.pow_mul 2 8 kind.size).symm
    rw [load, back, Bytes.toNat_littleEndian, power, loaded]
  | block size =>
    rcases holds with ⟨contents, rfl, rfl⟩
    refine ⟨contents, if_pos rfl, rfl, fun memory start => ?_⟩
    exact congrArg Value.block (NativeMemory.read_write fits)

end Shape

/-! ## States -/

/-- What a running program works on. -/
structure MachineState where
  memory : NativeMemory
  cells : Cell → Value
  statics : MemberRef → Value
  /-- How many frames there have been; the next one has this number. -/
  frames : Nat
  /-- Where memory begins that was never allocated. -/
  extent : Nat

namespace MachineState

/-- The state with another value in a variable. -/
def setVariable (state : MachineState) (place : Cell) (value : Value) : MachineState :=
  { state with cells := Function.update state.cells place value }

theorem setVariable_cells_self (state : MachineState) (place : Cell) (value : Value) :
    (state.setVariable place value).cells place = value :=
  Function.update_self _ _ _

theorem setVariable_cells_of_ne {state : MachineState} {place other : Cell} {value : Value}
    (apart : other ≠ place) : (state.setVariable place value).cells other = state.cells other :=
  Function.update_of_ne apart _ _

/-- The state with another value in a static field. -/
def setStatic (state : MachineState) (member : MemberRef) (value : Value) : MachineState :=
  { state with statics := Function.update state.statics member value }

/-- The variables of a new frame hold the arguments and the initial values of local variables. -/
def enter (state : MachineState) (arguments locals : List Value) : MachineState :=
  { state with
    frames := state.frames + 1
    cells := fun place =>
      match place with
      | .argument frame index =>
        if frame = state.frames then arguments.getD index .null else state.cells place
      | .localVariable frame index =>
        if frame = state.frames then locals.getD index .null else state.cells place
      | .field _ _ => state.cells place }

end MachineState

end NativeWeave
