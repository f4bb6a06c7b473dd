import NativeWeave.Signature.Basic

namespace NativeWeave

/-!
# Primitive widths in native memory

Indirect loads and stores move one primitive between the evaluation stack and native memory.
The kind of the access fixes how many bytes are touched and how they are read.
-/

/-- The primitive that an indirect access moves. -/
inductive NativeKind
  | i8 | u8 | i16 | u16 | i32 | u32 | i64 | u64 | f32 | f64
  /-- An integer as wide as a pointer. -/
  | pointer
deriving DecidableEq, Repr

namespace NativeKind

def all : List NativeKind := [i8, u8, i16, u16, i32, u32, i64, u64, f32, f64, pointer]

/-- The byte that stands for a kind in stored code. -/
def toByte : NativeKind → UInt8
  | i8 => 0 | u8 => 1 | i16 => 2 | u16 => 3 | i32 => 4 | u32 => 5 | i64 => 6 | u64 => 7
  | f32 => 8 | f64 => 9 | pointer => 10

/-- The kind that a byte in stored code stands for. -/
def ofByte? : UInt8 → Option NativeKind
  | 0 => some i8 | 1 => some u8 | 2 => some i16 | 3 => some u16 | 4 => some i32 | 5 => some u32
  | 6 => some i64 | 7 => some u64 | 8 => some f32 | 9 => some f64 | 10 => some pointer
  | _ => none

@[simp] theorem ofByte?_toByte (kind : NativeKind) : ofByte? kind.toByte = some kind := by
  cases kind <;> rfl

/-- How many bytes of memory a kind takes.  Pointers have eight on every target. -/
def size : NativeKind → Nat
  | i8 | u8 => 1
  | i16 | u16 => 2
  | i32 | u32 | f32 => 4
  | i64 | u64 | f64 | pointer => 8

/-- The name of a kind. -/
def name : NativeKind → String
  | i8 => "i8" | u8 => "u8" | i16 => "i16" | u16 => "u16" | i32 => "i32" | u32 => "u32"
  | i64 => "i64" | u64 => "u64" | f32 => "f32" | f64 => "f64" | pointer => "ptr"

/-- The kind with the given name. -/
def ofName? (text : String) : Option NativeKind :=
  all.find? (·.name == text)

/-- The kind by which a primitive is moved.  A truth value moves as one byte and a character as
two. -/
def ofPrimitive? : Primitive → Option NativeKind
  | .i8 => some i8
  | .u8 | .bool => some u8
  | .i16 => some i16
  | .u16 | .char => some u16
  | .i32 => some i32
  | .u32 => some u32
  | .i64 => some i64
  | .u64 => some u64
  | .f32 => some f32
  | .f64 => some f64
  | .intPtr => some pointer
  | .void | .string | .object => none

/-- The kind by which values of a type are moved, if they are a single primitive. -/
def ofSignature? : Signature → Option NativeKind
  | .primitive kind => ofPrimitive? kind
  | _ => none

end NativeKind

end NativeWeave
