import NativeWeave.Bytes.Codec
import NativeWeave.Code.Basic

namespace NativeWeave

/-!
# The stored form of code

A stored instruction is its opcode byte and its operand; a stored jump holds the distance from its
own end to its target as a signed 32-bit number.  Code is read in two passes: first the
instructions with their displacements, then each displacement is resolved to the instruction that
starts at the place it names.  A place inside an operand, before the code or at its end is no
target.
-/

namespace Instruction

/-- The bytes of the operand. -/
def operandBytes : Instruction Int32 → Bytes
  | plain _ => []
  | constI32 value => Codec.i32.encode value
  | constI64 value => Codec.i64.encode value
  | constF32 bits => Codec.u32.encode bits
  | constF64 bits => Codec.u64.encode bits
  | constString index => Codec.u32.encode index
  | slot _ index => Codec.u16.encode index
  | jump _ displacement => Codec.i32.encode displacement
  | member _ token => Codec.u32.encode token
  | type _ token => Codec.u32.encode token
  | indirect _ kind => [kind.toByte]

/-- The byte that stands for a kind of primitive. -/
def kindCodec : Codec NativeKind :=
  .enumeration .nativeKind NativeKind.toByte NativeKind.ofByte?

/-- Read the operand that belongs to an operation. -/
def decodeOperand : Opcode → Decoder (Instruction Int32)
  | .plain op => pure (plain op)
  | .constI32 => constI32 <$> Codec.i32.decode
  | .constI64 => constI64 <$> Codec.i64.decode
  | .constF32 => constF32 <$> Codec.u32.decode
  | .constF64 => constF64 <$> Codec.u64.decode
  | .constString => constString <$> Codec.u32.decode
  | .slot op => slot op <$> Codec.u16.decode
  | .jump op => jump op <$> Codec.i32.decode
  | .member op => member op <$> Codec.u32.decode
  | .type op => type op <$> Codec.u32.decode
  | .indirect op => indirect op <$> kindCodec.decode

end Instruction

/-- An opcode byte. -/
def Opcode.codec : Codec Opcode where
  encode opcode := [opcode.toByte]
  decode := do
    let start ← Decoder.offset
    let byte ← Codec.u8.decode
    match Opcode.ofByte? byte with
    | some opcode => pure opcode
    | none => throw (.invalidOpcode byte start)

namespace Instruction

/-- An opcode byte and the operand that belongs to it. -/
def codec : Codec (Instruction Int32) where
  encode instr := Opcode.codec.encode instr.opcode ++ instr.operandBytes
  decode := do
    let opcode ← Opcode.codec.decode
    decodeOperand opcode

/-- Read instructions to the end of the input, at most `limit` of them.  Each takes at least its
opcode byte, so the number of bytes is always enough of a limit. -/
def decodeStream : (limit : Nat) → Decoder (List (Instruction Int32))
  | 0 => pure []
  | limit + 1 => fun cursor =>
    if cursor.rest.isEmpty then
      .ok [] cursor
    else
      (do
        let first ← codec.decode
        let others ← decodeStream limit
        pure (first :: others)) cursor

end Instruction

namespace Code

/-- Where each instruction starts when the first one starts at `start`. -/
def offsetsFrom {Target : Type} (start : Nat) : List (Instruction Target) → List Nat
  | [] => []
  | instr :: more => start :: offsetsFrom (start + instr.size) more

/-- The byte offset of every instruction. -/
def offsets (code : Code) : List Nat :=
  offsetsFrom 0 code.instrs

/-- How many bytes the stored code takes. -/
def byteSize (code : Code) : Nat :=
  code.instrs.foldr (fun instr total => instr.size + total) 0

/-- The index of the instruction that starts `displacement` bytes behind the offset `behind`. -/
def targetIndex (starts : List Nat) (offset behind : Nat) (displacement : Int32) :
    Except DecodeError Nat :=
  let target : Int := behind + displacement.toInt
  match (if 0 ≤ target then starts.idxOf? target.toNat else none) with
  | some index => .ok index
  | none => .error (.invalidBranchTarget offset target)

/-- Resolve displacements to the instructions that start at the places they name. -/
def resolveFrom (starts : List Nat) : (start : Nat) → List (Instruction Int32) →
    Except DecodeError (List Instr)
  | _, [] => .ok []
  | start, instr :: more => do
    let resolved ← instr.resolveTarget (targetIndex starts start (start + instr.size))
    let others ← resolveFrom starts (start + instr.size) more
    return resolved :: others

/-- Read stored code. -/
def decode (bytes : Bytes) : Except DecodeError Code := do
  let stored ← (Instruction.decodeStream bytes.length).decode bytes
  let instrs ← resolveFrom (offsetsFrom 0 stored) 0 stored
  return { instrs }

/-- The distance from the offset `behind` to the instruction at an index.  An index past the last
instruction names the end of the code. -/
def displacement (starts : List Nat) (total behind index : Nat) : Int32 :=
  Int32.ofInt ((starts.getD index total : Int) - behind)

/-- The bytes of instructions of which the first starts at `start`. -/
def encodeFrom (starts : List Nat) (total : Nat) : (start : Nat) → List Instr → Bytes
  | _, [] => []
  | start, instr :: more =>
    let behind := start + instr.size
    Instruction.codec.encode (instr.mapTarget (displacement starts total behind))
      ++ encodeFrom starts total behind more

/-- The bytes of code. -/
def encode (code : Code) : Bytes :=
  encodeFrom code.offsets code.byteSize 0 code.instrs

end Code

end NativeWeave
