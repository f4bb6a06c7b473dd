import NativeWeave.NativeKind

namespace NativeWeave

/-!
# Operations of the stack machine

Operations are grouped by the operand they take, since the operand decides how an instruction
is stored, what it may refer to and which edits concern it.  An opcode is one byte; bytes that no
operation uses are not opcodes.
-/

/-- Operations without an operand. -/
inductive PlainOp
  | nop
  | pop
  | dup
  /-- Push the null reference. -/
  | null
  | add
  | sub
  | mul
  /-- Convert the top of the stack to a native integer. -/
  | toNative
  /-- Convert the top of the stack to a 32-bit integer. -/
  | toInt32
  | equal
  | less
  | greater
  /-- Leave the method. -/
  | ret
  /-- Fill a block: pop its size, the byte and its address. -/
  | initBlock
  /-- Allocate memory in the frame: pop a size, push an address. -/
  | localAlloc
  | throw
deriving DecidableEq, Repr

/-- Jumps; the operand is the place to go on from. -/
inductive JumpOp
  | always
  | ifTrue
  | ifFalse
deriving DecidableEq, Repr

/-- Operations on an argument or a local variable. -/
inductive SlotOp
  | loadArg
  | storeArg
  | loadArgAddress
  | loadLocal
  | storeLocal
  | loadLocalAddress
deriving DecidableEq, Repr

/-- Operations on a field or a method; the operand is a member token. -/
inductive MemberOp
  | call
  /-- A call that the receiver's own type decides. -/
  | callVirtual
  /-- Allocate an object and run a constructor on it. -/
  | newObject
  | loadField
  | storeField
  | loadFieldAddress
  | loadStatic
  | storeStatic
deriving DecidableEq, Repr

/-- Operations on a type; the operand is a type token. -/
inductive TypeOp
  | castClass
  /-- Copy a value out of an address. -/
  | loadObject
  /-- Copy a value into an address. -/
  | storeObject
deriving DecidableEq, Repr

/-- Access to a primitive in native memory. -/
inductive IndirectOp
  | load
  | store
deriving DecidableEq, Repr

/-- An operation without its operand. -/
inductive Opcode
  | plain (op : PlainOp)
  | constI32
  | constI64
  | constF32
  | constF64
  | constString
  | slot (op : SlotOp)
  | jump (op : JumpOp)
  | member (op : MemberOp)
  | type (op : TypeOp)
  | indirect (op : IndirectOp)
deriving DecidableEq, Repr

namespace Opcode

/-- The byte that stands for an operation in stored code. -/
def toByte : Opcode → UInt8
  | plain .nop => 0x00
  | plain .pop => 0x01
  | plain .dup => 0x02
  | plain .null => 0x04
  | constI32 => 0x07
  | constI64 => 0x08
  | constF32 => 0x09
  | constF64 => 0x0A
  | constString => 0x0B
  | slot .loadArg => 0x10
  | slot .storeArg => 0x11
  | slot .loadArgAddress => 0x12
  | slot .loadLocal => 0x13
  | slot .storeLocal => 0x14
  | slot .loadLocalAddress => 0x15
  | plain .add => 0x20
  | plain .sub => 0x21
  | plain .mul => 0x22
  | plain .toNative => 0x28
  | plain .toInt32 => 0x29
  | plain .equal => 0x50
  | plain .less => 0x51
  | plain .greater => 0x52
  | jump .always => 0x90
  | jump .ifTrue => 0x91
  | jump .ifFalse => 0x92
  | member .call => 0xA0
  | member .callVirtual => 0xA1
  | member .newObject => 0xA2
  | plain .ret => 0xA3
  | member .loadField => 0xB0
  | member .storeField => 0xB1
  | member .loadFieldAddress => 0xB2
  | member .loadStatic => 0xB3
  | member .storeStatic => 0xB4
  | type .castClass => 0xB5
  | type .loadObject => 0xB6
  | type .storeObject => 0xB7
  | indirect .load => 0xC0
  | indirect .store => 0xC1
  | plain .initBlock => 0xC2
  | plain .localAlloc => 0xC3
  | plain .throw => 0xE0

/-- The operation that a byte stands for, if it is in use. -/
def ofByte? : UInt8 → Option Opcode
  | 0x00 => some (plain .nop)
  | 0x01 => some (plain .pop)
  | 0x02 => some (plain .dup)
  | 0x04 => some (plain .null)
  | 0x07 => some constI32
  | 0x08 => some constI64
  | 0x09 => some constF32
  | 0x0A => some constF64
  | 0x0B => some constString
  | 0x10 => some (slot .loadArg)
  | 0x11 => some (slot .storeArg)
  | 0x12 => some (slot .loadArgAddress)
  | 0x13 => some (slot .loadLocal)
  | 0x14 => some (slot .storeLocal)
  | 0x15 => some (slot .loadLocalAddress)
  | 0x20 => some (plain .add)
  | 0x21 => some (plain .sub)
  | 0x22 => some (plain .mul)
  | 0x28 => some (plain .toNative)
  | 0x29 => some (plain .toInt32)
  | 0x50 => some (plain .equal)
  | 0x51 => some (plain .less)
  | 0x52 => some (plain .greater)
  | 0x90 => some (jump .always)
  | 0x91 => some (jump .ifTrue)
  | 0x92 => some (jump .ifFalse)
  | 0xA0 => some (member .call)
  | 0xA1 => some (member .callVirtual)
  | 0xA2 => some (member .newObject)
  | 0xA3 => some (plain .ret)
  | 0xB0 => some (member .loadField)
  | 0xB1 => some (member .storeField)
  | 0xB2 => some (member .loadFieldAddress)
  | 0xB3 => some (member .loadStatic)
  | 0xB4 => some (member .storeStatic)
  | 0xB5 => some (type .castClass)
  | 0xB6 => some (type .loadObject)
  | 0xB7 => some (type .storeObject)
  | 0xC0 => some (indirect .load)
  | 0xC1 => some (indirect .store)
  | 0xC2 => some (plain .initBlock)
  | 0xC3 => some (plain .localAlloc)
  | 0xE0 => some (plain .throw)
  | _ => none

@[simp] theorem ofByte?_toByte (opcode : Opcode) : ofByte? opcode.toByte = some opcode := by
  rcases opcode with op | _ | _ | _ | _ | _ | op | op | op | op | op <;>
    first | rfl | (cases op <;> rfl)

/-- The mnemonic of an operation in listings. -/
def mnemonic : Opcode → String
  | plain .nop => "nop"
  | plain .pop => "pop"
  | plain .dup => "dup"
  | plain .null => "const.null"
  | constI32 => "const.i32"
  | constI64 => "const.i64"
  | constF32 => "const.f32"
  | constF64 => "const.f64"
  | constString => "const.str"
  | slot .loadArg => "ldarg"
  | slot .storeArg => "starg"
  | slot .loadArgAddress => "ldarga"
  | slot .loadLocal => "ldloc"
  | slot .storeLocal => "stloc"
  | slot .loadLocalAddress => "ldloca"
  | plain .add => "add"
  | plain .sub => "sub"
  | plain .mul => "mul"
  | plain .toNative => "conv.i"
  | plain .toInt32 => "conv.i4"
  | plain .equal => "ceq"
  | plain .less => "clt"
  | plain .greater => "cgt"
  | jump .always => "jmp"
  | jump .ifTrue => "jmp.true"
  | jump .ifFalse => "jmp.false"
  | member .call => "call"
  | member .callVirtual => "callvirt"
  | member .newObject => "newobj"
  | plain .ret => "ret"
  | member .loadField => "ldfld"
  | member .storeField => "stfld"
  | member .loadFieldAddress => "ldflda"
  | member .loadStatic => "ldsfld"
  | member .storeStatic => "stsfld"
  | type .castClass => "castclass"
  | type .loadObject => "ldobj"
  | type .storeObject => "stobj"
  | indirect .load => "ldind"
  | indirect .store => "stind"
  | plain .initBlock => "initblk"
  | plain .localAlloc => "localloc"
  | plain .throw => "throw"

/-- Every operation, in the order of their bytes. -/
def all : List Opcode :=
  (List.range 256).filterMap fun byte => ofByte? (UInt8.ofNat byte)

/-- The operation with the given mnemonic. -/
def ofMnemonic? (text : String) : Option Opcode :=
  all.find? (·.mnemonic == text)

/-- How many bytes the operand behind an opcode takes. -/
def operandSize : Opcode → Nat
  | plain _ => 0
  | indirect _ => 1
  | slot _ => 2
  | constI32 | constF32 | constString | jump _ | member _ | type _ => 4
  | constI64 | constF64 => 8

/-- Control never goes on to the next instruction after these operations. -/
def isTerminator : Opcode → Bool
  | plain .ret | plain .throw | jump .always => true
  | _ => false

end Opcode

end NativeWeave
