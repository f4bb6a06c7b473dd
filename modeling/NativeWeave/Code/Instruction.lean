import NativeWeave.Code.Opcode

namespace NativeWeave

/-!
# Instructions

An instruction is an operation with its operand.  What a jump names as its target depends on the
setting: a stored jump holds a displacement in bytes, a jump in an editable sequence the index
of an instruction, and a jump under construction the number of a label.  The type of targets is
therefore a parameter, and passing from one setting to another maps the targets alone.

Floating-point constants are kept as their bits, so that every bit pattern survives.
-/

/-- An operation with its operand; jumps name their target by a `Target`. -/
inductive Instruction (Target : Type)
  | plain (op : PlainOp)
  | constI32 (value : Int32)
  | constI64 (value : Int64)
  | constF32 (bits : UInt32)
  | constF64 (bits : UInt64)
  /-- Push the text at an index of the string pool. -/
  | constString (index : UInt32)
  | slot (op : SlotOp) (index : UInt16)
  | jump (op : JumpOp) (target : Target)
  | member (op : MemberOp) (token : UInt32)
  | type (op : TypeOp) (token : UInt32)
  | indirect (op : IndirectOp) (kind : NativeKind)
deriving DecidableEq, Repr

/-- An instruction whose jumps name the index of an instruction in the same sequence. -/
abbrev Instr := Instruction Nat

namespace Instruction

variable {Source Target : Type}

/-- The operation without its operand. -/
def opcode : Instruction Target → Opcode
  | plain op => .plain op
  | constI32 _ => .constI32
  | constI64 _ => .constI64
  | constF32 _ => .constF32
  | constF64 _ => .constF64
  | constString _ => .constString
  | slot op _ => .slot op
  | jump op _ => .jump op
  | member op _ => .member op
  | type op _ => .type op
  | indirect op _ => .indirect op

/-- How many bytes a stored instruction takes. -/
def size (instr : Instruction Target) : Nat :=
  1 + instr.opcode.operandSize

/-- Control never goes on to the next instruction. -/
def isTerminator (instr : Instruction Target) : Bool :=
  instr.opcode.isTerminator

/-- The target of a jump. -/
def target? : Instruction Target → Option Target
  | jump _ target => some target
  | _ => none

/-- The token of the member that an instruction refers to. -/
def memberToken? : Instruction Target → Option UInt32
  | member _ token => some token
  | _ => none

/-- The token of the type that an instruction refers to. -/
def typeToken? : Instruction Target → Option UInt32
  | type _ token => some token
  | _ => none

/-- Rename the target of a jump; every other instruction stays. -/
def mapTarget (rename : Source → Target) : Instruction Source → Instruction Target
  | plain op => plain op
  | constI32 value => constI32 value
  | constI64 value => constI64 value
  | constF32 bits => constF32 bits
  | constF64 bits => constF64 bits
  | constString index => constString index
  | slot op index => slot op index
  | jump op target => jump op (rename target)
  | member op token => member op token
  | type op token => type op token
  | indirect op kind => indirect op kind

/-- Rename the target of a jump by a function that can fail. -/
def resolveTarget {Cause : Type} (resolve : Source → Except Cause Target) :
    Instruction Source → Except Cause (Instruction Target)
  | plain op => .ok (plain op)
  | constI32 value => .ok (constI32 value)
  | constI64 value => .ok (constI64 value)
  | constF32 bits => .ok (constF32 bits)
  | constF64 bits => .ok (constF64 bits)
  | constString index => .ok (constString index)
  | slot op index => .ok (slot op index)
  | jump op target => (resolve target).map (jump op)
  | member op token => .ok (member op token)
  | type op token => .ok (type op token)
  | indirect op kind => .ok (indirect op kind)

@[simp] theorem opcode_mapTarget (rename : Source → Target) (instr : Instruction Source) :
    (instr.mapTarget rename).opcode = instr.opcode := by
  cases instr <;> rfl

@[simp] theorem size_mapTarget (rename : Source → Target) (instr : Instruction Source) :
    (instr.mapTarget rename).size = instr.size := by
  simp [size]

end Instruction

namespace Instr

/-! ## Short names for the instructions that generated code is made of -/

def loadArg (index : UInt16) : Instr := .slot .loadArg index
def loadArgAddress (index : UInt16) : Instr := .slot .loadArgAddress index
def loadLocal (index : UInt16) : Instr := .slot .loadLocal index
def storeLocal (index : UInt16) : Instr := .slot .storeLocal index
def loadLocalAddress (index : UInt16) : Instr := .slot .loadLocalAddress index
def call (token : UInt32) : Instr := .member .call token
def callVirtual (token : UInt32) : Instr := .member .callVirtual token
def newObject (token : UInt32) : Instr := .member .newObject token
def loadField (token : UInt32) : Instr := .member .loadField token
def storeField (token : UInt32) : Instr := .member .storeField token
def loadFieldAddress (token : UInt32) : Instr := .member .loadFieldAddress token
def loadStatic (token : UInt32) : Instr := .member .loadStatic token
def storeStatic (token : UInt32) : Instr := .member .storeStatic token
def castClass (token : UInt32) : Instr := .type .castClass token
def loadObject (token : UInt32) : Instr := .type .loadObject token
def storeObject (token : UInt32) : Instr := .type .storeObject token
def ret : Instr := .plain .ret

end Instr

end NativeWeave
