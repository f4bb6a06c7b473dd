import NativeWeave.Module.Basic

namespace NativeWeave

/-!
# What a method body has to satisfy

Before generated code is trusted, every operand has to name something that exists and is of the
right kind, and the evaluation stack has to have one depth at each instruction whatever path leads
there.  This module holds the conditions on single instructions: which operands are in range, how
an instruction changes the depth of the stack, and where control goes after it.
-/

/-- Why a method body is refused.  Offsets are byte offsets in its code. -/
inductive VerifyError
  | decode (cause : DecodeError)
  | stackUnderflow (offset : Nat)
  | stackOverflow (offset depth : Nat)
  /-- Two paths reach the instruction with different depths of the stack. -/
  | stackMismatch (offset first second : Nat)
  /-- Values are left on the stack when the method returns. -/
  | unbalancedReturn (offset depth : Nat)
  | invalidToken (token : UInt32) (offset : Nat)
  /-- The instruction cannot be used on a member of this kind. -/
  | wrongMemberKind (token : UInt32) (offset : Nat)
  | invalidConstant (index : UInt32) (offset : Nat)
  | invalidLocal (index : UInt16) (limit offset : Nat)
  | invalidArgument (index : UInt16) (limit offset : Nat)
  /-- Control can run past the last instruction. -/
  | fallOffEnd (offset : Nat)
  /-- The module as a whole is refused, for the reason given. -/
  | module (reason : String)
deriving DecidableEq, Repr

/-- Text of a verification error. -/
def VerifyError.message : VerifyError → String
  | decode cause => "Decode error: " ++ cause.message
  | stackUnderflow offset => s!"Stack underflow at offset {offset}"
  | stackOverflow offset depth => s!"Stack overflow at offset {offset} (depth: {depth})"
  | stackMismatch offset first second =>
    s!"Inconsistent stack depth at offset {offset}: {first} vs {second}"
  | unbalancedReturn offset depth =>
    s!"Unbalanced stack at return (offset {offset}, depth {depth})"
  | invalidToken token offset => s!"Invalid token {token} at offset {offset}"
  | wrongMemberKind token offset => s!"Token {token} at offset {offset} has the wrong member kind"
  | invalidConstant index offset =>
    s!"Invalid constant pool reference: index {index} at offset {offset}"
  | invalidLocal index limit offset =>
    s!"Invalid local variable reference: index {index} (max {limit}) at offset {offset}"
  | invalidArgument index limit offset =>
    s!"Invalid argument reference: index {index} (max {limit}) at offset {offset}"
  | fallOffEnd offset => s!"Execution falls off end of method at offset {offset}"
  | module reason => "Module validation error: " ++ reason

/-- What the conditions on an instruction depend on besides the instruction. -/
structure Frame where
  tables : Tables
  /-- How many arguments the method has, the receiver among them. -/
  arguments : Nat
  locals : Nat
  /-- The method returns a value. -/
  returnsValue : Bool
deriving DecidableEq, Repr

/-- The frame in which the body of a method runs. -/
def Method.frame (method : Method) (tables : Tables) (body : Body) : Frame where
  tables := tables
  arguments := method.argumentCount
  locals := body.locals.length
  returnsValue := !method.result.isVoid

namespace Frame

/-- The operation can be used on the member: calls on methods, object creation on instance
constructors, and field access on fields of the same staticness. -/
def accepts (op : MemberOp) (member : MemberRef) : Bool :=
  match op, member.kind with
  | .call, .method _ | .callVirtual, .method _ => true
  | .newObject, .method _ => member.isConstructor
  | .loadField, .field _ isStatic | .storeField, .field _ isStatic
  | .loadFieldAddress, .field _ isStatic => !isStatic
  | .loadStatic, .field _ isStatic | .storeStatic, .field _ isStatic => isStatic
  | _, _ => false

/-- Check that the operand of the instruction at a byte offset names something that exists and that
the instruction can be used on. -/
def checkOperand (frame : Frame) (instr : Instr) (offset : Nat) : Except VerifyError Unit :=
  match instr with
  | .slot op index =>
    match op with
    | .loadLocal | .storeLocal | .loadLocalAddress =>
      if index.toNat < frame.locals then .ok ()
      else .error (.invalidLocal index frame.locals offset)
    | .loadArg | .storeArg | .loadArgAddress =>
      if index.toNat < frame.arguments then .ok ()
      else .error (.invalidArgument index frame.arguments offset)
  | .constString index =>
    if (frame.tables.string? index).isSome then .ok () else .error (.invalidConstant index offset)
  | .member op token =>
    match frame.tables.member? token with
    | none => .error (.invalidToken token offset)
    | some member =>
      if accepts op member then .ok () else .error (.wrongMemberKind token offset)
  | .type _ token =>
    if (frame.tables.type? token).isSome then .ok () else .error (.invalidToken token offset)
  | _ => .ok ()

/-- How many values an instruction takes from the stack, and how many it puts there afterwards. -/
structure Effect where
  pops : Nat
  pushes : Nat
deriving DecidableEq, Repr

/-- The stack effect of an operation without operand. -/
def plainEffect (frame : Frame) : PlainOp → Effect
  | .nop => ⟨0, 0⟩
  | .pop | .throw => ⟨1, 0⟩
  | .dup => ⟨1, 2⟩
  | .null => ⟨0, 1⟩
  | .add | .sub | .mul | .equal | .less | .greater => ⟨2, 1⟩
  | .toNative | .toInt32 | .localAlloc => ⟨1, 1⟩
  | .initBlock => ⟨3, 0⟩
  | .ret => ⟨if frame.returnsValue then 1 else 0, 0⟩

/-- The stack effect of an operation on a member.  A call takes the arguments and the receiver and
leaves the result unless there is none. -/
def memberEffect (op : MemberOp) (signature? : Option MethodSignature) : Effect :=
  match op, signature? with
  | .call, some signature | .callVirtual, some signature =>
    ⟨signature.parameters.length + (if signature.hasThis then 1 else 0),
      if signature.result.isVoid then 0 else 1⟩
  | .call, none | .callVirtual, none => ⟨0, 0⟩
  | .newObject, some signature => ⟨signature.parameters.length, 1⟩
  | .newObject, none => ⟨0, 1⟩
  | .loadField, _ | .loadFieldAddress, _ => ⟨1, 1⟩
  | .storeField, _ => ⟨2, 0⟩
  | .loadStatic, _ => ⟨0, 1⟩
  | .storeStatic, _ => ⟨1, 0⟩

/-- The stack effect of an instruction. -/
def effect (frame : Frame) : Instr → Effect
  | .plain op => frame.plainEffect op
  | .constI32 _ | .constI64 _ | .constF32 _ | .constF64 _ | .constString _ => ⟨0, 1⟩
  | .slot op _ =>
    match op with
    | .loadArg | .loadArgAddress | .loadLocal | .loadLocalAddress => ⟨0, 1⟩
    | .storeArg | .storeLocal => ⟨1, 0⟩
  | .jump .always _ => ⟨0, 0⟩
  | .jump .ifTrue _ | .jump .ifFalse _ => ⟨1, 0⟩
  | .member op token => memberEffect op ((frame.tables.member? token).bind (·.methodSignature?))
  | .type .castClass _ | .type .loadObject _ => ⟨1, 1⟩
  | .type .storeObject _ => ⟨2, 0⟩
  | .indirect .load _ => ⟨1, 1⟩
  | .indirect .store _ => ⟨2, 0⟩

/-- The deepest the stack may become. -/
def maxDepth : Nat := 1024

/-- The depth of the stack after an instruction that is reached with the given depth. -/
def depthAfter (frame : Frame) (instr : Instr) (offset depth : Nat) : Except VerifyError Nat :=
  let effect := frame.effect instr
  if depth < effect.pops then
    .error (.stackUnderflow offset)
  else
    let after := depth - effect.pops + effect.pushes
    if maxDepth < after then
      .error (.stackOverflow offset after)
    else if instr = Instr.ret ∧ after ≠ 0 then
      .error (.unbalancedReturn offset after)
    else
      .ok after

end Frame

end NativeWeave
