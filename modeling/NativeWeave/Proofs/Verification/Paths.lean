import NativeWeave.Verification.Stack

namespace NativeWeave

/-!
# What it means for a body to be in order

The conditions of this module are stated without the check.  Operands are compared with the tables
and with the frame by membership and by bounds.  Paths are all ways in which control can move from
the first instruction on, and the depth of the stack along a path is an integer, so that a path may
be followed past an instruction that takes more values than there are.  A body is in order if every
instruction has its operand, the last one is a terminator, and every path, however long, keeps the
stack within its limits.
-/

namespace Frame

/-! ## Operands -/

/-- The members that an operation works on. -/
def Suits (op : MemberOp) (member : MemberRef) : Prop :=
  match op with
  | .call | .callVirtual => ∃ signature, member.kind = .method signature
  | .newObject =>
    member.name = ".ctor" ∧ ∃ signature, member.kind = .method signature ∧ signature.hasThis = true
  | .loadField | .storeField | .loadFieldAddress => ∃ type, member.kind = .field type false
  | .loadStatic | .storeStatic => ∃ type, member.kind = .field type true

theorem accepts_iff_suits (op : MemberOp) (member : MemberRef) :
    accepts op member = true ↔ Suits op member := by
  rcases member with ⟨owner, name, kind⟩
  cases kind with
  | field type isStatic => cases op <;> cases isStatic <;> simp [accepts, Suits]
  | method signature =>
    cases op <;> simp [accepts, Suits, MemberRef.isConstructor, MemberRef.methodSignature?,
      Method.constructorName]

/-- The operand names something that exists and that the instruction can be used on. -/
def OperandFits (frame : Frame) : Instr → Prop
  | .slot op index =>
    match op with
    | .loadLocal | .storeLocal | .loadLocalAddress => index.toNat < frame.locals
    | .loadArg | .storeArg | .loadArgAddress => index.toNat < frame.arguments
  | .constString index => index.toNat < frame.tables.strings.length
  | .member op token =>
    ∃ member, frame.tables.members[token.toNat]? = some member ∧ Suits op member
  | .type _ token => token.toNat < frame.tables.types.length
  | _ => True

theorem checkOperand_eq_ok_iff (frame : Frame) (instr : Instr) (offset : Nat) :
    frame.checkOperand instr offset = .ok () ↔ frame.OperandFits instr := by
  cases instr with
  | slot op index => cases op <;> simp [checkOperand, OperandFits]
  | constString index => simp [checkOperand, OperandFits, Tables.string?]
  | type op token => simp [checkOperand, OperandFits, Tables.type?]
  | member op token =>
    cases found : frame.tables.members[token.toNat]? with
    | none => simp [checkOperand, OperandFits, Tables.member?, found]
    | some member =>
      simp [checkOperand, OperandFits, Tables.member?, found, accepts_iff_suits]
  | _ => simp [checkOperand, OperandFits]

/-- The operands of a sequence are in order exactly if each of them is; where the instructions
start matters to the report of a failure only. -/
theorem checkOperands_eq_ok_iff (frame : Frame) (start : Nat) (instrs : List Instr) :
    frame.checkOperands start instrs = .ok () ↔ ∀ instr ∈ instrs, frame.OperandFits instr := by
  induction instrs generalizing start with
  | nil => simp [checkOperands]
  | cons instr more ih =>
    rw [List.forall_mem_cons, ← frame.checkOperand_eq_ok_iff instr start,
      ← ih (start + instr.size), checkOperands]
    cases frame.checkOperand instr start with
    | error cause => simp [bind, Except.bind]
    | ok done => simp [bind, Except.bind]

/-! ## Paths -/

/-- Control can move from the instruction at an index to a place. -/
inductive Flows (instrs : List Instr) (index : Nat) : (place : Nat) → Prop
  /-- To what comes next, which need not be an instruction. -/
  | next {instr : Instr} (here : instrs[index]? = some instr)
      (goesOn : instr.isTerminator = false) : Flows instrs index (index + 1)
  | jump {instr : Instr} {place : Nat} (here : instrs[index]? = some instr)
      (leads : instr.target? = some place) : Flows instrs index place

/-- How much an instruction changes the depth of the stack. -/
def change (frame : Frame) (instr : Instr) : Int :=
  (frame.effect instr).pushes - (frame.effect instr).pops

/-- A path of some number of steps leads from the first instruction, which it leaves with an empty
stack below it, to a place that it reaches with a depth of the stack. -/
inductive Path (frame : Frame) (instrs : List Instr) : (steps place : Nat) → (depth : Int) → Prop
  | entry : Path frame instrs 0 0 0
  | step {steps index place : Nat} {depth : Int} {instr : Instr}
      (before : Path frame instrs steps index depth) (here : instrs[index]? = some instr)
      (flows : Flows instrs index place) :
      Path frame instrs (steps + 1) place (depth + frame.change instr)

/-- Every path keeps to the code and to the limits of the stack. -/
structure PathsSafe (frame : Frame) (instrs : List Instr) : Prop where
  /-- Control never runs past the last instruction. -/
  inside : ∀ {steps place depth}, Path frame instrs steps place depth → place < instrs.length
  /-- An instruction finds the values that it takes. -/
  enough : ∀ {steps index depth instr}, Path frame instrs steps index depth →
    instrs[index]? = some instr → ((frame.effect instr).pops : Int) ≤ depth
  bounded : ∀ {steps index depth instr}, Path frame instrs steps index depth →
    instrs[index]? = some instr → depth + frame.change instr ≤ 1024
  /-- Nothing is left on the stack by a return. -/
  balanced : ∀ {steps index depth}, Path frame instrs steps index depth →
    instrs[index]? = some Instr.ret → depth + frame.change Instr.ret = 0
  /-- All paths to an instruction arrive with one depth. -/
  unique : ∀ {steps others index depth other}, Path frame instrs steps index depth →
    Path frame instrs others index other → depth = other

/-- Code that may run in a frame. -/
structure InOrder (frame : Frame) (code : Code) : Prop where
  ends : ∃ last, code.instrs.getLast? = some last ∧ last.isTerminator = true
  /-- Instructions that no path reaches are no exception. -/
  operands : ∀ instr ∈ code.instrs, frame.OperandFits instr
  paths : frame.PathsSafe code.instrs

end Frame

end NativeWeave
