import NativeWeave.Verification.Basic

namespace NativeWeave

/-!
# The depth of the stack along every path

The check follows control from the first instruction with an empty stack.  It notes the depth at
which each instruction is first reached, requires every later arrival to have the same depth, and
goes on from an instruction once.  As each round either notes an instruction that had no depth yet
or gets rid of an arrival, it comes to an end for loops too.
-/

namespace StackCheck

/-- The code under check. -/
structure Setting where
  frame : Frame
  instrs : List Instr
  starts : List Nat
deriving Repr

/-- Control reaches the instruction at an index with a depth of the stack. -/
structure Arrival where
  index : Nat
  depth : Nat
deriving DecidableEq, Repr

/-- The byte offset of the instruction at an index. -/
def Setting.offsetAt (setting : Setting) (index : Nat) : Nat :=
  setting.starts.getD index 0

/-- Where control goes after an instruction: to the next one, unless it is a terminator, and to the
target of a jump. -/
def Setting.successors (setting : Setting) (instr : Instr) (arrival : Arrival) :
    Except VerifyError (List Arrival) := do
  let offset := setting.offsetAt arrival.index
  let depth ← setting.frame.depthAfter instr offset arrival.depth
  let jumps := instr.target?.toList.map (Arrival.mk · depth)
  if instr.isTerminator then
    return jumps
  else if arrival.index + 1 < setting.instrs.length then
    return ⟨arrival.index + 1, depth⟩ :: jumps
  else
    throw (.fallOffEnd offset)

/-- How many instructions have no depth yet. -/
def unknown (depths : List (Option Nat)) : Nat :=
  depths.countP (·.isNone)

theorem unknown_set_lt {depths : List (Option Nat)} {index depth : Nat}
    (free : depths[index]? = some none) :
    unknown (depths.set index (some depth)) < unknown depths := by
  induction depths generalizing index with
  | nil => simp at free
  | cons head tail ih =>
    cases index with
    | zero =>
      simp only [List.getElem?_cons_zero, Option.some.injEq] at free
      simp [unknown, free]
    | succ index =>
      simp only [List.getElem?_cons_succ] at free
      have := ih free
      simp only [unknown, List.set_cons_succ, List.countP_cons] at this ⊢
      omega

/-- Take up the pending arrivals one after another, the first one first. -/
def follow (setting : Setting) (depths : List (Option Nat)) :
    (pending : List Arrival) → Except VerifyError Unit
  | [] => .ok ()
  | arrival :: pending =>
    match _known : depths[arrival.index]?, setting.instrs[arrival.index]? with
    | some (some depth), _ =>
      if depth = arrival.depth then
        follow setting depths pending
      else
        .error (.stackMismatch (setting.offsetAt arrival.index) depth arrival.depth)
    | some none, some instr =>
      match setting.successors instr arrival with
      | .error cause => .error cause
      | .ok next =>
        follow setting (depths.set arrival.index (some arrival.depth)) (next ++ pending)
    | _, _ => .error (.fallOffEnd (setting.offsetAt arrival.index))
termination_by pending => (unknown depths, pending.length)
decreasing_by
  · exact Prod.Lex.right _ (Nat.lt_succ_self _)
  · exact Prod.Lex.left _ _ (unknown_set_lt _known)

/-- Check the depth of the stack on every path from the first instruction. -/
def run (setting : Setting) : Except VerifyError Unit :=
  follow setting (List.replicate setting.instrs.length none) [⟨0, 0⟩]

end StackCheck

/-- Check the operands of instructions of which the first starts at a byte offset. -/
def Frame.checkOperands (frame : Frame) : (start : Nat) → List Instr → Except VerifyError Unit
  | _, [] => .ok ()
  | start, instr :: more => do
    frame.checkOperand instr start
    checkOperands frame (start + instr.size) more

/-- Check code that runs in a frame: there is an instruction, all operands are in order, control
cannot run past the last instruction, and the stack has one depth at each instruction. -/
def Frame.checkCode (frame : Frame) (code : Code) : Except VerifyError Unit := do
  match code.instrs.getLast? with
  | none => throw (.fallOffEnd 0)
  | some last =>
    frame.checkOperands 0 code.instrs
    if !last.isTerminator then
      throw (.fallOffEnd (code.byteSize - last.size))
    StackCheck.run ⟨frame, code.instrs, code.offsets⟩

/-- Verify the body of a method against the tables of its module.  A method without a body is always
in order. -/
def Method.verify (method : Method) (tables : Tables) : Except VerifyError Unit :=
  match method.body with
  | none => .ok ()
  | some body =>
    match Code.decode body.code with
    | .error cause => .error (.decode cause)
    | .ok code => (method.frame tables body).checkCode code

/-- Verify the methods one after another; the first refusal names the method. -/
def verifyMethods (tables : Tables) : List Method → Except (String × VerifyError) Unit
  | [] => .ok ()
  | method :: more =>
    match method.verify tables with
    | .error cause => .error (method.name, cause)
    | .ok () => verifyMethods tables more

/-- Verify all methods of a type; the first refusal names the method. -/
def TypeDef.verify (type : TypeDef) (tables : Tables) : Except (String × VerifyError) Unit :=
  verifyMethods tables type.methods

/-- Verify types one after another. -/
def verifyTypes (tables : Tables) : List TypeDef → Except VerifyError Unit
  | [] => .ok ()
  | type :: more =>
    match type.verify tables with
    | .error (name, cause) => .error (.module s!"{type.fullName}::{name}: {cause.message}")
    | .ok () => verifyTypes tables more

/-- Verify the header and every method body of a module. -/
def Module.verify (module : Module) : Except VerifyError Unit :=
  match module.validate with
  | .error reason => .error (.module reason)
  | .ok () => verifyTypes module.tables module.types

end NativeWeave
