import NativeWeave.Code.Body

namespace NativeWeave

/-!
# Building code with symbolic labels

New code is put together instruction by instruction.  A jump may name a label before it is known
where the label lies; binding a label places it before the next instruction that is added, and
finishing replaces every label by the index it is bound to.  A jump to a label without a place is
an error.
-/

/-- Why code could not be built. -/
inductive BuildError
  /-- A jump names a label that was never bound. -/
  | unboundLabel (label : Nat)
  /-- The index of one more local variable would not fit into its operand. -/
  | tooManyLocals
deriving DecidableEq, Repr

/-- Text of a building error. -/
def BuildError.message : BuildError → String
  | unboundLabel label => s!"Label {label} was never bound"
  | tooManyLocals => "Too many local variables"

/-- Code under construction.  Jumps name labels; a label is the number of its entry in `labels`,
which holds the index it is bound to. -/
structure Builder where
  locals : Array Signature := #[]
  instrs : Array Instr := #[]
  labels : Array (Option Nat) := #[]
deriving DecidableEq, Repr

namespace Builder

/-- Add a local variable; the result has its index. -/
def addLocal (builder : Builder) (type : Signature) : Except BuildError (UInt16 × Builder) :=
  if 65535 ≤ builder.locals.size then
    .error .tooManyLocals
  else
    .ok (UInt16.ofNat builder.locals.size, { builder with locals := builder.locals.push type })

/-- Make a new label that has no place yet. -/
def newLabel (builder : Builder) : Nat × Builder :=
  (builder.labels.size, { builder with labels := builder.labels.push none })

/-- Place a label before the next instruction.  A label bound again moves; a number that is no
label is ignored. -/
def bind (builder : Builder) (label : Nat) : Builder :=
  { builder with labels := builder.labels.setIfInBounds label (some builder.instrs.size) }

/-- Add instructions at the end. -/
def emit (builder : Builder) (added : List Instr) : Builder :=
  { builder with instrs := builder.instrs ++ added }

/-- The index that a label is bound to. -/
def place (builder : Builder) (label : Nat) : Except BuildError Nat :=
  match builder.labels[label]? with
  | some (some index) => .ok index
  | _ => .error (.unboundLabel label)

/-- Replace the labels of all jumps by the indices they are bound to. -/
def finish (builder : Builder) : Except BuildError Code := do
  let instrs ← builder.instrs.toList.mapM (·.resolveTarget builder.place)
  return { instrs }

/-- Finish and encode as a method body. -/
def build (builder : Builder) : Except BuildError Body := do
  let code ← builder.finish
  return code.toBody builder.locals.toList

end Builder

end NativeWeave
