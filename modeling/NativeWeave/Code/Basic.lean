import NativeWeave.Code.Instruction

namespace NativeWeave

/-!
# Editable code

Stored code names the target of a jump by a distance in bytes, so that every edit would have to
mend every jump across it.  Code is therefore edited as a sequence of instructions in which a jump
names the index of its target.  Inserting and removing renumber the jumps and the source points, so
that each of them keeps naming the instruction it named before.

An edit at a place outside the sequence has no result.
-/

/-- A source position that begins at the instruction with the given index. -/
structure SourcePoint where
  index : Nat
  line : UInt32
  column : UInt32
deriving DecidableEq, Repr

/-- A sequence of instructions with the source positions attached to it. -/
structure Code where
  instrs : List Instr
  points : List SourcePoint := []
deriving DecidableEq, Repr

namespace Code

def size (code : Code) : Nat :=
  code.instrs.length

/-- Append an instruction. -/
def push (code : Code) (instr : Instr) : Code :=
  { code with instrs := code.instrs ++ [instr] }

/-- Renumber jumps and source points. -/
def renumber (code : Code) (jumps points : Nat → Nat) : Code where
  instrs := code.instrs.map (·.mapTarget jumps)
  points := code.points.map fun point => { point with index := points point.index }

/-- Insert instructions before the one at an index.  A jump to that instruction or a later one keeps
its target.  Inserting nothing is always possible. -/
def insert? (code : Code) (index : Nat) (added : List Instr) : Option Code :=
  if added.isEmpty then
    some code
  else if index ≤ code.size then
    let move := fun place => if index ≤ place then place + added.length else place
    let moved := code.renumber move move
    some { moved with instrs := moved.instrs.take index ++ added ++ moved.instrs.drop index }
  else
    none

/-- Remove the instruction at an index.  A jump to it goes to its successor.  Source points
that lie behind the end afterwards are dropped. -/
def remove? (code : Code) (index : Nat) : Option (Instr × Code) :=
  match code.instrs[index]? with
  | none => none
  | some removed =>
    let move := fun place => if index < place then place - 1 else place
    let moved := { code with instrs := code.instrs.eraseIdx index }.renumber move move
    some (removed, { moved with points := moved.points.filter (·.index < moved.size) })

/-- Replace the instruction at an index by others.  A jump to it goes to the first of them.
Replacing by nothing removes the instruction. -/
def replace? (code : Code) (index : Nat) (added : List Instr) : Option Code :=
  if added.isEmpty then
    (code.remove? index).map (·.2)
  else if index < code.size then
    let move := fun place => if index < place then place + (added.length - 1) else place
    let moved := code.renumber move move
    some { moved with instrs := moved.instrs.take index ++ added ++ moved.instrs.drop (index + 1) }
  else
    none

/-- Remove instructions one after another at the same index, `count` of them. -/
def removeRange? (code : Code) (index : Nat) : (count : Nat) → Option (List Instr × Code)
  | 0 => some ([], code)
  | count + 1 => do
    let (first, shorter) ← code.remove? index
    let (others, rest) ← shorter.removeRange? index count
    some (first :: others, rest)

/-- The later of two points; of two points at one index the second. -/
def laterPoint (first : Option SourcePoint) (second : SourcePoint) : Option SourcePoint :=
  match first with
  | some point => if second.index < point.index then some point else some second
  | none => some second

/-- Line and column of the source point that covers an instruction: of the points at its index or
before it the one with the largest index, and of several such points the last. -/
def lineAt? (code : Code) (index : Nat) : Option (UInt32 × UInt32) :=
  ((code.points.filter (·.index ≤ index)).foldl laterPoint none).map fun point =>
    (point.line, point.column)

end Code

end NativeWeave
