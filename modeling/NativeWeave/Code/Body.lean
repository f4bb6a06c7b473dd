import NativeWeave.Code.Format
import NativeWeave.Signature.Format

namespace NativeWeave

/-!
# Method bodies

A stored body holds the types of its local variables, its code as bytes, and a table from byte
offsets to source lines.  Decoding a body for editing turns every table entry that lies on the
start of an instruction into a source point; encoding turns the points back into entries,
sorted by offset with one entry per offset.
-/

/-- The source line that begins at a byte offset of the code. -/
structure LineEntry where
  offset : UInt32
  line : UInt32
  column : UInt32
deriving DecidableEq, Repr

/-- A method body as it is stored. -/
structure Body where
  locals : List Signature := []
  code : Bytes := []
  lines : List LineEntry := []
deriving DecidableEq, Repr

namespace LineEntry

def codec : Codec LineEntry :=
  (Codec.u32.and (Codec.u32.and Codec.u32)).convert
    (fun (offset, line, column) => ⟨offset, line, column⟩)
    (fun entry => (entry.offset, entry.line, entry.column))

/-- Keep the first of neighbouring entries with one offset. -/
def dropRepeated : List LineEntry → List LineEntry
  | [] => []
  | entry :: more =>
    match dropRepeated more with
    | [] => [entry]
    | next :: rest => if entry.offset = next.offset then entry :: rest else entry :: next :: rest

end LineEntry

/-- Narrow a window of `width` elements down to one by halving: as long as its middle element
satisfies the test, the window goes on from there, and otherwise it ends before it. -/
def narrow {α : Type} (test : α → Bool) (items : List α) (low width : Nat) : Nat :=
  if width ≤ 1 then
    low
  else
    let half := width / 2
    narrow test items (if (items[low + half]?).any test then low + half else low) (width - half)
termination_by width

/-- How many elements satisfy a test that holds of a front part of the sequence and of no other
element, found by halving. -/
def partitionPoint {α : Type} (test : α → Bool) (items : List α) : Nat :=
  let low := narrow test items 0 items.length
  if (items[low]?).any test then low + 1 else low

namespace Body

def codec : Codec Body :=
  (Signature.codec.list.and (Codec.blob.and LineEntry.codec.list)).convert
    (fun (locals, code, lines) => ⟨locals, code, lines⟩)
    (fun body => (body.locals, body.code, body.lines))

/-- The table entry that covers a byte offset: the last one at the offset or before it, and the
first entry for offsets before all of them. -/
def lookupLine? (body : Body) (offset : UInt32) : Option LineEntry :=
  let count := partitionPoint (·.offset ≤ offset) body.lines
  body.lines[count - 1]?

/-- The source points of the entries that lie on the start of an instruction. -/
def sourcePoints (starts : List Nat) (lines : List LineEntry) : List SourcePoint :=
  lines.filterMap fun entry =>
    (starts.idxOf? entry.offset.toNat).map fun index => ⟨index, entry.line, entry.column⟩

/-- Decode a body for editing. -/
def toCode (body : Body) : Except DecodeError Code := do
  let code ← Code.decode body.code
  return { code with points := sourcePoints code.offsets body.lines }

end Body

namespace Code

/-- The line table of code: the entries of its points in the order of their offsets, with the
first of several points that share an offset. -/
def lineTable (code : Code) : List LineEntry :=
  let entries := code.points.filterMap fun point =>
    code.offsets[point.index]?.map fun offset =>
      ⟨UInt32.ofNat offset, point.line, point.column⟩
  LineEntry.dropRepeated (entries.mergeSort fun first second => first.offset ≤ second.offset)

/-- Encode code as a body with the given local variables. -/
def toBody (code : Code) (locals : List Signature) : Body :=
  ⟨locals, code.encode, code.lineTable⟩

end Code

end NativeWeave
