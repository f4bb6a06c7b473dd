namespace NativeWeave

/-!
# Paths of files

A path is a text with segments between slashes.  It is shown and handed to the operating system as
it was given, but compared by its steps: repeated slashes, slashes at the end and dots that stand
for the same directory make no difference, except for a dot at the very beginning.
-/

/-! ## Pieces of a text -/

namespace Text

/-- The pieces of a text between separators. -/
def piecesOf (separator : Char) : List Char → List (List Char)
  | [] => [[]]
  | c :: rest =>
    if c = separator then
      [] :: piecesOf separator rest
    else
      match piecesOf separator rest with
      | [] => [[c]]
      | piece :: more => (c :: piece) :: more

theorem piecesOf_ne_nil (separator : Char) (text : List Char) : piecesOf separator text ≠ [] := by
  cases text with
  | nil => simp [piecesOf]
  | cons c rest =>
    rw [piecesOf]
    split
    · simp
    · split <;> simp

/-- Putting the separator back between the pieces gives the text. -/
theorem intercalate_piecesOf (separator : Char) (text : List Char) :
    [separator].intercalate (piecesOf separator text) = text := by
  induction text with
  | nil => simp [piecesOf]
  | cons c rest hypothesis =>
    rw [piecesOf]
    have filled := piecesOf_ne_nil separator rest
    generalize piecesOf separator rest = pieces at hypothesis filled
    cases pieces with
    | nil => exact absurd rfl filled
    | cons piece more =>
      split
      next same => subst same; simp [← hypothesis, List.intercalate]
      next => cases more <;> simp [← hypothesis, List.intercalate]

/-- The pieces of a text between separators; at least one, which is empty for the empty text. -/
def pieces (separator : Char) (text : String) : List String :=
  (piecesOf separator text.toList).map String.ofList

end Text

/-! ## Paths and their steps -/

/-- A path as it was given. -/
structure Path where
  text : String
deriving DecidableEq, Repr

/-- A step on the way that a path describes. -/
inductive PathStep
  | root
  | here
  | parent
  | entry (name : String)
deriving DecidableEq, Repr

namespace PathStep

/-- The step of a segment behind the first. -/
def ofSegment? (segment : String) : Option PathStep :=
  if segment = "" ∨ segment = "." then none
  else if segment = ".." then some .parent
  else some (.entry segment)

/-- Where a step stands among the kinds of steps. -/
def rank : PathStep → Nat
  | root => 0
  | here => 1
  | parent => 2
  | entry _ => 3

/-- Steps are ordered by their kind, and entries by their names. -/
def isBefore (left right : PathStep) : Bool :=
  match left, right with
  | .entry first, .entry second => first < second
  | _, _ => left.rank < right.rank

end PathStep

namespace Path

/-- The segments between the slashes. -/
def segments (path : Path) : List String :=
  Text.pieces '/' path.text

/-- The steps of a path. -/
def steps (path : Path) : List PathStep :=
  match path.segments with
  | [] | [""] => []
  | "" :: more => .root :: more.filterMap PathStep.ofSegment?
  | "." :: more => .here :: more.filterMap PathStep.ofSegment?
  | segments => segments.filterMap PathStep.ofSegment?

/-- The name of the file or directory that a path leads to, unless it ends on the way up. -/
def fileName? (path : Path) : Option String :=
  match path.steps.getLast? with
  | some (.entry name) => some name
  | _ => none

/-- A name before its last dot and behind it.  A dot at the beginning of a name does not count. -/
def splitExtension (name : String) : String × Option String :=
  let behind := (name.toList.reverse.takeWhile (· ≠ '.')).reverse
  let before := name.toList.take (name.length - behind.length - 1)
  if before.isEmpty then (name, none) else (String.ofList before, some (String.ofList behind))

/-- The file name without its extension. -/
def stem? (path : Path) : Option String :=
  path.fileName?.map fun name => (splitExtension name).1

/-- The extension of the file name. -/
def extension? (path : Path) : Option String :=
  path.fileName?.bind fun name => (splitExtension name).2

/-- The path of an entry of a directory. -/
def join (directory : Path) (name : String) : Path :=
  if directory.text.isEmpty || directory.text.toList.getLast? == some '/' then
    ⟨directory.text ++ name⟩
  else
    ⟨directory.text ++ "/" ++ name⟩

/-- Sequences of steps are ordered by the first step in which they differ. -/
def stepsBefore : List PathStep → List PathStep → Bool
  | _, [] => false
  | [], _ :: _ => true
  | left :: lefts, right :: rights =>
    left.isBefore right || (left = right && stepsBefore lefts rights)

/-- Put a path in front of the first path that does not stand before it. -/
def insert (path : Path) : List Path → List Path
  | [] => [path]
  | other :: more =>
    if stepsBefore other.steps path.steps then other :: insert path more else path :: other :: more

/-- The paths in the order of their steps.  Paths with the same steps stay in their order. -/
def sort (paths : List Path) : List Path :=
  paths.foldr insert []

end Path

end NativeWeave
