namespace NativeWeave

/-!
# What a command leaves behind

A command writes to the output and to the error output, and ends with a status.
-/

/-- How a command ended. -/
inductive Status
  | success
  /-- A module has mistakes. -/
  | rejected
  /-- Something could not be read, woven or written. -/
  | failed
  /-- The call makes no sense. -/
  | misused
  /-- The program stopped in the middle of its work. -/
  | aborted
deriving DecidableEq, Repr

/-- The exit code of a status. -/
def Status.code : Status → UInt32
  | success => 0
  | rejected => 1
  | failed | misused => 2
  | aborted => 101

/-- What was written to the two outputs. -/
structure Printed where
  output : String := ""
  errors : String := ""
deriving DecidableEq, Repr

namespace Printed

/-- What is printed by one part after the other. -/
def append (first second : Printed) : Printed :=
  ⟨first.output ++ second.output, first.errors ++ second.errors⟩

instance : Append Printed := ⟨append⟩

/-- What is printed by all parts. -/
def join (parts : List Printed) : Printed :=
  parts.foldr append {}

end Printed

/-- What a command printed and how it ended. -/
structure Transcript where
  printed : Printed := {}
  status : Status := .success
deriving DecidableEq, Repr

end NativeWeave
