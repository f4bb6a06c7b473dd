import NativeWeave.CommandLine.FileAccess
import NativeWeave.Config
import NativeWeave.Module.Format
import NativeWeave.WeaveError

namespace NativeWeave

/-!
# Failures of commands

A failure is shown with what it led to: the step that failed comes first and every cause follows
behind a colon.  The text of an error often ends with its cause already, which is then said twice.
-/

/-- The causes of an error in a stored module. -/
def ModuleError.causes : ModuleError → List String
  | decode cause => [cause.message]
  | invalidMagic _ | unsupportedVersion _ | checksumMismatch _ _ => []

/-- The causes of a refused body. -/
def VerifyError.causes : VerifyError → List String
  | decode cause => [cause.message]
  | _ => []

/-- The causes of a failure of weaving. -/
def WeaveError.causes : WeaveError → List String
  | verification _ cause => cause.message :: cause.causes
  | build cause => [cause.message]
  | decode cause => [cause.message]
  | _ => []

/-- What went wrong, followed by its causes. -/
structure Failure where
  messages : List String
deriving DecidableEq, Repr

namespace Failure

/-- The messages in one line. -/
def text (failure : Failure) : String :=
  ": ".intercalate failure.messages

/-- A file that could not be read. -/
def ofRead (path : Path) (error : FileError) : Failure :=
  ⟨[s!"Failed to read '{path.text}'", error.message]⟩

/-- A file that holds no module. -/
def ofModule (path : Path) (error : ModuleError) : Failure :=
  ⟨s!"Failed to decode '{path.text}'" :: error.message :: error.causes⟩

/-- A module that could not be woven. -/
def ofWeave (path : Path) (error : WeaveError) : Failure :=
  ⟨s!"Failed to weave '{path.text}'" :: error.message :: error.causes⟩

/-- A file or directory that could not be written. -/
def ofWrite (path : Path) (error : FileError) : Failure :=
  ⟨[s!"I/O error on {path.text}: {error.message}", error.message]⟩

/-- A module whose path does not say what its output is to be called. -/
def ofNameless (path : Path) : Failure :=
  ⟨[(WeaveError.inconsistent s!"'{path.text}' has no file name").message]⟩

/-- A directory that could not be searched. -/
def ofSearch (path : Path) (error : FileError) : Failure :=
  ⟨[s!"Failed to read directory '{path.text}'", error.message]⟩

/-- A configuration file that could not be used. -/
def ofConfig (path : Path) (causes : List String) : Failure :=
  ⟨s!"Failed to load config '{path.text}'" :: causes⟩

/-- A manifest that could not be used. -/
def ofManifest (path : Path) (causes : List String) : Failure :=
  ⟨s!"Failed to load manifest '{path.text}'" :: causes⟩

end Failure

end NativeWeave
