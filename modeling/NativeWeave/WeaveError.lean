import NativeWeave.Code.Builder
import NativeWeave.Verification.Basic

namespace NativeWeave

/-!
# Failures of weaving

A failure is no mistake of the author, who gets diagnostics instead: it says that what the run needs
is not there, or that the weaver itself went wrong.
-/

/-- Why weaving a module failed. -/
inductive WeaveError
  | duplicateProcessing (name : String)
  /-- Embedding or inheritance leads back to where it started. -/
  | dependencyCycle (path : List String)
  | missingDependencyHash (dependent dependency : String)
  /-- A type that generated code relies on is out of reach. -/
  | missingCollaborator (name : String)
  /-- A binding does not fit its module. -/
  | inconsistent (reason : String)
  /-- A body that was generated or changed does not verify. -/
  | verification (method : String) (cause : VerifyError)
  | build (cause : BuildError)
  | decode (cause : DecodeError)
  /-- An edit or a look-up reached outside of its sequence. -/
  | outOfRange
deriving Repr

/-- Text of a failure. -/
def WeaveError.message : WeaveError → String
  | duplicateProcessing name => s!"Type '{name}' was processed twice"
  | dependencyCycle path => "Dependency cycle detected: " ++ " -> ".intercalate path
  | missingDependencyHash dependent dependency =>
    s!"Hash for '{dependency}' is not available while hashing '{dependent}'"
  | missingCollaborator name =>
    s!"Required runtime type '{name}' was not found in the module or its search paths"
  | inconsistent reason => s!"Internal inconsistency: {reason}"
  | verification method cause => s!"Rewritten body '{method}' failed verification: {cause.message}"
  | build cause => s!"Failed to build method body: {cause.message}"
  | decode cause => s!"Failed to decode method body: {cause.message}"
  | outOfRange => "index out of range"

/-- The result of weaving, or why it failed. -/
abbrev Weave := Except WeaveError

namespace Weave

/-- A building error as a failure of weaving. -/
def ofBuild {α : Type} (result : Except BuildError α) : Weave α :=
  result.mapError .build

/-- A decoding error as a failure of weaving. -/
def ofDecode {α : Type} (result : Except DecodeError α) : Weave α :=
  result.mapError .decode

/-- A value that has to be there. -/
def ofOption {α : Type} (value : Option α) (reason : String) : Weave α :=
  match value with
  | some found => .ok found
  | none => .error (.inconsistent reason)

end Weave

end NativeWeave
