import NativeWeave.CommandLine.Weave
import NativeWeave.Module.Listing

namespace NativeWeave

/-!
# Running commands

A call is read, its command runs on the files, and a failure that keeps it from starting is told on
the error output.
-/

/-- How the program is called. -/
def usage : String :=
  "Usage: tether [OPTIONS] weave [OPTIONS] <MODULES>...\n"
    ++ "       tether [OPTIONS] inspect <MODULE>\n"

namespace Interruption

/-- What is told when no command runs. -/
def transcript : Interruption → Transcript
  | help => { printed := { output := usage } }
  | version => { printed := { output := "tether 0.1.0\n" } }
  | noCommand => { printed := { errors := usage }, status := .misused }
  | misuse message =>
    { printed := { errors := "error: " ++ message ++ "\n\n" ++ usage }, status := .misused }

end Interruption

namespace Command

variable {m : Type → Type} [Monad m] [FileAccess m]

/-- Print the tables and the code of a module. -/
def inspectModule (path : Path) : Loading m Transcript := do
  let module ← Loading.module path
  return { printed := { output := module.listing } }

/-- Run a command. -/
def run (command : Command) (colored : Bool) : m Transcript := do
  let steps : Loading m Transcript := match command with
    | .weave request => request.run colored
    | .inspect path => inspectModule path
  match ← steps.run with
  | .ok transcript => return transcript
  | .error failure =>
    return { printed := { errors := "Error: " ++ failure.text ++ "\n" }, status := .failed }

end Command

/-- Read the arguments of a call and run its command. -/
def runCommandLine {m : Type → Type} [Monad m] [FileAccess m] (environment : Environment)
    (arguments : List String) : m Transcript :=
  match Invocation.parse arguments with
  | .error interruption => return interruption.transcript
  | .ok invocation => invocation.command.run (environment.isColored invocation.color)

end NativeWeave
