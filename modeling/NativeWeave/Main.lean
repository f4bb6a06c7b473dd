import NativeWeave.CommandLine.Basic

namespace NativeWeave

/-!
# The program

The commands run on the files of the machine here, and what they print goes to the standard streams.
-/

/-- A refusal by the operating system. -/
def FileError.ofIO : IO.Error → FileError
  | .noFileOrDirectory .. => .notFound
  | .alreadyExists .. => .alreadyExists
  | .inappropriateType _ code _ => if code = 20 then .notDirectory else .isDirectory
  | .invalidArgument _ 36 _ => .nameTooLong
  | error => .other (toString error)

/-- The result of an operation, or why it was refused. -/
def attemptIO {α : Type} (operation : IO α) : IO (Except FileError α) := do
  try
    return .ok (← operation)
  catch error =>
    return .error (.ofIO error)

/-- The files below a directory, without the entries whose names do not suit. -/
partial def walk (suits : String → Bool) (directory : Path) : IO (List Path) := do
  let place ← IO.FS.realPath directory.text
  let entries ← place.readDir
  let found ← (entries.toList.filter (suits ·.fileName)).mapM fun entry => do
    let path := directory.join entry.fileName
    if ← entry.path.isDir then walk suits path else return [path]
  return found.flatten

/-- The path leads to a directory or to something else, or to nothing. -/
def directoryIO? (path : Path) : IO (Option Bool) := do
  try
    let place ← IO.FS.realPath path.text
    return some (← place.isDir)
  catch _ => return none

instance : FileAccess IO where
  isFile path := return (← directoryIO? path) = some false
  isDirectory path := return (← directoryIO? path) = some true
  read path := attemptIO do
    return (← IO.FS.readBinFile path.text).data.toList
  write path bytes := attemptIO (IO.FS.writeBinFile path.text ⟨bytes.toArray⟩)
  makeDirectories path := attemptIO (IO.FS.createDirAll path.text)
  filesBelow suits path := attemptIO (walk suits path)

end NativeWeave

open NativeWeave in
def main (arguments : List String) : IO UInt32 := do
  let environment : Environment :=
    { noColor := (← IO.getEnv "NO_COLOR").isSome, terminal := ← IO.getEnv "TERM" }
  let transcript ← runCommandLine environment arguments
  IO.print transcript.printed.output
  IO.eprint transcript.printed.errors
  return transcript.status.code
