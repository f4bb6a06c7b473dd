import NativeWeave.Bytes.Basic
import NativeWeave.CommandLine.Path

namespace NativeWeave

/-!
# Access to files

The commands read and write files through a handful of operations.  They run on the files of the
machine as well as on files that are held in memory.
-/

/-- Why the operating system refused an operation. -/
inductive FileError
  | notFound
  | alreadyExists
  | notDirectory
  | isDirectory
  | nameTooLong
  | other (text : String)
deriving DecidableEq, Repr

/-- Text of a refusal. -/
def FileError.message : FileError → String
  | notFound => "No such file or directory (os error 2)"
  | alreadyExists => "File exists (os error 17)"
  | notDirectory => "Not a directory (os error 20)"
  | isDirectory => "Is a directory (os error 21)"
  | nameTooLong => "File name too long (os error 36)"
  | other text => text

/-- The operations on files that the commands need. -/
class FileAccess (m : Type → Type) where
  isFile : Path → m Bool
  isDirectory : Path → m Bool
  read : Path → m (Except FileError Bytes)
  write : Path → Bytes → m (Except FileError Unit)
  /-- Make a directory and the directories on the way to it, where they are missing. -/
  makeDirectories : Path → m (Except FileError Unit)
  /-- The files in a directory and the directories within, passing over the entries without a
  suitable name.  The paths begin with the path of the directory. -/
  filesBelow : (suits : String → Bool) → Path → m (Except FileError (List Path))

end NativeWeave
