import NativeWeave.CommandLine.Failure
import NativeWeave.Universe

namespace NativeWeave

/-!
# Loading what a run needs

Modules, the configuration and the manifest come from files.  Modules for reference are searched
below directories; what turns out to be no module there is passed over.
-/

/-- Operations on files that can fail. -/
abbrev Loading (m : Type → Type) := ExceptT Failure m

namespace Loading

variable {m : Type → Type} [Monad m] [FileAccess m]

/-- The result of an operation, with its refusal as a failure. -/
def attempt {α : Type} (operation : m (Except FileError α)) (failure : FileError → Failure) :
    Loading m α := do
  match ← (operation : m (Except FileError α)) with
  | .ok value => return value
  | .error error => throw (failure error)

/-- Read a module. -/
def module (path : Path) : Loading m Module := do
  let bytes ← attempt (FileAccess.read path) (Failure.ofRead path)
  match Module.decode bytes with
  | .ok module => return module
  | .error error => throw (.ofModule path error)

/-! ## Settings -/

/-- Read a text.  A refusal gives a failure with its message. -/
def text (path : Path) (failure : String → Failure) : Loading m String := do
  let bytes ← attempt (FileAccess.read path) fun error => failure error.message
  match Bytes.toString? bytes with
  | some text => return text
  | none => throw (failure "stream did not contain valid UTF-8")

/-- The settings in a configuration file, or the default settings. -/
def config : Option Path → Loading m Config
  | none => return {}
  | some path => do
    let content ← text path fun cause =>
      .ofConfig path ["Failed to read configuration file: " ++ cause, cause]
    match Config.ofText content with
    | .ok config => return config
    | .error error => throw (.ofConfig path [error.message])

/-- The names in a manifest, none without a manifest. -/
def manifest : Option Path → Loading m Manifest
  | none => return {}
  | some path => do
    let content ← text path fun cause =>
      .ofManifest path ["Failed to read manifest file: " ++ cause, cause]
    match Manifest.ofText? content with
    | some manifest => return manifest
    | none => throw (.ofManifest path ["Failed to parse manifest"])

/-! ## Modules for reference -/

/-- The entry is not hidden. -/
def isVisible (name : String) : Bool :=
  name.toList.head? ≠ some '.'

/-- The file is called like a module. -/
def isModuleFile (path : Path) : Bool :=
  path.extension? = some "tmod"

/-- The files that a search path stands for: a file for itself whatever its name, a directory for
the module files below it, and a path that leads nowhere for nothing. -/
def candidates (path : Path) : Loading m (List Path) := do
  if ← (FileAccess.isFile path : m Bool) then
    return [path]
  else if ← (FileAccess.isDirectory path : m Bool) then
    let files ← attempt (FileAccess.filesBelow isVisible path) (Failure.ofSearch path)
    return files.filter isModuleFile
  else
    return []

/-- The modules at paths, without those that cannot be read. -/
def readable : List Path → m (List Module)
  | [] => return []
  | path :: more => do
    let result ← (module path).run
    let others ← readable more
    return result.toOption.toList ++ others

/-- The modules for reference, in the order of their paths. -/
def references (searchPaths : List Path) : Loading m (List Module) := do
  let files ← searchPaths.mapM candidates
  ExceptT.lift (readable (Path.sort files.flatten))

/-- All that a run knows besides the module at hand. -/
def context (configPath manifestPath : Option Path) (searchPaths : List Path) :
    Loading m Context := do
  return {
    config := ← config configPath
    manifest := ← manifest manifestPath
    modules := ← references searchPaths }

end Loading

end NativeWeave
