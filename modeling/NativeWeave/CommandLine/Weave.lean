import NativeWeave.CommandLine.Arguments
import NativeWeave.CommandLine.Loading
import NativeWeave.CommandLine.Terminal
import NativeWeave.CommandLine.Transcript
import NativeWeave.Weaving

namespace NativeWeave

/-!
# The command that weaves

Modules are woven one after the other; a module that fails does not keep the others from being
woven.  A woven module is written into the output directory under its own file name, with its report
beside it, and nothing is written for a module with mistakes.
-/

/-- The files written for a module. -/
structure WrittenFiles where
  module : Path
  sidecar : Option Path
deriving DecidableEq, Repr

/-- What became of a module that was to be woven. -/
inductive ModuleOutcome
  | noBindings
  | woven (files : WrittenFiles) (diagnostics : List Diagnostic)
  | rejected (diagnostics : List Diagnostic)
  | failed (failure : Failure)
  /-- An edit or a look-up reached outside of its sequence, and the program stops. -/
  | aborted
deriving DecidableEq, Repr

namespace WeaveRequest

variable {m : Type → Type} [Monad m] [FileAccess m]

/-! ## Weaving and writing -/

/-- Write a woven module and, if wanted, its report. -/
def writeFiles (outDir : Path) (sidecar : Bool) (source : Path) (woven : WovenModule) :
    Loading m WrittenFiles := do
  let put := fun (path : Path) (bytes : Bytes) =>
    Loading.attempt (FileAccess.write path bytes) (Failure.ofWrite path)
  match source.fileName?, source.stem? with
  | some name, some stem => do
    Loading.attempt (FileAccess.makeDirectories outDir) (Failure.ofWrite outDir)
    let module := outDir.join name
    put module woven.module.encode
    if sidecar then
      let report := outDir.join (stem ++ ".tether.json")
      put report (Bytes.ofString woven.report.toJson.pretty)
      return ⟨module, some report⟩
    else
      return ⟨module, none⟩
  | _, _ => throw (.ofNameless source)

/-- What becomes of a module that was read. -/
def conclude (context : Context) (outDir source : Path) (module : Module) :
    Loading m ModuleOutcome := do
  match Scope.weave ⟨context, module⟩ with
  | .error .outOfRange => return .aborted
  | .error error => throw (.ofWeave source error)
  | .ok .noBindings => return .noBindings
  | .ok (.rejected diagnostics) => return .rejected diagnostics
  | .ok (.woven woven) =>
    return .woven (← writeFiles outDir context.config.sidecar source woven) woven.diagnostics

/-- Read a module, weave it and write what comes of it. -/
def weaveModule (context : Context) (outDir source : Path) : m ModuleOutcome := do
  let steps : Loading m ModuleOutcome := do
    conclude context outDir source (← Loading.module source)
  match ← steps.run with
  | .ok outcome => return outcome
  | .error failure => return .failed failure

/-- Weave modules one after the other, up to the first at which the program stops. -/
def weaveModules (context : Context) (outDir : Path) :
    List Path → m (List (Path × ModuleOutcome))
  | [] => return []
  | source :: more => do
    let outcome ← weaveModule context outDir source
    if outcome = .aborted then
      return [(source, outcome)]
    else
      return (source, outcome) :: (← weaveModules context outDir more)

end WeaveRequest

/-! ## Counting -/

/-- How many modules came to which end. -/
structure WeaveSummary where
  woven : Nat
  noBindings : Nat
  rejected : Nat
  failed : Nat
deriving DecidableEq, Repr

namespace WeaveSummary

/-- Count what became of modules. -/
def ofOutcomes (outcomes : List ModuleOutcome) : WeaveSummary where
  woven := outcomes.countP fun | .woven _ _ => true | _ => false
  noBindings := outcomes.countP fun | .noBindings => true | _ => false
  rejected := outcomes.countP fun | .rejected _ => true | _ => false
  failed := outcomes.countP fun | .failed _ => true | _ => false

/-- Failures weigh more than mistakes. -/
def status (summary : WeaveSummary) : Status :=
  if 0 < summary.failed then .failed
  else if 0 < summary.rejected then .rejected
  else .success

def text (summary : WeaveSummary) : String :=
  s!"{summary.woven} woven, {summary.noBindings} without bindings, "
    ++ s!"{summary.rejected} rejected, {summary.failed} failed"

def toJson (summary : WeaveSummary) : Json :=
  .object [
    ("woven", .ofNat summary.woven),
    ("no_bindings", .ofNat summary.noBindings),
    ("rejected", .ofNat summary.rejected),
    ("failed", .ofNat summary.failed)]

end WeaveSummary

/-! ## Showing results -/

/-- A diagnostic with its label and its first line standing out. -/
def Diagnostic.painted (colored : Bool) (diagnostic : Diagnostic) : String :=
  let label := (Style.ofSeverity diagnostic.severity).paint colored diagnostic.label
  match Text.pieces '\n' diagnostic.details with
  | [] => label
  | first :: more =>
    label ++ Style.strong.paint colored first ++ "\n" ++ String.join (more.map (· ++ "\n"))

namespace ModuleOutcome

/-- What is said about a module for people to read. -/
def printed (colored : Bool) (source : Path) : ModuleOutcome → Printed
  | noBindings =>
    { output := Style.info.paint colored "no bindings found"
        ++ s!" in {source.text}, nothing to weave\n" }
  | woven files diagnostics =>
    { output := String.join (diagnostics.map (·.painted colored))
        ++ Style.success.paint colored "woven" ++ s!" {source.text} -> {files.module.text}\n" }
  | rejected diagnostics =>
    let count := Diagnostic.errorCount diagnostics
    let ending := if count = 1 then "" else "s"
    { output := String.join (diagnostics.map (·.painted colored))
        ++ Style.error.paint colored "rejected" ++ s!" {source.text} ({count} error{ending})\n" }
  | failed failure =>
    { errors := Style.error.paint colored "error" ++ ": " ++ failure.text ++ "\n" }
  | aborted => {}

/-- What is said about a module for programs to read. -/
def toJson (source : Path) (outcome : ModuleOutcome) : Json :=
  let describe := fun (status : String) (more : List (String × Json)) (found : List Diagnostic) =>
    Json.object ([("path", .string source.text), ("status", .string status)] ++ more
      ++ [("diagnostics", .array (found.map (·.toJson)))])
  match outcome with
  | noBindings => describe "no_bindings" [] []
  | woven files diagnostics =>
    describe "woven" [("output", .string files.module.text),
      ("sidecar", .ofString? (files.sidecar.map (·.text)))] diagnostics
  | rejected diagnostics => describe "rejected" [] diagnostics
  | failed failure => describe "failed" [("error", .string failure.text)] []
  | aborted => .null

end ModuleOutcome

namespace WeaveRequest

/-- What is said about all modules. -/
def transcript (format : OutputFormat) (colored : Bool) (results : List (Path × ModuleOutcome)) :
    Transcript :=
  let summary := WeaveSummary.ofOutcomes (results.map (·.2))
  let aborted := results.any (·.2 = .aborted)
  let status := if aborted then .aborted else summary.status
  match format with
  | .pretty =>
    let modules := Printed.join (results.map fun (source, outcome) =>
      outcome.printed colored source)
    let ending := "\n" ++ Style.strong.paint colored summary.text ++ "\n"
    { printed := modules ++ { output := if aborted then "" else ending }, status }
  | .json =>
    let document := Json.object [
      ("modules", .array (results.map fun (source, outcome) => outcome.toJson source)),
      ("summary", summary.toJson)]
    { printed := { output := if aborted then "" else document.sorted.pretty ++ "\n" }, status }

/-- Run the command. -/
def run {m : Type → Type} [Monad m] [FileAccess m] (request : WeaveRequest) (colored : Bool) :
    Loading m Transcript := do
  let context ← Loading.context request.config request.manifest request.searchPaths
  let results ← ExceptT.lift (weaveModules context request.outDir request.modules)
  return transcript request.format colored results

end WeaveRequest

end NativeWeave
