import NativeWeave.Binding.Order
import NativeWeave.Extraction.Basic
import NativeWeave.Report
import NativeWeave.Editing.Basic

namespace NativeWeave

/-!
# Weaving a module

Weaving extracts the bindings of a module, puts them in order, and edits the annotated types
while it hashes them.  A module with mistakes is refused with diagnostics and nothing comes of it.
-/

/-- A module that was woven. -/
structure WovenModule where
  module : Module
  report : Report
  diagnostics : List Diagnostic

/-- What becomes of a module. -/
inductive WeaveOutcome
  /-- Nothing is annotated, or the module was woven before. -/
  | noBindings
  | woven (result : WovenModule)
  /-- There are mistakes, and there must be no output. -/
  | rejected (diagnostics : List Diagnostic)

/-- The state of a run over the types of a module. -/
structure Progress where
  ledger : Ledger := {}
  known : Fingerprints := {}
  draft : Draft

namespace Progress

/-- The binding of a type that has an order. -/
def bound {Binding : Type} (binding : Option Binding) (name : QualifiedName) : Weave Binding :=
  Weave.ofOption binding s!"ordered type '{name.full}' has no binding"

/-- Hash and edit a struct. -/
def processStruct (bindings : Bindings) (progress : Progress) (name : QualifiedName) :
    Weave Progress := do
  let ledger ← progress.ledger.mark name
  let binding ← bound (bindings.findStruct? name) name
  let (_, known) ← progress.known.addStruct bindings binding
  return ⟨ledger, known, ← progress.draft.editStruct binding⟩

/-- Hash and edit a class. -/
def processClass (bindings : Bindings) (progress : Progress) (name : QualifiedName) :
    Weave Progress := do
  let ledger ← progress.ledger.mark name
  let binding ← bound (bindings.findClass? name) name
  let (_, known) ← progress.known.addClass bindings progress.draft.source binding
  return ⟨ledger, known, ← progress.draft.editClass binding⟩

end Progress

namespace Scope

/-- Hash and edit the annotated types of the module at hand. -/
def process (scope : Scope) (bindings : Bindings) : Weave Progress := do
  let structs ← bindings.structOrder
  let classes ← bindings.classOrder
  let start : Progress := { draft := ← Draft.start scope bindings }
  let afterStructs ← structs.foldlM (Progress.processStruct bindings) start
  let afterClasses ← classes.foldlM (Progress.processClass bindings) afterStructs
  let ledger ← (bindings.enums.map (·.name)).foldlM Ledger.mark afterClasses.ledger
  return { afterClasses with ledger }

/-- Weave the module at hand with bindings that have no mistakes. -/
def weaveBindings (scope : Scope) (extraction : Extraction) : Weave WeaveOutcome := do
  let progress ← scope.process extraction.bindings
  let diagnostics := extraction.diagnostics ++ progress.draft.diagnostics
  if Diagnostic.hasErrors diagnostics then
    return .rejected diagnostics
  else
    let module := progress.draft.module
    let report ← Report.ofBindings progress.known scope.module.name extraction.bindings
    return .woven
      { module := { module with flags := module.flags ||| Module.wovenFlag }, report, diagnostics }

/-- Weave the module at hand. -/
def weave (scope : Scope) : Weave WeaveOutcome :=
  if scope.module.isWoven then
    return .noBindings
  else
    let extraction := scope.extract
    if Diagnostic.hasErrors extraction.diagnostics then
      return .rejected extraction.diagnostics
    else if extraction.bindings.isEmpty then
      return .noBindings
    else
      scope.weaveBindings extraction

end Scope

end NativeWeave
