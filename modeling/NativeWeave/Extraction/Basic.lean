import NativeWeave.Extraction.Class
import NativeWeave.Extraction.Enumeration
import NativeWeave.Extraction.Struct

namespace NativeWeave

/-!
# Extraction

The annotated types of a module become bindings.  Each type is examined by itself, so that one run
reports everything that is wrong with the module; only the answers of classification are shared.
-/

namespace Scope

/-- The binding of a type, if it is annotated for its kind. -/
def extractType (scope : Scope) (index : Nat) (type : TypeDef) :
    Remembering (Extracted TypeBinding) := do
  let annotated := fun name => scope.config.isAnnotated type.attributes name
  if type.kind = .enumType ∧ annotated Annotation.nativeEnum then
    let found := scope.extractEnum index type
    return ⟨found.binding.map .ofEnum, found.diagnostics⟩
  else if type.kind = .structType ∧ annotated Annotation.nativeStruct then
    let found ← scope.extractStruct index type
    return ⟨found.binding.map .ofStruct, found.diagnostics⟩
  else if type.kind = .classType ∧ annotated Annotation.nativeClass then
    let found ← scope.extractClass index type
    return ⟨found.binding.map .ofClass, found.diagnostics⟩
  else
    return { diagnostics := scope.strayFunctions type }

/-- Reports a binding whose native name is taken. -/
def nameCollision (scope : Scope) (type : TypeDef) (binding : TypeBinding) : List Diagnostic :=
  if scope.context.manifest.contains binding.kind binding.nativeName then
    [(((Diagnostic.error .nativeNameCollision
      (s!"native {binding.kind.text} name '{binding.nativeName}' is already used by an existing "
        ++ "native type")).atSymbol type.fullName).atLocation type.source).withHelp
          "rename the type or set Name on its annotation"]
  else
    []

/-- Examine a type, unless its name says that it stands in for another one. -/
def examine (scope : Scope) (type : TypeDef) (index : Nat) :
    Remembering (Extracted TypeBinding) := do
  if scope.config.isWrapperOnly type.name then
    return .nothing
  else
    let found ← scope.extractType index type
    let collisions := found.binding.toList.flatMap (scope.nameCollision type)
    return { found with diagnostics := found.diagnostics ++ collisions }

end Scope

/-- The bindings of a module and everything found on the way. -/
structure Extraction where
  bindings : Bindings
  diagnostics : List Diagnostic
deriving DecidableEq, Repr

/-- Extract the annotated types of the module at hand, with answers that are remembered. -/
def Scope.extractWith (scope : Scope) : Remembering Extraction := do
  let results ← scope.module.types.zipIdx.mapM fun (type, index) => scope.examine type index
  return ⟨Extracted.bindings results, Extracted.allDiagnostics results⟩

/-- Extract the annotated types of the module at hand. -/
def Scope.extract (scope : Scope) : Extraction :=
  (scope.extractWith {}).1

end NativeWeave
