import NativeWeave.Editing.Class
import NativeWeave.Editing.Struct

namespace NativeWeave

/-!
# Editing a module

The annotated types of a module are edited one after another.  Every plan is made from the module as
it was; only the tables of references grow from type to type.  A class with mistakes is reported
and not edited, since the module will be refused.
-/

/-- A module on its way from its source to its final form. -/
structure Draft where
  config : Config
  /-- The module as it was. -/
  source : Module
  /-- The module as it has become. -/
  module : Module
  diagnostics : List Diagnostic := []

/-- The categories of all values that cross the boundary. -/
def Bindings.categories (bindings : Bindings) : List Category :=
  let ofClass := fun (binding : ClassBinding) =>
    binding.members ++ binding.functions.flatMap (·.values)
  ((bindings.classes.flatMap ofClass) ++ bindings.structs.flatMap (·.members)).map (·.category)

/-- Code has to be generated: there is a class, or a struct with other bytes on the native side. -/
def Bindings.needCode (bindings : Bindings) : Bool :=
  !bindings.classes.isEmpty || bindings.structs.any (!·.blittable)

namespace Draft

/-- Begin to edit a module.  What the generated code will rely on has to be in reach. -/
def start (scope : Scope) (bindings : Bindings) : Weave Draft := do
  if bindings.needCode then
    scope.checkCollaborators bindings.categories
  return { config := scope.config, source := scope.module, module := scope.module }

/-- The declaration of a type as it was. -/
def declaration (draft : Draft) (index : Nat) (name : QualifiedName) : Weave TypeDef :=
  Weave.ofOption (draft.source.types[index]?.filter (·.fullName == name.full))
    s!"type '{name.full}' moved during rewriting"

/-- Work out a plan; the references that it needs are entered into the module. -/
def planned {Plan : Type} (draft : Draft) (plan : Emit Plan) : Weave (Plan × Draft) := do
  let (result, tables) ← plan draft.module.tables
  return (result, { draft with module := { draft.module with tables } })

/-- Apply a plan. -/
def commit (draft : Draft) (index : Nat) (plan : TypePlan) : Weave Draft := do
  return { draft with module := ← draft.module.commit index plan }

/-- Edit a struct. -/
def editStruct (draft : Draft) (binding : StructBinding) : Weave Draft := do
  let type ← draft.declaration binding.type binding.name
  let (plan?, extended) ← draft.planned (binding.plan? draft.config type)
  match plan? with
  | none => return extended
  | some plan => extended.commit binding.type plan

/-- Edit a class. -/
def editClass (draft : Draft) (binding : ClassBinding) : Weave Draft := do
  let type ← draft.declaration binding.type binding.name
  let ((plan, diagnostics), extended) ←
    draft.planned (binding.plan draft.config draft.source type)
  let reported := { extended with diagnostics := extended.diagnostics ++ diagnostics }
  if Diagnostic.hasErrors diagnostics then
    return reported
  else
    reported.commit binding.type plan

end Draft

end NativeWeave
