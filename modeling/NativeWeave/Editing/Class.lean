import NativeWeave.Editing.Constructor
import NativeWeave.Editing.Function

namespace NativeWeave

/-!
# Classes

The edits to an annotated class are planned in the order in which they build on one another: the
properties first, since they say which hidden fields go away; then the constructors and the other
methods, which may use those fields; and the functions last, since their code takes part in the
edits before it gets its new name.
-/

namespace ClassSite

/-- Add edits and findings to those made before. -/
def addPlan (planned : TypePlan × List Diagnostic) (more : TypePlan × List Diagnostic) :
    TypePlan × List Diagnostic :=
  (planned.1 ++ more.1, planned.2 ++ more.2)

/-- The edits to all constructors, and what is wrong with them. -/
def planConstructors (site : ClassSite) (backing : Backing)
    (effects : List ConstructionEffect) : Emit (TypePlan × List Diagnostic) := do
  let planned ← site.type.constructors.mapM fun (index, method) =>
    site.planConstructor backing effects index method
  return planned.foldl addPlan ({}, [])

/-- The edits to a class whose handle has a slot, and what is wrong with it. -/
def planMembers (site : ClassSite) : Emit (TypePlan × List Diagnostic) := do
  let findType ← Prelude.nativeType site.config site.binding.nativeName site.classPtr
  let properties ← site.binding.members.mapM site.planProperty
  let accessors : TypePlan × List Diagnostic :=
    (({ prelude := findType } : TypePlan) ++ TypePlan.concat (properties.map (·.plan)),
      properties.flatMap (·.diagnostics))
  -- The entries of later properties stand in front of those of earlier ones.
  let backing : Backing := (properties.flatMap (·.backing)).reverse
  let effects := properties.flatMap (·.effects)
  let constructed := addPlan accessors (← site.planConstructors backing effects)
  let redirected := addPlan constructed (← backing.methodPlans site.type constructed.1)
  let functions ← site.binding.functions.mapM (site.planFunction redirected.1)
  return addPlan redirected
    (TypePlan.concat functions ++ ({ touched := [Method.initializerName] } : TypePlan), [])

end ClassSite

/-- The edits to an annotated class of a module, and what is wrong with it. -/
def ClassBinding.plan (config : Config) (source : Module) (type : TypeDef)
    (binding : ClassBinding) : Emit (TypePlan × List Diagnostic) := do
  let classPtr ← staticSlot type.signature Naming.nativeClassPtr .intPtr
  let site : ClassSite := ⟨config, source, type, binding, classPtr.value⟩
  return ClassSite.addPlan (classPtr.plan, []) (← site.planMembers)

end NativeWeave
