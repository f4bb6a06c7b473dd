import NativeWeave.Naming
import NativeWeave.Unvisited

namespace NativeWeave

/-!
# What names mean

A name is looked up in the module at hand and then in the modules that were given for reference; the
first module that declares it decides.  A class is native-backed when following base classes
from it leads to the native root.
-/

/-- What a run knows besides the module at hand. -/
structure Context where
  config : Config := {}
  manifest : Manifest := {}
  /-- Modules given for reference, in the order of look-up. -/
  modules : List Module := []
deriving DecidableEq, Repr

/-- The declaration of a name in the modules given for reference. -/
def Context.lookup? (context : Context) (name : QualifiedName) : Option TypeDef :=
  context.modules.findSome? (·.type? name)

/-- A module at hand within a run. -/
structure Scope where
  context : Context
  module : Module
deriving DecidableEq, Repr

namespace Scope

/-- The settings of the run. -/
def config (scope : Scope) : Config :=
  scope.context.config

/-- The module at hand declares the name. -/
def isLocal (scope : Scope) (name : QualifiedName) : Bool :=
  (scope.module.findType? name).isSome

/-- The declaration of a name. -/
def resolve? (scope : Scope) (name : QualifiedName) : Option TypeDef :=
  match scope.module.type? name with
  | some type => some type
  | none => scope.context.lookup? name

/-- The declared base class of a name, if it is a plain or generic name itself. -/
def base? (scope : Scope) (name : QualifiedName) : Option QualifiedName :=
  ((scope.resolve? name).bind (·.base)).bind (·.typeName?)

/-- Names of all declarations that are in reach. -/
def declared (scope : Scope) : List QualifiedName :=
  (scope.module.types ++ scope.context.modules.flatMap (·.types)).map (·.qualifiedName)

theorem mem_declared_of_resolve? {scope : Scope} {name : QualifiedName} {type : TypeDef}
    (found : scope.resolve? name = some type) : name ∈ scope.declared := by
  unfold resolve? at found
  split at found
  next other inModule =>
    cases found
    obtain ⟨member, rfl⟩ := Module.mem_of_type? inModule
    exact List.mem_map_of_mem (List.mem_append_left _ member)
  next =>
    obtain ⟨module, inModules, inModule⟩ := List.exists_of_findSome?_eq_some found
    obtain ⟨member, rfl⟩ := Module.mem_of_type? inModule
    exact List.mem_map_of_mem
      (List.mem_append_right _ (List.mem_flatMap.mpr ⟨module, inModules, member⟩))

theorem mem_declared_of_base? {scope : Scope} {name base : QualifiedName}
    (found : scope.base? name = some base) : name ∈ scope.declared := by
  unfold base? at found
  cases resolved : scope.resolve? name with
  | none => simp [resolved] at found
  | some type => exact mem_declared_of_resolve? resolved

/-- Follow base classes from a name to the native root.  A name that was visited before closes a
cycle, from which the root is out of reach. -/
def reachesRoot (scope : Scope) (visited : List QualifiedName) (name : QualifiedName) : Bool :=
  if _seen : name ∈ visited then
    false
  else
    match _step : scope.base? name with
    | none => false
    | some base => base == scope.config.root || reachesRoot scope (name :: visited) base
termination_by unvisited scope.declared visited
decreasing_by exact unvisited_cons_lt _seen (mem_declared_of_base? _step)

/-- The class derives from the native root, by one base step or more. -/
def derivesFromRoot (scope : Scope) (name : QualifiedName) : Bool :=
  scope.reachesRoot [] name

/-- The class is the native root or derives from it. -/
def isNativeObject (scope : Scope) (name : QualifiedName) : Bool :=
  name == scope.config.root || scope.derivesFromRoot name

/-- The declaration of a native-backed class that a signature names. -/
def nativeClass? (scope : Scope) (signature : Signature) : Option TypeDef := do
  let name ← signature.typeName?
  let type ← scope.resolve? name
  if type.kind = .classType ∧ scope.isNativeObject name then some type else none

end Scope

end NativeWeave
