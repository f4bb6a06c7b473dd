import NativeWeave.Binding.Basic
import NativeWeave.Bytes.Sha256
import NativeWeave.Text.Json.Basic
import NativeWeave.WeaveError

namespace NativeWeave

/-!
# Structural hashes

The hash of an annotated type changes when the native side has to notice a change: of names, flags
and categories, of the structs its members refer to, of the base class, and of the code that
constructs its objects.  It is taken over the compact text of a description followed by that code.
Hashes of structs that are embedded and of base classes have to be known before.
-/

/-- The hash of a class and the hash of its annotated base class. -/
structure ClassHashes where
  own : String
  base : Option String
deriving DecidableEq, Repr

/-- The hashes known so far, the latest first. -/
structure Fingerprints where
  structs : List (QualifiedName × String) := []
  classes : List (QualifiedName × ClassHashes) := []
deriving DecidableEq, Repr

/-- A description and the code behind it as a hash. -/
def digest (description : Json) (code : Bytes) : String :=
  (sha256 (Bytes.ofString description.compact ++ code)).toHex

namespace MemberBinding

/-- The description of a member with the hash of the struct it refers to. -/
def description (member : MemberBinding) (nested : Option String) : Json :=
  .object [
    ("name", .string member.name),
    ("native_name", .string member.nativeName),
    ("category", .string member.category.label),
    ("flags", .ofNat member.flags.bits.toNat),
    ("nested", .ofString? nested)]

end MemberBinding

/-- The description of a type; enumerations have another one. -/
def typeDescription (kind : NativeTypeKind) (name : QualifiedName) (nativeName : String)
    (members functions : List Json) (base : Option String) : Json :=
  .object [
    ("kind", .string kind.text),
    ("name", .string name.full),
    ("native_name", .string nativeName),
    ("members", .array members),
    ("functions", .array functions),
    ("base", .ofString? base)]

/-- The hash of an enumeration. -/
def EnumBinding.hash (binding : EnumBinding) : String :=
  digest (.object [
    ("kind", .string NativeTypeKind.enumType.text),
    ("name", .string binding.name.full),
    ("native_name", .string binding.nativeName),
    ("members", .strings binding.members)]) []

/-- The code of the constructor by which objects of a class are made. -/
def ClassBinding.constructorCode (binding : ClassBinding) (module : Module) : Bytes :=
  let method := (module.types[binding.type]?).bind fun type =>
    binding.construction.bind fun index => type.methods[index]?
  ((method.bind (·.body)).map (·.code)).getD []

namespace Fingerprints

def struct? (known : Fingerprints) (name : QualifiedName) : Option String :=
  (known.structs.find? (·.1 == name)).map (·.2)

def class? (known : Fingerprints) (name : QualifiedName) : Option ClassHashes :=
  (known.classes.find? (·.1 == name)).map (·.2)

/-- The hash of the struct that a member of `owner` refers to. -/
def nested (known : Fingerprints) (bindings : Bindings) (owner : QualifiedName)
    (member : MemberBinding) : Weave (Option String) :=
  match member.category.embedded?.filter fun name => (bindings.findStruct? name).isSome with
  | none => .ok member.hashOverride
  | some dependency =>
    match known.struct? dependency with
    | some hash => .ok (some hash)
    | none => .error (.missingDependencyHash owner.full dependency.full)

/-- The descriptions of members of `owner`. -/
def members (known : Fingerprints) (bindings : Bindings) (owner : QualifiedName)
    (members : List MemberBinding) : Weave (List Json) :=
  members.mapM fun member => do
    return member.description (← known.nested bindings owner member)

/-- The description of a function of `owner`. -/
def function (known : Fingerprints) (bindings : Bindings) (owner : QualifiedName)
    (function : FunctionBinding) : Weave Json := do
  let values ← known.members bindings owner function.values
  return .object [
    ("name", .string function.name),
    ("flags", .ofNat function.flags.bits.toNat),
    ("values", .array values)]

/-- Hash a struct. -/
def addStruct (known : Fingerprints) (bindings : Bindings) (binding : StructBinding) :
    Weave (String × Fingerprints) := do
  let members ← known.members bindings binding.name binding.members
  let hash := digest
    (typeDescription .structType binding.name binding.nativeName members [] none) []
  return (hash, { known with structs := (binding.name, hash) :: known.structs })

/-- The hash of the annotated base class of a class. -/
def baseHash (known : Fingerprints) (bindings : Bindings) (binding : ClassBinding) :
    Weave (Option String) :=
  match binding.base.filter fun name => (bindings.findClass? name).isSome with
  | none => .ok none
  | some base =>
    match known.class? base with
    | some hashes => .ok (some hashes.own)
    | none => .error (.missingDependencyHash binding.name.full base.full)

/-- Hash a class of a module. -/
def addClass (known : Fingerprints) (bindings : Bindings) (module : Module)
    (binding : ClassBinding) : Weave (ClassHashes × Fingerprints) := do
  let base ← known.baseHash bindings binding
  let functions ← binding.functions.mapM (known.function bindings binding.name)
  let members ← known.members bindings binding.name binding.members
  let description :=
    typeDescription .classType binding.name binding.nativeName members functions base
  let hashes : ClassHashes := ⟨digest description (binding.constructorCode module), base⟩
  return (hashes, { known with classes := (binding.name, hashes) :: known.classes })

end Fingerprints

end NativeWeave
