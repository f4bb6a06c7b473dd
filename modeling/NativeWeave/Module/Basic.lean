import NativeWeave.Module.Reference

namespace NativeWeave

/-!
# Modules

A module declares types and holds the tables that the instructions of their methods point into.
-/

/-- What a declared type is. -/
inductive TypeKind
  | classType
  | structType
  | enumType
  | interfaceType
deriving DecidableEq, Repr

namespace TypeKind

/-- The word for a kind of type. -/
def text : TypeKind → String
  | .classType => "class"
  | .structType => "struct"
  | .enumType => "enum"
  | .interfaceType => "interface"

def tag : TypeKind → UInt8
  | .classType => 0
  | .structType => 1
  | .enumType => 2
  | .interfaceType => 3

def ofTag? : UInt8 → Option TypeKind
  | 0 => some .classType
  | 1 => some .structType
  | 2 => some .enumType
  | 3 => some .interfaceType
  | _ => none

@[simp] theorem ofTag?_tag (kind : TypeKind) : ofTag? kind.tag = some kind := by
  cases kind <;> rfl

def codec : Codec TypeKind :=
  .enumeration .typeKind tag ofTag?

end TypeKind

/-- A declared type. -/
structure TypeDef where
  name : String
  namespaceName : String
  kind : TypeKind := .classType
  flags : UInt32 := 1
  /-- The declared base type of a class. -/
  base : Option Signature := none
  /-- The integral type behind an enumeration. -/
  underlying : Option Signature := none
  attributes : List Attribute := []
  fields : List Field := []
  properties : List Property := []
  methods : List Method := []
  source : Option SourceLocation := none
deriving DecidableEq, Repr

namespace TypeDef

def abstractFlag : UInt32 := 2

def qualifiedName (type : TypeDef) : QualifiedName :=
  ⟨type.namespaceName, type.name⟩

def fullName (type : TypeDef) : String :=
  type.qualifiedName.full

/-- The signature that means this type. -/
def signature (type : TypeDef) : Signature :=
  .named type.qualifiedName

def isAbstract (type : TypeDef) : Bool :=
  hasFlag type.flags abstractFlag

/-- The index of the first method with a name. -/
def findMethod? (type : TypeDef) (name : String) : Option Nat :=
  type.methods.findIdx? (·.name == name)

/-- The index of the first field with a name. -/
def findField? (type : TypeDef) (name : String) : Option Nat :=
  type.fields.findIdx? (·.name == name)

/-- The index of the first property with a name. -/
def findProperty? (type : TypeDef) (name : String) : Option Nat :=
  type.properties.findIdx? (·.name == name)

/-- The instance constructors with their method indices. -/
def constructors (type : TypeDef) : List (Nat × Method) :=
  (type.methods.zipIdx.filter (·.1.isConstructor)).map fun (method, index) => (index, method)

/-- The index of the method that initializes the type. -/
def initializer? (type : TypeDef) : Option Nat :=
  type.methods.findIdx? (·.isTypeInitializer)

/-- Add a method behind the others. -/
def addMethod (type : TypeDef) (method : Method) : TypeDef :=
  { type with methods := type.methods ++ [method] }

/-- Where an accessor is found after the method at `index` is gone. -/
def accessorWithout (index : Nat) (accessor : Option UInt32) : Option UInt32 :=
  accessor.bind fun place =>
    if place.toNat = index then none
    else if index < place.toNat then some (place - 1)
    else some place

/-- Remove a method; properties keep naming the accessors they named.  There is no result for an
index without a method. -/
def removeMethod? (type : TypeDef) (index : Nat) : Option (Method × TypeDef) :=
  type.methods[index]?.map fun removed =>
    (removed, { type with
      methods := type.methods.eraseIdx index
      properties := type.properties.map fun property => { property with
        getter := accessorWithout index property.getter
        setter := accessorWithout index property.setter } })

def codec : Codec TypeDef :=
  (Codec.string.and (Codec.string.and (TypeKind.codec.and (Codec.u32.and
    (Signature.codec.option.and (Signature.codec.option.and (Attribute.codec.list.and
    (Field.codec.list.and (Property.codec.list.and (Method.codec.list.and
    SourceLocation.codec.option)))))))))).convert
    (fun (name, namespaceName, kind, flags, base, underlying, attributes, fields, properties,
        methods, source) =>
      ⟨name, namespaceName, kind, flags, base, underlying, attributes, fields, properties,
        methods, source⟩)
    (fun type => (type.name, type.namespaceName, type.kind, type.flags, type.base,
      type.underlying, type.attributes, type.fields, type.properties, type.methods, type.source))

end TypeDef

/-- A compiled module. -/
structure Module where
  magic : Bytes
  version : UInt32
  flags : UInt32
  types : List TypeDef
  tables : Tables
  name : String
  /-- Names of the modules that this one refers to. -/
  references : List String
deriving DecidableEq, Repr

namespace Module

/-- The bytes that every module starts with. -/
def expectedMagic : Bytes := [0x54, 0x45, 0x54, 0x48]

/-- The version of the stored form. -/
def currentVersion : UInt32 := 1

/-- Set on modules that have been woven. -/
def wovenFlag : UInt32 := 2

/-- A module without contents. -/
def empty (name : String) : Module where
  magic := expectedMagic
  version := currentVersion
  flags := 0
  types := []
  tables := {}
  name := name
  references := []

def isWoven (module : Module) : Bool :=
  hasFlag module.flags wovenFlag

/-- The index of the first type with a name. -/
def findType? (module : Module) (name : QualifiedName) : Option Nat :=
  module.types.findIdx? fun type =>
    type.name == name.name && type.namespaceName == name.namespaceName

/-- The first type with a name. -/
def type? (module : Module) (name : QualifiedName) : Option TypeDef :=
  module.types.find? fun type => type.name == name.name && type.namespaceName == name.namespaceName

theorem mem_of_type? {module : Module} {name : QualifiedName} {type : TypeDef}
    (found : module.type? name = some type) :
    type ∈ module.types ∧ type.qualifiedName = name := by
  have selected := List.find?_some found
  simp only [Bool.and_eq_true, beq_iff_eq] at selected
  exact ⟨List.mem_of_find?_eq_some found, by cases name; simp_all [TypeDef.qualifiedName]⟩

/-- The module's header is one that this version can work with; otherwise the text says why not. -/
def validate (module : Module) : Except String Unit :=
  if module.magic ≠ expectedMagic then
    .error "Invalid magic number"
  else if module.version ≠ currentVersion then
    .error s!"Unsupported version: {module.version}"
  else
    .ok ()

end Module

end NativeWeave
