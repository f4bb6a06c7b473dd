import NativeWeave.Code.Body
import NativeWeave.Module.Attribute

namespace NativeWeave

/-!
# Members of a type

A declared type has fields, properties and methods.  A property stores nothing itself: it names the
methods that get and set it by their index in the type.
-/

/-- From where a member can be used. -/
inductive Access
  /-- Only from the declaring type. -/
  | owner
  /-- Also from derived types. -/
  | family
  /-- From the whole module. -/
  | assembly
  | everyone
deriving DecidableEq, Repr

namespace Access

/-- The name of an accessibility. -/
def text : Access → String
  | .owner => "private"
  | .family => "protected"
  | .assembly => "internal"
  | .everyone => "public"

def tag : Access → UInt8
  | .owner => 0
  | .family => 1
  | .assembly => 2
  | .everyone => 3

def ofTag? : UInt8 → Option Access
  | 0 => some .owner
  | 1 => some .family
  | 2 => some .assembly
  | 3 => some .everyone
  | _ => none

@[simp] theorem ofTag?_tag (access : Access) : ofTag? access.tag = some access := by
  cases access <;> rfl

def codec : Codec Access :=
  .enumeration .access tag ofTag?

end Access

/-- A place in the source text; lines and columns count from one. -/
structure SourceLocation where
  file : String
  line : UInt32
  column : UInt32
deriving DecidableEq, Repr

def SourceLocation.codec : Codec SourceLocation :=
  (Codec.string.and (Codec.u32.and Codec.u32)).convert
    (fun (file, line, column) => ⟨file, line, column⟩)
    (fun location => (location.file, location.line, location.column))

/-- One of the bits of `mask` is set in a word of flags. -/
def hasFlag (flags mask : UInt32) : Bool :=
  flags &&& mask != 0

/-! ## Fields -/

structure Field where
  name : String
  type : Signature
  access : Access := .owner
  flags : UInt32 := 0
  /-- The value of a constant, as enumeration members have it. -/
  constant : Option Int64 := none
  attributes : List Attribute := []
  source : Option SourceLocation := none
deriving DecidableEq, Repr

namespace Field

def staticFlag : UInt32 := 1
def literalFlag : UInt32 := 4
/-- Set on fields that a compiler or the weaver made up. -/
def generatedFlag : UInt32 := 8

def isStatic (field : Field) : Bool :=
  hasFlag field.flags staticFlag

/-- A compile-time constant. -/
def isLiteral (field : Field) : Bool :=
  hasFlag field.flags literalFlag

def codec : Codec Field :=
  (Codec.string.and (Signature.codec.and (Access.codec.and (Codec.u32.and
    (Codec.i64.option.and (Attribute.codec.list.and SourceLocation.codec.option)))))).convert
    (fun (name, type, access, flags, constant, attributes, source) =>
      ⟨name, type, access, flags, constant, attributes, source⟩)
    (fun field => (field.name, field.type, field.access, field.flags, field.constant,
      field.attributes, field.source))

end Field

/-! ## Properties -/

structure Property where
  name : String
  type : Signature
  /-- Index of the method that reads the property. -/
  getter : Option UInt32 := none
  /-- Index of the method that writes the property. -/
  setter : Option UInt32 := none
  attributes : List Attribute := []
  source : Option SourceLocation := none
deriving DecidableEq, Repr

def Property.codec : Codec Property :=
  (Codec.string.and (Signature.codec.and (Codec.u32.option.and (Codec.u32.option.and
    (Attribute.codec.list.and SourceLocation.codec.option))))).convert
    (fun (name, type, getter, setter, attributes, source) =>
      ⟨name, type, getter, setter, attributes, source⟩)
    (fun property => (property.name, property.type, property.getter, property.setter,
      property.attributes, property.source))

/-! ## Methods -/

structure Parameter where
  name : String
  type : Signature
  flags : UInt32 := 0
  attributes : List Attribute := []
deriving DecidableEq, Repr

namespace Parameter

def outFlag : UInt32 := 1

/-- The method writes the parameter and never reads it. -/
def isOut (parameter : Parameter) : Bool :=
  hasFlag parameter.flags outFlag

def codec : Codec Parameter :=
  (Codec.string.and (Signature.codec.and (Codec.u32.and Attribute.codec.list))).convert
    (fun (name, type, flags, attributes) => ⟨name, type, flags, attributes⟩)
    (fun parameter => (parameter.name, parameter.type, parameter.flags, parameter.attributes))

end Parameter

/-- The signature of a method as its callers see it. -/
structure MethodSignature where
  /-- Argument zero is the receiver. -/
  hasThis : Bool
  parameters : List Signature
  result : Signature
deriving DecidableEq, Repr

def MethodSignature.codec : Codec MethodSignature :=
  (Codec.flag.and (Signature.codec.list.and Signature.codec)).convert
    (fun (hasThis, parameters, result) => ⟨hasThis, parameters, result⟩)
    (fun signature => (signature.hasThis, signature.parameters, signature.result))

structure Method where
  name : String
  access : Access := .everyone
  flags : UInt32 := 0
  parameters : List Parameter := []
  result : Signature := .void
  /-- Absent in abstract methods. -/
  body : Option Body := none
  attributes : List Attribute := []
  source : Option SourceLocation := none
deriving DecidableEq, Repr

namespace Method

def staticFlag : UInt32 := 1
def virtualFlag : UInt32 := 2
def abstractFlag : UInt32 := 4
def specialNameFlag : UInt32 := 8
/-- Set on methods that a compiler or the weaver made up. -/
def generatedFlag : UInt32 := 16

/-- The name of instance constructors. -/
def constructorName : String := ".ctor"

/-- The name of the method that initializes a type. -/
def initializerName : String := ".cctor"

def isStatic (method : Method) : Bool := hasFlag method.flags staticFlag
def isVirtual (method : Method) : Bool := hasFlag method.flags virtualFlag
def isAbstract (method : Method) : Bool := hasFlag method.flags abstractFlag

/-- An instance constructor. -/
def isConstructor (method : Method) : Bool :=
  method.name == constructorName && !method.isStatic

/-- The initializer of a type. -/
def isTypeInitializer (method : Method) : Bool :=
  method.name == initializerName && method.isStatic

/-- How many arguments there are, the receiver among them. -/
def argumentCount (method : Method) : Nat :=
  method.parameters.length + if method.isStatic then 0 else 1

def parameterTypes (method : Method) : List Signature :=
  method.parameters.map (·.type)

/-- The signature that callers see. -/
def signature (method : Method) : MethodSignature :=
  ⟨!method.isStatic, method.parameterTypes, method.result⟩

def codec : Codec Method :=
  (Codec.string.and (Access.codec.and (Codec.u32.and (Parameter.codec.list.and (Signature.codec.and
    (Body.codec.option.and (Attribute.codec.list.and SourceLocation.codec.option))))))).convert
    (fun (name, access, flags, parameters, result, body, attributes, source) =>
      ⟨name, access, flags, parameters, result, body, attributes, source⟩)
    (fun method => (method.name, method.access, method.flags, method.parameters, method.result,
      method.body, method.attributes, method.source))

end Method

end NativeWeave
