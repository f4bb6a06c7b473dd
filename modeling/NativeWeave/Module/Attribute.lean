import NativeWeave.Signature.Format

namespace NativeWeave

/-!
# Attributes

An attribute annotates a type, a member or a parameter.  It names its own type and carries constant
arguments, some by position and some by name.  Names of arguments may repeat; the first one counts.
-/

/-- A constant argument of an attribute. -/
inductive AttributeValue
  | null
  | bool (value : Bool)
  /-- An argument of any integral or enumeration type. -/
  | int (value : Int64)
  | string (value : String)
  | type (value : Signature)
deriving DecidableEq, Repr

namespace AttributeValue

def asBool? : AttributeValue → Option Bool
  | bool value => some value
  | _ => none

def asInt? : AttributeValue → Option Int64
  | int value => some value
  | _ => none

def asString? : AttributeValue → Option String
  | string value => some value
  | _ => none

def tag : AttributeValue → UInt8
  | null => 0
  | bool _ => 1
  | int _ => 2
  | string _ => 3
  | type _ => 4

/-- The bytes behind the tag. -/
def body : AttributeValue → Bytes
  | null => []
  | bool value => Codec.flag.encode value
  | int value => Codec.i64.encode value
  | string value => Codec.string.encode value
  | type value => Signature.codec.encode value

/-- The reader of the bytes behind a tag. -/
def body? : UInt8 → Option (Decoder AttributeValue)
  | 0 => some (pure null)
  | 1 => some (bool <$> Codec.flag.decode)
  | 2 => some (int <$> Codec.i64.decode)
  | 3 => some (string <$> Codec.string.decode)
  | 4 => some (type <$> Signature.codec.decode)
  | _ => none

def codec : Codec AttributeValue :=
  .tagged .attributeValue tag body body?

end AttributeValue

/-- An annotation with its arguments. -/
structure Attribute where
  type : QualifiedName
  arguments : List AttributeValue := []
  named : List (String × AttributeValue) := []
deriving DecidableEq, Repr

namespace Attribute

/-- The attribute's type has this dotted full name. -/
def isNamed (attr : Attribute) (full : String) : Bool :=
  attr.type.isFull full

/-- The first argument with the given name. -/
def named? (attr : Attribute) (key : String) : Option AttributeValue :=
  (attr.named.find? (·.1 == key)).map (·.2)

/-- The argument at a position. -/
def argument? (attr : Attribute) (index : Nat) : Option AttributeValue :=
  attr.arguments[index]?

/-- The first attribute whose type has the given full name. -/
def find? (attributes : List Attribute) (full : String) : Option Attribute :=
  attributes.find? (·.isNamed full)

/-- The type of an attribute is stored as a signature, which has to be a plain name. -/
def typeCodec : Codec QualifiedName where
  encode name := Signature.codec.encode (.named name)
  decode := do
    let start ← Decoder.offset
    match ← Signature.codec.decode with
    | .named name => pure name
    | _ => throw (.invalidTag .attributeType 0 start)

def codec : Codec Attribute :=
  (typeCodec.and (AttributeValue.codec.list.and
    (Codec.string.and AttributeValue.codec).list)).convert
    (fun (type, arguments, named) => ⟨type, arguments, named⟩)
    (fun attr => (attr.type, attr.arguments, attr.named))

end Attribute

end NativeWeave
