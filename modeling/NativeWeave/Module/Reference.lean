import NativeWeave.Module.Member

namespace NativeWeave

/-!
# References and the tables that instructions point into

Instructions refer to texts, members and types by their index in tables of the module.  A table only
ever grows, and an entry that is already there is used again, so an index keeps its meaning.
-/

/-- What kind of member a reference means. -/
inductive MemberKind
  | field (type : Signature) (isStatic : Bool)
  | method (signature : MethodSignature)
deriving DecidableEq, Repr

namespace MemberKind

def tag : MemberKind → UInt8
  | field _ _ => 0
  | method _ => 1

/-- The bytes behind the tag. -/
def body : MemberKind → Bytes
  | field type isStatic => (Signature.codec.and Codec.flag).encode (type, isStatic)
  | method signature => MethodSignature.codec.encode signature

/-- The reader of the bytes behind a tag. -/
def body? : UInt8 → Option (Decoder MemberKind)
  | 0 =>
    some ((fun (type, isStatic) => field type isStatic) <$> (Signature.codec.and Codec.flag).decode)
  | 1 => some (method <$> MethodSignature.codec.decode)
  | _ => none

def codec : Codec MemberKind :=
  .tagged .memberReference tag body body?

end MemberKind

/-- A reference to a field or a method, possibly of another module. -/
structure MemberRef where
  owner : Signature
  name : String
  kind : MemberKind
deriving DecidableEq, Repr

namespace MemberRef

/-- A reference to an instance field. -/
def field (owner : Signature) (name : String) (type : Signature) : MemberRef :=
  ⟨owner, name, .field type false⟩

/-- A reference to a static field. -/
def staticField (owner : Signature) (name : String) (type : Signature) : MemberRef :=
  ⟨owner, name, .field type true⟩

/-- A reference to a method of an instance. -/
def instanceMethod (owner : Signature) (name : String) (parameters : List Signature)
    (result : Signature) : MemberRef :=
  ⟨owner, name, .method ⟨true, parameters, result⟩⟩

/-- A reference to a static method. -/
def staticMethod (owner : Signature) (name : String) (parameters : List Signature)
    (result : Signature) : MemberRef :=
  ⟨owner, name, .method ⟨false, parameters, result⟩⟩

/-- The signature of a referenced method. -/
def methodSignature? (member : MemberRef) : Option MethodSignature :=
  match member.kind with
  | .method signature => some signature
  | .field _ _ => none

def isMethod (member : MemberRef) : Bool :=
  member.methodSignature?.isSome

/-- The reference means an instance constructor. -/
def isConstructor (member : MemberRef) : Bool :=
  member.name == Method.constructorName && member.methodSignature?.any (·.hasThis)

def codec : Codec MemberRef :=
  (Signature.codec.and (Codec.string.and MemberKind.codec)).convert
    (fun (owner, name, kind) => ⟨owner, name, kind⟩)
    (fun member => (member.owner, member.name, member.kind))

end MemberRef

/-- The index of an item and a list that has it there: the first equal item, or a new one at the
end. -/
def intern {α : Type} [DecidableEq α] (items : List α) (item : α) : UInt32 × List α :=
  match items.idxOf? item with
  | some index => (UInt32.ofNat index, items)
  | none => (UInt32.ofNat items.length, items ++ [item])

/-- The tables that instructions point into. -/
structure Tables where
  strings : List String := []
  members : List MemberRef := []
  types : List Signature := []
deriving DecidableEq, Repr

namespace Tables

def string? (tables : Tables) (index : UInt32) : Option String :=
  tables.strings[index.toNat]?

def member? (tables : Tables) (token : UInt32) : Option MemberRef :=
  tables.members[token.toNat]?

def type? (tables : Tables) (token : UInt32) : Option Signature :=
  tables.types[token.toNat]?

/-- The index of a text in the string pool, which gains the text if it lacks it. -/
def internString (tables : Tables) (text : String) : UInt32 × Tables :=
  let (index, strings) := intern tables.strings text
  (index, { tables with strings })

/-- The token of a member reference, which is added if it is missing. -/
def internMember (tables : Tables) (member : MemberRef) : UInt32 × Tables :=
  let (token, members) := intern tables.members member
  (token, { tables with members })

/-- The token of a type, which is added if it is missing. -/
def internType (tables : Tables) (type : Signature) : UInt32 × Tables :=
  let (token, types) := intern tables.types type
  (token, { tables with types })

/-- The tokens of the members that satisfy a condition, in order. -/
def memberTokens (tables : Tables) (condition : MemberRef → Bool) : List UInt32 :=
  (tables.members.zipIdx.filter fun (member, _) => condition member).map fun (_, index) =>
    UInt32.ofNat index

end Tables

end NativeWeave
