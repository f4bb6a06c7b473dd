import NativeWeave.Bytes.Codec

namespace NativeWeave

/-!
# Names of types

A type is known by its namespace and its simple name; the namespace may be empty.  The dotted
full name is how a name is shown and how annotations are looked up.
-/

/-- The namespace and the simple name of a type. -/
structure QualifiedName where
  namespaceName : String
  name : String
deriving DecidableEq, Repr, Inhabited

namespace QualifiedName

/-- The name with its namespace before a dot; a bare name when the namespace is empty. -/
def full (name : QualifiedName) : String :=
  if name.namespaceName.isEmpty then name.name else name.namespaceName ++ "." ++ name.name

/-- Split a dotted name before its last segment. -/
def parse (text : String) : QualifiedName :=
  let simple := (text.toList.reverse.takeWhile (· != '.')).reverse
  let space := text.toList.take (text.length - simple.length - 1)
  ⟨String.ofList space, String.ofList simple⟩

/-- Compare with a dotted full name without building one: the byte lengths have to add up, the
namespace has to stand in front, a dot right behind it, and the simple name at the end.  There is no
answer if the byte that has to be the dot lies outside the text. -/
def isFull? (name : QualifiedName) (text : String) : Option Bool :=
  if name.namespaceName.isEmpty then
    some (name.name == text)
  else
    let bytes := Bytes.ofString text
    let space := Bytes.ofString name.namespaceName
    let simple := Bytes.ofString name.name
    if bytes.length == space.length + 1 + simple.length && space.isPrefixOf bytes then
      bytes[space.length]?.map fun byte => byte == 46 && simple.isSuffixOf bytes
    else
      some false

/-- The dotted full name is the text, as far as the comparison can tell. -/
def isFull (name : QualifiedName) (text : String) : Bool :=
  name.isFull? text == some true

/-- Stored as the namespace and then the simple name. -/
def codec : Codec QualifiedName :=
  (Codec.string.and Codec.string).convert
    (fun (space, name) => ⟨space, name⟩) (fun name => (name.namespaceName, name.name))

end QualifiedName

end NativeWeave
