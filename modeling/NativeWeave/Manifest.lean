import NativeWeave.Text.Json.Parser

namespace NativeWeave

/-!
# Native types that exist already

A manifest lists the names of the classes, structs and enumerations that the native side has from
elsewhere.  A newly exposed type must not take one of them.
-/

/-- Kinds of native types, each with names of its own. -/
inductive NativeTypeKind
  | classType
  | structType
  | enumType
deriving DecidableEq, Repr

/-- The word for a kind of native type. -/
def NativeTypeKind.text : NativeTypeKind → String
  | classType => "class"
  | structType => "struct"
  | enumType => "enum"

/-- The names of native types that exist already. -/
structure Manifest where
  classes : List String := []
  structs : List String := []
  enums : List String := []
deriving DecidableEq, Repr

namespace Manifest

/-- The names of one kind. -/
def names (manifest : Manifest) : NativeTypeKind → List String
  | .classType => manifest.classes
  | .structType => manifest.structs
  | .enumType => manifest.enums

/-- The name is taken. -/
def contains (manifest : Manifest) (kind : NativeTypeKind) (name : String) : Bool :=
  (manifest.names kind).contains name

def isEmpty (manifest : Manifest) : Bool :=
  manifest.classes.isEmpty && manifest.structs.isEmpty && manifest.enums.isEmpty

/-! ## Reading a manifest -/

def strings? : Json → Option (List String)
  | .array items => items.mapM Json.text?
  | _ => none

/-- The names under a key, none if the key is missing.  A key must not occur twice. -/
def member? (members : List (String × Json)) (key : String) : Option (List String) :=
  match members.filter (·.1 == key) with
  | [] => some []
  | [(_, value)] => strings? value
  | _ => none

/-- The manifest that a value describes: an object whose other members are ignored, or an array of
up to three lists in the order of the kinds. -/
def ofJson? : Json → Option Manifest
  | .object members => do
    let classes ← member? members "classes"
    let structs ← member? members "structs"
    let enums ← member? members "enums"
    return { classes, structs, enums }
  | .array items => do
    if 3 < items.length then none
    let lists ← items.mapM strings?
    return ⟨lists.getD 0 [], lists.getD 1 [], lists.getD 2 []⟩
  | _ => none

/-- Read a manifest; there is no result for a text that is none. -/
def ofText? (text : String) : Option Manifest :=
  (Json.parse? text).bind ofJson?

end Manifest

end NativeWeave
