import NativeWeave.Extraction.Member

namespace NativeWeave

/-!
# Bindings of enumerations

A native enumeration is backed by a byte, and its members have the values 0, 1, 2 and so on in the
order of their declarations.
-/

namespace Scope

/-- What is wrong with the type behind an enumeration. -/
def backingFindings (type : TypeDef) : List Diagnostic :=
  if type.underlying = some (.primitive .u8) then
    []
  else
    let backing := (type.underlying.map (·.text)).getD "unknown"
    [((Diagnostic.error .enumBackingType
      (s!"enum '{type.fullName}' is backed by '{backing}' but native enums must be backed by "
        ++ "a byte")).atSymbol type.fullName).atLocation type.source]

/-- What is wrong with a member that should have its position as its value. -/
def positionFindings (type : TypeDef) (field : Field) (position : Nat) : List Diagnostic :=
  if field.constant = some (Int64.ofNat position) then
    []
  else
    let found := (field.constant.map toString).getD "no value"
    [(((Diagnostic.error .enumSequence
      s!"enum member '{field.name}' has value {found} but must be {position}").atSymbol
        (type.memberSymbol field.name)).atLocation (field.source.or type.source)).withNote
          "native enum members must form a contiguous sequence starting at 0"]

/-- The binding of an annotated enumeration. -/
def extractEnum (scope : Scope) (index : Nat) (type : TypeDef) : Extracted EnumBinding :=
  let members := type.fields.filter (·.isLiteral)
  let diagnostics := backingFindings type
    ++ members.zipIdx.flatMap fun (field, position) => positionFindings type field position
  let binding : EnumBinding :=
    { name := type.qualifiedName
      nativeName := scope.config.nativeTypeName type Annotation.nativeEnum
      type := index
      members := members.map (·.name)
      source := type.source }
  ⟨if diagnostics.isEmpty then some binding else none, diagnostics⟩

end Scope

end NativeWeave
