import NativeWeave.Extraction.Member

namespace NativeWeave

/-!
# Bindings of structs

A struct exposes fields.  Whether it has the same bytes on both sides is worked out and must not be
declared; a struct that has not gets generated members for marshalling, which must not exist
already.
-/

namespace Scope

/-- Reports of the exposed functions of a type that is no annotated class; only an annotated class can
expose functions. -/
def strayFunctions (scope : Scope) (type : TypeDef) : List Diagnostic :=
  let exposed := type.methods.filter fun method =>
    scope.config.isAnnotated method.attributes Annotation.nativeFunction
  exposed.map fun method =>
    ((Diagnostic.error .functionOutsideClass
      (s!"function '{method.name}' is exposed but '{type.fullName}' is not an annotated "
        ++ "class")).atSymbol (type.memberSymbol method.name)).atLocation
          (method.source.or type.source)

/-- What is wrong with the declaration of a struct apart from its fields. -/
def structFindings (scope : Scope) (type : TypeDef) : List Diagnostic :=
  let declared := if scope.config.isAnnotated type.attributes Annotation.blittable then
      [(((Diagnostic.error .structDeclaresBlittable
        s!"struct '{type.fullName}' declares Blittable, which is computed by the weaver").atSymbol
          type.fullName).atLocation type.source).withHelp "remove the Blittable annotation"]
    else
      []
  let exposed := type.properties.filter fun property =>
    scope.config.isAnnotated property.attributes Annotation.nativeProperty
  declared
    ++ exposed.map (fun property =>
      ((Diagnostic.error .structAccessorMember
        s!"struct property '{property.name}' is exposed; structs must expose plain fields").atSymbol
          (type.memberSymbol property.name)).atLocation (property.source.or type.source))
    ++ scope.strayFunctions type

/-- The binding of a field, if it is exposed. -/
def extractField (scope : Scope) (type : TypeDef) (field : Field) (index : Nat) :
    Remembering (Extracted MemberBinding) :=
  if !scope.config.isAnnotated field.attributes Annotation.nativeProperty then
    return .nothing
  else if field.isStatic then
    return .ofDiagnostic (type.staticMember field.name field.source)
  else
    scope.extractChecked type
      { name := field.name
        type := field.type
        access := field.access
        attributes := field.attributes
        origin := .field index
        source := field.source }

/-- The method is one that marshalling of a struct has to generate. -/
def isMarshalMember (method : Method) : Bool :=
  (method.isConstructor && method.parameterTypes == [.intPtr]) || method.name == Naming.toNative

/-- Reports of methods that marshalling has to generate. -/
def marshalConflicts (type : TypeDef) : List Diagnostic :=
  (type.methods.filter isMarshalMember).map fun method =>
    ((Diagnostic.error .structMarshalConflict
      (s!"struct '{type.fullName}' already declares '{method.name}', which the weaver "
        ++ "generates")).atSymbol (type.memberSymbol method.name)).atLocation
          (method.source.or type.source)

/-- The binding of an annotated struct. -/
def extractStruct (scope : Scope) (index : Nat) (type : TypeDef) :
    Remembering (Extracted StructBinding) := do
  let fields ← type.fields.zipIdx.mapM fun (field, place) => scope.extractField type field place
  let blittable := (← scope.structRepr? type) = some .blittable
  let diagnostics := scope.structFindings type ++ Extracted.allDiagnostics fields
    ++ if blittable then [] else marshalConflicts type
  let binding : StructBinding :=
    { name := type.qualifiedName
      nativeName := scope.config.nativeTypeName type Annotation.nativeStruct
      type := index
      members := Extracted.bindings fields
      blittable
      source := type.source }
  return ⟨if Diagnostic.hasErrors diagnostics then none else some binding, diagnostics⟩

end Scope

end NativeWeave
