import NativeWeave.Extraction.Function

namespace NativeWeave

/-!
# Bindings of classes

A class derives from the native root and exposes properties and functions.  A class that is not
abstract has exactly two instance constructors: one without parameters, by which new objects are
made, and one that takes a native pointer, by which objects come back that the native side
holds.
-/

/-- The method indices of the instance constructors of a class by their parameters. -/
structure ConstructorShapes where
  construction : List Nat
  rehydration : List Nat
  unsupported : List Nat

namespace ConstructorShapes

def ofType (type : TypeDef) : ConstructorShapes :=
  let withParameters := fun (accepts : List Signature → Bool) =>
    (type.constructors.filter fun (_, method) => accepts method.parameterTypes).map (·.1)
  { construction := withParameters (·.isEmpty)
    rehydration := withParameters (· == [.intPtr])
    unsupported := withParameters fun types => !types.isEmpty && types != [.intPtr] }

/-- The only index of a list of one. -/
def single? : List Nat → Option Nat
  | [index] => some index
  | _ => none

/-- The first problem with the constructors of a class that is not abstract. -/
def finding? (shapes : ConstructorShapes) (type : TypeDef) : Option Diagnostic :=
  let symbol := type.fullName
  let report := fun (code : DiagnosticCode) (message : String) (source : Option SourceLocation) =>
    ((Diagnostic.error code message).atSymbol symbol).atLocation source
  let sourceOf := fun (index : Nat) => (type.methods[index]?.bind (·.source)).or type.source
  match shapes.rehydration, shapes.construction with
  | [], _ =>
    some ((report .missingRehydrationConstructor
      s!"rehydration constructor not found on '{symbol}'" type.source).withHelp
        "add a constructor taking a single native pointer (nint)")
  | _ :: second :: _, _ =>
    some (report .duplicateConstructor
      s!"'{symbol}' declares more than one rehydration constructor" (sourceOf second))
  | [_], [] =>
    some ((report .missingConstructionConstructor
      s!"construction constructor not found on '{symbol}'" type.source).withHelp
        "add a parameterless constructor")
  | [_], _ :: second :: _ =>
    some (report .duplicateConstructor
      s!"'{symbol}' declares more than one construction constructor" (sourceOf second))
  | [_], [_] =>
    shapes.unsupported.head?.map fun index =>
      (report .unsupportedConstructor
        s!"'{symbol}' declares a constructor with an unsupported signature"
        (sourceOf index)).withNote
          "only a parameterless and a native-pointer constructor are allowed"

end ConstructorShapes

namespace Scope

/-- The method that reads a property. -/
def getter? (type : TypeDef) (property : Property) : Option Method :=
  property.getter.bind fun index => type.methods[index.toNat]?

/-- The binding of a property, if it is exposed. -/
def extractProperty (scope : Scope) (type : TypeDef) (property : Property) (index : Nat) :
    Remembering (Extracted MemberBinding) :=
  if !scope.config.isAnnotated property.attributes Annotation.nativeProperty then
    return .nothing
  else
    match getter? type property with
    | none =>
      return .ofDiagnostic (((Diagnostic.error .propertyWithoutGetter
        s!"exposed property '{property.name}' has no getter").atSymbol
          (type.memberSymbol property.name)).atLocation (property.source.or type.source))
    | some getter =>
      if getter.isStatic then
        return .ofDiagnostic (type.staticMember property.name property.source)
      else
        scope.extractChecked type
          { name := property.name
            type := property.type
            access := getter.access
            attributes := property.attributes
            origin := .property index
            source := property.source.or getter.source }

/-- Reports of the exposed fields of a class. -/
def exposedFields (scope : Scope) (type : TypeDef) : List Diagnostic :=
  let exposed := type.fields.filter fun field =>
    scope.config.isAnnotated field.attributes Annotation.nativeProperty
  exposed.map fun field =>
    (((Diagnostic.error .exposedClassField
      s!"class field '{field.name}' is exposed; classes must expose properties").atSymbol
        (type.memberSymbol field.name)).atLocation (field.source.or type.source)).withHelp
          "turn the field into an auto-property"

/-- The binding of an annotated class that derives from the native root. -/
def extractDerived (scope : Scope) (index : Nat) (type : TypeDef) :
    Remembering (Extracted ClassBinding) := do
  let shapes := ConstructorShapes.ofType type
  let constructors := if type.isAbstract then [] else (shapes.finding? type).toList
  let members ← type.properties.zipIdx.mapM fun (property, place) =>
    scope.extractProperty type property place
  let functions ← type.methods.zipIdx.mapM fun (method, place) =>
    scope.extractFunction type method place
  let diagnostics := constructors ++ Extracted.allDiagnostics members ++ scope.exposedFields type
    ++ Extracted.allDiagnostics functions
  let binding : ClassBinding :=
    { name := type.qualifiedName
      nativeName := scope.config.nativeTypeName type Annotation.nativeClass
      type := index
      base := scope.base? type.qualifiedName
      isAbstract := type.isAbstract
      construction := ConstructorShapes.single? shapes.construction
      rehydration := ConstructorShapes.single? shapes.rehydration
      members := Extracted.bindings members
      functions := Extracted.bindings functions
      source := type.source }
  return ⟨if Diagnostic.hasErrors diagnostics then none else some binding, diagnostics⟩

/-- The binding of an annotated class. -/
def extractClass (scope : Scope) (index : Nat) (type : TypeDef) :
    Remembering (Extracted ClassBinding) :=
  if scope.derivesFromRoot type.qualifiedName then
    scope.extractDerived index type
  else
    return .ofDiagnostic (((Diagnostic.error .notNativeDerived
      (s!"class '{type.fullName}' is annotated but does not derive from "
        ++ s!"'{scope.config.root.full}'")).atSymbol type.fullName).atLocation type.source)

end Scope

end NativeWeave
