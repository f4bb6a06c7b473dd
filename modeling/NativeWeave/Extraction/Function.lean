import NativeWeave.Extraction.Member

namespace NativeWeave

/-!
# Bindings of functions

An exposed function needs a body.  Its parameters and its return value are classified like members,
and they take their direction from the declaration.  Members that are generated for the function
must not exist already.
-/

namespace Scope

/-- A finding about an exposed function. -/
def functionFinding (type : TypeDef) (method : Method) (code : DiagnosticCode) (message : String) :
    Diagnostic :=
  ((Diagnostic.error code message).atSymbol (type.memberSymbol method.name)).atLocation
    (method.source.or type.source)

/-- The first existing member with a name that is generated for a function. -/
def generatedConflict? (type : TypeDef) (function : String) : Option String :=
  let methods := [Naming.implementation function, Naming.invoker function]
  let fields := [Naming.functionSlot function, Naming.parametersSizeSlot function]
  (methods.find? fun name => (type.findMethod? name).isSome).or
    (fields.find? fun name => (type.findField? name).isSome)

/-- A method checks the arguments of another one: it takes the same parameters, is static if that
one is, and gives a truth value. -/
def validates (candidate method : Method) : Bool :=
  candidate.name == Naming.validation method.name
    && candidate.result == .bool
    && candidate.isStatic == method.isStatic
    && candidate.parameterTypes == method.parameterTypes

/-- What is wrong with the declaration of a function apart from its parameters. -/
def functionFindings (type : TypeDef) (method : Method) (flags : FunctionFlags) :
    List Diagnostic :=
  let finding := functionFinding type method
  let withoutBody := if method.body.isNone || method.isAbstract then
      [finding .functionWithoutBody s!"exposed function '{method.name}' has no body"]
    else
      []
  let staticEvent := if flags.has .staticFunction && flags.has .nativeEvent then
      [finding .invalidFunctionFlags
        s!"static function '{method.name}' cannot be overridable from native code"]
    else
      []
  let conflict := (generatedConflict? type method.name).toList.map fun name =>
    finding .generatedNameConflict
      s!"'{name}' conflicts with a member generated for exposed function '{method.name}'"
  let missingValidation :=
    if flags.has .withValidation && !type.methods.any (validates · method) then
      let name := Naming.validation method.name
      [(finding .missingValidationMethod
        s!"validation method '{name}' not found for '{method.name}'").withNote
          "it must take the same parameters and return bool"]
    else
      []
  withoutBody ++ staticEvent ++ conflict ++ missingValidation

/-- The binding of a parameter or a return value with the flags of its direction.  Fixed arrays
cannot be handed over. -/
def extractValue (scope : Scope) (type : TypeDef) (method : Method)
    (declaration : MemberDeclaration) (direction : List PropertyFlag) :
    Remembering (Extracted MemberBinding) := do
  match ← scope.extractMember type declaration with
  | .error diagnostic => return .ofDiagnostic diagnostic
  | .ok member =>
    if member.category.isArray then
      return .ofDiagnostic (((Diagnostic.error .fixedArrayParameter
        (s!"fixed array '{member.name}' cannot be passed to or returned from an exposed "
          ++ "function")).atSymbol (type.memberSymbol method.name)).atLocation member.source)
    else
      return { binding := some { member with flags := member.flags.insertAll direction } }

/-- The flags that a parameter has from its declaration. -/
def directionOf (parameter : Parameter) : List PropertyFlag :=
  if parameter.isOut then [.parameter, .outParameter]
  else if parameter.type.isByRef then [.parameter, .referenceParameter]
  else [.parameter]

/-- The binding of a parameter. -/
def extractParameter (scope : Scope) (type : TypeDef) (method : Method) (parameter : Parameter)
    (index : Nat) : Remembering (Extracted MemberBinding) :=
  scope.extractValue type method
    { name := parameter.name
      type := parameter.type
      attributes := parameter.attributes
      origin := .parameter index
      source := method.source.or type.source }
    (directionOf parameter)

/-- The binding of a return value, if there is one. -/
def extractResult (scope : Scope) (type : TypeDef) (method : Method) :
    Remembering (Extracted MemberBinding) :=
  if method.result.isVoid then
    return .nothing
  else
    scope.extractValue type method
      { name := Naming.returnValue
        type := method.result
        origin := .result
        source := method.source.or type.source }
      [.parameter, .returnParameter]

/-- The binding of a method with the given annotation. -/
def extractAnnotated (scope : Scope) (type : TypeDef) (method : Method) (index : Nat)
    (attr : Attribute) : Remembering (Extracted FunctionBinding) := do
  let flags := FunctionFlags.ofAttribute attr method.isStatic
  let parameters ← method.parameters.zipIdx.mapM fun (parameter, place) =>
    scope.extractParameter type method parameter place
  let result ← scope.extractResult type method
  let diagnostics := functionFindings type method flags ++ Extracted.allDiagnostics parameters
    ++ result.diagnostics
  let function : FunctionBinding :=
    { name := method.name
      nativeName := (Config.nonEmptyText? attr Annotation.nameArgument).getD method.name
      method := index
      flags
      access := method.access
      label := attr.text? Annotation.categoryArgument
      parameters := Extracted.bindings parameters
      result := result.binding
      source := method.source.or type.source }
  if Diagnostic.hasErrors diagnostics then
    return { diagnostics }
  else
    return ⟨some function, diagnostics ++ function.violations type⟩

/-- The binding of a method, if it is exposed. -/
def extractFunction (scope : Scope) (type : TypeDef) (method : Method) (index : Nat) :
    Remembering (Extracted FunctionBinding) :=
  match scope.config.findAnnotation? method.attributes Annotation.nativeFunction with
  | some attr => scope.extractAnnotated type method index attr
  | none => return .nothing

end Scope

end NativeWeave
