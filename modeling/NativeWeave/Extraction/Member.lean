import NativeWeave.Binding.Rule
import NativeWeave.Category.DeclaredHash

namespace NativeWeave

/-!
# Bindings of members

A member is classified by its type, without reference, and by the shape that its property annotation
gives.  The other arguments of the annotation and the plain annotations beside it fill in the
binding.  A type that cannot cross the boundary is reported and gives no binding.
-/

/-- What an examination gives: a binding, if there is one, and everything found on the way. -/
structure Extracted (Binding : Type) where
  binding : Option Binding := none
  diagnostics : List Diagnostic := []

namespace Extracted

variable {Binding : Type}

/-- Nothing was found at all. -/
def nothing : Extracted Binding := {}

def ofDiagnostic (diagnostic : Diagnostic) : Extracted Binding :=
  { diagnostics := [diagnostic] }

/-- The bindings of several examinations, in order. -/
def bindings (results : List (Extracted Binding)) : List Binding :=
  results.filterMap (·.binding)

/-- Everything found by several examinations, in order. -/
def allDiagnostics (results : List (Extracted Binding)) : List Diagnostic :=
  results.flatMap (·.diagnostics)

end Extracted

/-- A declaration that a member binding is made from. -/
structure MemberDeclaration where
  name : String
  type : Signature
  access : Access := .everyone
  attributes : List Attribute := []
  origin : MemberOrigin
  source : Option SourceLocation

/-- The condition that an annotation sets. -/
def Attribute.condition? (attr : Attribute) : Option ConditionSetting :=
  ((attr.named? Annotation.conditionArgument).bind (·.asInt?)).map fun value =>
    match ReplicationCondition.ofInt? value with
    | some condition => .known condition
    | none => .unknown value

namespace Scope

/-- The binding of a declaration with a category. -/
def memberBinding (scope : Scope) (declaration : MemberDeclaration) (category : Category)
    (hashOverride : Option String) (source : Option SourceLocation) : MemberBinding :=
  let attr := scope.config.findAnnotation? declaration.attributes Annotation.nativeProperty
  { name := declaration.name
    nativeName := (attr.bind (Config.nonEmptyText? · Annotation.nameArgument)).getD declaration.name
    type := declaration.type
    access := declaration.access
    category
    flags := scope.config.propertyFlags declaration.attributes
    origin := declaration.origin
    label := attr.bind (·.text? Annotation.categoryArgument)
    condition := attr.bind (·.condition?)
    customCondition := attr.bind (·.text? Annotation.customConditionArgument)
    repNotify := attr.bind (·.text? Annotation.replicatedUsingArgument)
    allowPrivateAccess := attr.any (·.isTrue Annotation.allowPrivateArgument)
    hashOverride
    source }

/-- The binding of a declaration in a type, or why there is none. -/
def extractMember (scope : Scope) (owner : TypeDef) (declaration : MemberDeclaration) :
    Remembering (Except Diagnostic MemberBinding) := do
  let source := declaration.source.or owner.source
  let attr := scope.config.findAnnotation? declaration.attributes Annotation.nativeProperty
  match ← scope.classify declaration.type.stripByRef (.ofAttribute attr) with
  | .error refusal =>
    return .error
      ((refusal.diagnostic.atSymbol (owner.memberSymbol declaration.name)).atLocation source)
  | .ok category =>
    let hashOverride ← scope.hashOverride? owner.qualifiedName category
    return .ok (scope.memberBinding declaration category hashOverride source)

/-- The binding of a property or a field together with what the rules find. -/
def extractChecked (scope : Scope) (owner : TypeDef) (declaration : MemberDeclaration) :
    Remembering (Extracted MemberBinding) := do
  match ← scope.extractMember owner declaration with
  | .error diagnostic => return .ofDiagnostic diagnostic
  | .ok member => return ⟨some member, member.violations owner⟩

end Scope

/-- A report of a static member that is exposed. -/
def TypeDef.staticMember (owner : TypeDef) (member : String) (source : Option SourceLocation) :
    Diagnostic :=
  ((Diagnostic.error .staticMember s!"static member '{member}' cannot be exposed").atSymbol
    (owner.memberSymbol member)).atLocation (source.or owner.source)

end NativeWeave
