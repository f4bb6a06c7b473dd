import NativeWeave.Binding.Basic
import NativeWeave.Diagnostic

namespace NativeWeave

/-!
# Rules for exposed members and functions

Each rule relates the annotations of a member or a function to one another or to the methods of the
declaring type, and reports what does not fit.  Rules are independent of one another.
-/

/-- A rule that exposed members and functions have to keep. -/
inductive Rule
  | privateAccess
  | categoryLabel
  | replicationCondition
  | repNotify
deriving DecidableEq, Repr

namespace Rule

/-- The rules in the order in which they report. -/
def all : List Rule := [privateAccess, categoryLabel, replicationCondition, repNotify]

def name : Rule → String
  | privateAccess => "private-access"
  | categoryLabel => "category-label"
  | replicationCondition => "replication-condition"
  | repNotify => "rep-notify"

/-- The codes that a rule can report. -/
def codes : Rule → List DiagnosticCode
  | privateAccess => [.privateExposure]
  | categoryLabel => [.missingCategory, .unusedCategory]
  | replicationCondition => [.missingReplicationCondition, .invalidCustomCondition]
  | repNotify => [.invalidRepNotify]

def description : Rule → String
  | privateAccess => "Disallow exposing private members without an explicit override"
  | categoryLabel => "Require a category label exactly when a member is visible or callable"
  | replicationCondition => "Require a valid replication condition on replicated members"
  | repNotify => "Require change-notification methods to exist with a compatible shape"

/-- A finding about a member of a type. -/
def finding (owner : TypeDef) (member : String) (source : Option SourceLocation)
    (code : DiagnosticCode) (message : String) : Diagnostic :=
  ((Diagnostic.error code message).atSymbol (owner.memberSymbol member)).atLocation source

/-! ## The rules -/

/-- A private member is visible only if its annotation allows that. -/
def checkPrivateAccess (owner : TypeDef) (member : MemberBinding) : List Diagnostic :=
  if member.access = .owner ∧ member.isVisible ∧ !member.allowPrivateAccess then
    [(finding owner member.name member.source .privateExposure
      s!"private member '{member.name}' is marked externally visible").withHelp
        "make the member public or set AllowPrivateAccess = true"]
  else
    []

/-- What is shown needs a heading, and a heading needs something to be shown. -/
def checkCategoryLabel (owner : TypeDef) (name : String) (isShown : Bool) (label : Option String)
    (source : Option SourceLocation) : List Diagnostic :=
  let labelled := label.any (!·.isEmpty)
  if isShown && !labelled then
    [finding owner name source .missingCategory
      s!"'{name}' is visible to the editor or scripting but declares no category"]
  else if labelled && !isShown then
    [finding owner name source .unusedCategory
      s!"'{name}' declares a category but is neither visible nor callable"]
  else
    []

/-- A custom condition names a method without parameters that gives a truth value. -/
def checkCustomCondition (owner : TypeDef) (member : MemberBinding) : List Diagnostic :=
  let method := member.customCondition.getD ""
  let isCondition := fun (candidate : Method) =>
    candidate.name == method && candidate.result == .bool && candidate.parameters.isEmpty
  if method.isEmpty then
    [finding owner member.name member.source .invalidCustomCondition
      s!"'{member.name}' uses a custom replication condition but names no condition method"]
  else if owner.methods.any isCondition then
    []
  else
    [(finding owner member.name member.source .invalidCustomCondition
      s!"custom replication condition method '{method}' not found on '{owner.fullName}'").withNote
        "the condition method must take no parameters and return bool"]

/-- A replicated member has a condition of replication. -/
def checkReplication (owner : TypeDef) (member : MemberBinding) : List Diagnostic :=
  if member.flags.has .replicated then
    match member.condition with
    | none =>
      [(finding owner member.name member.source .missingReplicationCondition
        s!"replicated member '{member.name}' declares no replication condition").withHelp
          "set Condition on the property annotation"]
    | some (.unknown value) =>
      [finding owner member.name member.source .missingReplicationCondition
        s!"'{member.name}' has an unknown replication condition value {value}"]
    | some (.known .custom) => checkCustomCondition owner member
    | some (.known _) => []
  else
    []

/-- A method can be told of changes of values of a type. -/
def canNotify (method : Method) (type : Signature) : Bool :=
  !method.isStatic && (method.parameterTypes == [] || method.parameterTypes == [type])

/-- The method that is told of changes exists and can take them. -/
def checkRepNotify (owner : TypeDef) (member : MemberBinding) : List Diagnostic :=
  match member.repNotify.filter (!·.isEmpty) with
  | none => []
  | some notify =>
    if owner.methods.any fun method => method.name == notify && canNotify method member.type then
      []
    else
      [(finding owner member.name member.source .invalidRepNotify
        (s!"notification method '{notify}' for '{member.name}' not found or has an incompatible "
          ++ "signature")).withNote
          s!"expected no parameters or a single '{member.type.text}' parameter"]

/-- What a rule finds wrong with an exposed member of a type. -/
def checkMember (rule : Rule) (owner : TypeDef) (member : MemberBinding) : List Diagnostic :=
  match rule with
  | privateAccess => checkPrivateAccess owner member
  | categoryLabel =>
    checkCategoryLabel owner member.name member.isVisible member.label member.source
  | replicationCondition => checkReplication owner member
  | repNotify => checkRepNotify owner member

/-- What a rule finds wrong with an exposed function of a type. -/
def checkFunction (rule : Rule) (owner : TypeDef) (function : FunctionBinding) : List Diagnostic :=
  match rule with
  | categoryLabel =>
    checkCategoryLabel owner function.name (function.flags.has .callable) function.label
      function.source
  | _ => []

end Rule

/-- What the rules find wrong with an exposed member of a type. -/
def MemberBinding.violations (member : MemberBinding) (owner : TypeDef) : List Diagnostic :=
  Rule.all.flatMap (·.checkMember owner member)

/-- What the rules find wrong with an exposed function of a type. -/
def FunctionBinding.violations (function : FunctionBinding) (owner : TypeDef) : List Diagnostic :=
  Rule.all.flatMap (·.checkFunction owner function)

end NativeWeave
