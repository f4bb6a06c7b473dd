import NativeWeave.Module.Basic
import NativeWeave.Text.Json.Basic

namespace NativeWeave

/-!
# Diagnostics

Mistakes in the annotations of a module are collected as diagnostics, so that one run reports all of
them.  A diagnostic says what is wrong, of which symbol, and where its source stands if that is
known.  It is shown as text over several lines or as a value of the JavaScript object notation.
-/

inductive Severity
  | error
  | warning
deriving DecidableEq, Repr

/-- The word for a severity. -/
def Severity.text : Severity → String
  | error => "error"
  | warning => "warning"

/-- What a diagnostic is about. -/
inductive DiagnosticCode
  | enumBackingType
  | enumSequence
  | structDeclaresBlittable
  | structAccessorMember
  | structMarshalConflict
  | missingConstructionConstructor
  | missingRehydrationConstructor
  | duplicateConstructor
  | unsupportedConstructor
  | notNativeDerived
  | nativeNameCollision
  | unsupportedType
  | privateExposure
  | missingCategory
  | unusedCategory
  | missingReplicationCondition
  | invalidCustomCondition
  | invalidRepNotify
  | missingArrayDim
  | nestedContainer
  | exposedClassField
  | propertyWithoutGetter
  | staticMember
  | functionOutsideClass
  | invalidFunctionFlags
  | functionWithoutBody
  | missingValidationMethod
  | generatedNameConflict
  | fixedArrayParameter
  | unsupportedInitializer
  | baseCallNotFound
  | setterStillReferenced
  | backingFieldAddress
deriving DecidableEq, Repr

namespace DiagnosticCode

/-- The code as it is shown: a letter, a digit for the area and a number. -/
def text : DiagnosticCode → String
  | enumBackingType => "E1001"
  | enumSequence => "E1002"
  | structDeclaresBlittable => "E2001"
  | structAccessorMember => "E2002"
  | structMarshalConflict => "E2003"
  | missingConstructionConstructor => "E3001"
  | missingRehydrationConstructor => "E3002"
  | duplicateConstructor => "E3003"
  | unsupportedConstructor => "E3004"
  | notNativeDerived => "E3005"
  | nativeNameCollision => "E3010"
  | unsupportedType => "E4001"
  | privateExposure => "E4002"
  | missingCategory => "E4003"
  | unusedCategory => "E4004"
  | missingReplicationCondition => "E4005"
  | invalidCustomCondition => "E4006"
  | invalidRepNotify => "E4007"
  | missingArrayDim => "E4008"
  | nestedContainer => "E4009"
  | exposedClassField => "E4010"
  | propertyWithoutGetter => "E4011"
  | staticMember => "E4012"
  | functionOutsideClass => "E5001"
  | invalidFunctionFlags => "E5002"
  | functionWithoutBody => "E5003"
  | missingValidationMethod => "E5004"
  | generatedNameConflict => "E5005"
  | fixedArrayParameter => "E5006"
  | unsupportedInitializer => "E6001"
  | baseCallNotFound => "E6002"
  | setterStillReferenced => "E6003"
  | backingFieldAddress => "E6004"

def all : List DiagnosticCode :=
  [enumBackingType, enumSequence, structDeclaresBlittable, structAccessorMember,
    structMarshalConflict, missingConstructionConstructor, missingRehydrationConstructor,
    duplicateConstructor, unsupportedConstructor, notNativeDerived, nativeNameCollision,
    unsupportedType, privateExposure, missingCategory, unusedCategory, missingReplicationCondition,
    invalidCustomCondition, invalidRepNotify, missingArrayDim, nestedContainer, exposedClassField,
    propertyWithoutGetter, staticMember, functionOutsideClass, invalidFunctionFlags,
    functionWithoutBody, missingValidationMethod, generatedNameConflict, fixedArrayParameter,
    unsupportedInitializer, baseCallNotFound, setterStillReferenced, backingFieldAddress]

/-- The code with the given text. -/
def ofText? (text : String) : Option DiagnosticCode :=
  all.find? (·.text == text)

end DiagnosticCode

/-- A finding about a module. -/
structure Diagnostic where
  severity : Severity
  message : String
  code : Option DiagnosticCode := none
  /-- The type or the member that the finding is about. -/
  symbol : Option String := none
  location : Option SourceLocation := none
  notes : List String := []
deriving DecidableEq, Repr

namespace Diagnostic

/-- An error with a code. -/
def error (code : DiagnosticCode) (message : String) : Diagnostic where
  severity := .error
  message := message
  code := code

def atSymbol (diagnostic : Diagnostic) (symbol : String) : Diagnostic :=
  { diagnostic with symbol := some symbol }

/-- Give a location, unless one is known already. -/
def atLocation (diagnostic : Diagnostic) (location : Option SourceLocation) : Diagnostic :=
  { diagnostic with location := diagnostic.location.or location }

def withNote (diagnostic : Diagnostic) (note : String) : Diagnostic :=
  { diagnostic with notes := diagnostic.notes ++ [note] }

/-- Add advice on how to mend the finding. -/
def withHelp (diagnostic : Diagnostic) (help : String) : Diagnostic :=
  diagnostic.withNote ("help: " ++ help)

def isError (diagnostic : Diagnostic) : Bool :=
  diagnostic.severity = .error

/-- The severity, and the code in brackets. -/
def label (diagnostic : Diagnostic) : String :=
  diagnostic.severity.text ++ (diagnostic.code.map fun code => "[" ++ code.text ++ "]").getD ""

/-- What follows the label: what is wrong, and on lines of their own where, in what, and the
notes. -/
def details (diagnostic : Diagnostic) : String :=
  let location := (diagnostic.location.map fun place =>
    s!"\n  --> {place.file}:{place.line}:{place.column}").getD ""
  let symbol := (diagnostic.symbol.map ("\n  in " ++ ·)).getD ""
  ": " ++ diagnostic.message ++ location ++ symbol
    ++ String.join (diagnostic.notes.map ("\n  = " ++ ·))

/-- The diagnostic as text. -/
def render (diagnostic : Diagnostic) : String :=
  diagnostic.label ++ diagnostic.details

/-- The diagnostic as a value. -/
def toJson (diagnostic : Diagnostic) : Json :=
  let ofPlace := fun (read : SourceLocation → Json) => (diagnostic.location.map read).getD .null
  .object [
    ("code", .ofString? (diagnostic.code.map (·.text))),
    ("severity", .string diagnostic.severity.text),
    ("message", .string diagnostic.message),
    ("symbol", .ofString? diagnostic.symbol),
    ("file", ofPlace fun place => .string place.file),
    ("line", ofPlace fun place => .ofNat place.line.toNat),
    ("column", ofPlace fun place => .ofNat place.column.toNat),
    ("notes", .strings diagnostic.notes)]

/-- One of the diagnostics is an error. -/
def hasErrors (diagnostics : List Diagnostic) : Bool :=
  diagnostics.any (·.isError)

/-- How many of the diagnostics are errors. -/
def errorCount (diagnostics : List Diagnostic) : Nat :=
  diagnostics.countP (·.isError)

end Diagnostic

/-- How diagnostics call a member of a type. -/
def TypeDef.memberSymbol (type : TypeDef) (member : String) : String :=
  type.fullName ++ "::" ++ member

end NativeWeave
