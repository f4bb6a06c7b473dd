import NativeWeave.Category.Basic
import NativeWeave.Flags

namespace NativeWeave

/-!
# Bindings

A binding describes an annotated type of the module at hand as the native side will know it:
its members, its functions with their parameters and return values, and for each of them the
category, the native name and the flags.
-/

/-- Where the declaration of an exposed value stands in its type or its method. -/
inductive MemberOrigin
  | property (index : Nat)
  | field (index : Nat)
  | parameter (index : Nat)
  | result
deriving DecidableEq, Repr

/-- What an annotation says about the condition of replication. -/
inductive ConditionSetting
  | known (condition : ReplicationCondition)
  /-- A number that stands for no condition. -/
  | unknown (value : Int64)
deriving DecidableEq, Repr

/-- An exposed property, field, parameter or return value. -/
structure MemberBinding where
  name : String
  nativeName : String
  type : Signature
  access : Access := .everyone
  category : Category
  flags : PropertyFlags := {}
  origin : MemberOrigin
  /-- The heading under which editors show the member. -/
  label : Option String := none
  condition : Option ConditionSetting := none
  customCondition : Option String := none
  /-- The method that is told of changes. -/
  repNotify : Option String := none
  allowPrivateAccess : Bool := false
  /-- What the member contributes to hashes for a struct that has no hash of its own in time. -/
  hashOverride : Option String := none
  source : Option SourceLocation := none
deriving DecidableEq, Repr

namespace MemberBinding

/-- The type of the values, without reference. -/
def valueType (member : MemberBinding) : Signature :=
  member.type.stripByRef

/-- The parameter is written back to the caller. -/
def isByRef (member : MemberBinding) : Bool :=
  member.flags.hasAny [.outParameter, .referenceParameter]

/-- The parameter is handed over to the callee. -/
def isInput (member : MemberBinding) : Bool :=
  !member.flags.hasAny [.outParameter, .returnParameter]

/-- The member can be seen in the editor or by scripts. -/
def isVisible (member : MemberBinding) : Bool :=
  member.flags.hasAny (PropertyFlag.editorVisible ++ PropertyFlag.scriptVisible)

end MemberBinding

/-- An exposed function. -/
structure FunctionBinding where
  name : String
  nativeName : String
  /-- The index of the method that the function is made from. -/
  method : Nat
  flags : FunctionFlags := {}
  access : Access := .everyone
  label : Option String := none
  parameters : List MemberBinding := []
  result : Option MemberBinding := none
  source : Option SourceLocation := none
deriving DecidableEq, Repr

namespace FunctionBinding

def isStatic (function : FunctionBinding) : Bool :=
  function.flags.has .staticFunction

/-- Native code may override the function. -/
def isNativeEvent (function : FunctionBinding) : Bool :=
  function.flags.has .nativeEvent

/-- Arguments are checked by a method before the function runs. -/
def hasValidation (function : FunctionBinding) : Bool :=
  function.flags.has .withValidation

/-- The parameters and then the return value. -/
def values (function : FunctionBinding) : List MemberBinding :=
  function.parameters ++ function.result.toList

end FunctionBinding

/-- An annotated class. -/
structure ClassBinding where
  name : QualifiedName
  nativeName : String
  /-- The index of the declaration in the module. -/
  type : Nat
  base : Option QualifiedName := none
  isAbstract : Bool := false
  /-- The index of the constructor without parameters. -/
  construction : Option Nat := none
  /-- The index of the constructor that takes a native pointer. -/
  rehydration : Option Nat := none
  members : List MemberBinding := []
  functions : List FunctionBinding := []
  source : Option SourceLocation := none
deriving DecidableEq, Repr

/-- An annotated struct. -/
structure StructBinding where
  name : QualifiedName
  nativeName : String
  /-- The index of the declaration in the module. -/
  type : Nat
  members : List MemberBinding := []
  blittable : Bool := false
  source : Option SourceLocation := none
deriving DecidableEq, Repr

/-- An annotated enumeration. -/
structure EnumBinding where
  name : QualifiedName
  nativeName : String
  /-- The index of the declaration in the module. -/
  type : Nat
  /-- The names of the members in the order of their values. -/
  members : List String := []
  source : Option SourceLocation := none
deriving DecidableEq, Repr

/-- An annotated type. -/
inductive TypeBinding
  | ofClass (binding : ClassBinding)
  | ofStruct (binding : StructBinding)
  | ofEnum (binding : EnumBinding)
deriving DecidableEq, Repr

namespace TypeBinding

def name : TypeBinding → QualifiedName
  | ofClass binding => binding.name
  | ofStruct binding => binding.name
  | ofEnum binding => binding.name

def nativeName : TypeBinding → String
  | ofClass binding => binding.nativeName
  | ofStruct binding => binding.nativeName
  | ofEnum binding => binding.nativeName

/-- The kind of native type that the type becomes. -/
def kind : TypeBinding → NativeTypeKind
  | ofClass _ => .classType
  | ofStruct _ => .structType
  | ofEnum _ => .enumType

def class? : TypeBinding → Option ClassBinding
  | ofClass binding => some binding
  | _ => none

def struct? : TypeBinding → Option StructBinding
  | ofStruct binding => some binding
  | _ => none

def enum? : TypeBinding → Option EnumBinding
  | ofEnum binding => some binding
  | _ => none

end TypeBinding

/-- The annotated types of a module in the order of their declarations. -/
abbrev Bindings := List TypeBinding

namespace Bindings

def classes (bindings : Bindings) : List ClassBinding :=
  bindings.filterMap (·.class?)

def structs (bindings : Bindings) : List StructBinding :=
  bindings.filterMap (·.struct?)

def enums (bindings : Bindings) : List EnumBinding :=
  bindings.filterMap (·.enum?)

/-- The first class with a name. -/
def findClass? (bindings : Bindings) (name : QualifiedName) : Option ClassBinding :=
  bindings.classes.find? (·.name == name)

/-- The first struct with a name. -/
def findStruct? (bindings : Bindings) (name : QualifiedName) : Option StructBinding :=
  bindings.structs.find? (·.name == name)

end Bindings

end NativeWeave
