import NativeWeave.Category.Basic
import NativeWeave.Universe
import NativeWeave.WeaveError

namespace NativeWeave

/-!
# What generated code relies on

Generated code calls two runtime types: the native root, which knows the native address of an object
and dispatches calls, and the layout service, which answers questions about native types while a
type is initialized.  Moving values needs further types, depending on the categories.
-/

/-- A question that the layout service answers. -/
inductive LayoutQuery
  | nativeType
  | structSize
  | propertyOffset
  | propertyHandle
  | functionHandle
  | functionArgumentsSize
  | booleanStorageWidth
  | arrayElementSize
deriving DecidableEq, Repr

namespace LayoutQuery

def all : List LayoutQuery :=
  [nativeType, structSize, propertyOffset, propertyHandle, functionHandle, functionArgumentsSize,
    booleanStorageWidth, arrayElementSize]

/-- The method that answers a question. -/
def methodName : LayoutQuery → String
  | nativeType => "ResolveNativeType"
  | structSize => "GetStructSize"
  | propertyOffset => "GetPropertyOffset"
  | propertyHandle => "GetPropertyHandle"
  | functionHandle => "GetFunctionHandle"
  | functionArgumentsSize => "GetFunctionArgumentsSize"
  | booleanStorageWidth => "GetBoolStorageWidth"
  | arrayElementSize => "GetArrayElementSize"

/-- The question that a method answers. -/
def ofMethodName? (name : String) : Option LayoutQuery :=
  all.find? (·.methodName == name)

def parameters : LayoutQuery → List Signature
  | nativeType => [.string]
  | structSize | functionArgumentsSize => [.intPtr]
  | propertyOffset | propertyHandle | functionHandle | arrayElementSize => [.intPtr, .string]
  | booleanStorageWidth => []

/-- The type of the answer: a handle or a number. -/
def result : LayoutQuery → Signature
  | nativeType | propertyHandle | functionHandle => .intPtr
  | structSize | propertyOffset | functionArgumentsSize | booleanStorageWidth
  | arrayElementSize => .i32

end LayoutQuery

namespace Config

/-! ## Members of the native root -/

/-- The field with the address of the native instance. -/
def nativePtr (config : Config) : MemberRef :=
  .field config.rootSignature Naming.nativePtr .intPtr

/-- Fails when the native instance is gone. -/
def checkLiveness (config : Config) : MemberRef :=
  .instanceMethod config.rootSignature "CheckLiveness" [] .void

def createDefaultSubobject (config : Config) : MemberRef :=
  .instanceMethod config.rootSignature "CreateDefaultSubobject" [.string, .intPtr]
    config.rootSignature

/-- Finds the function of an instance, which native code may have overridden. -/
def resolveFunctionOnInstance (config : Config) : MemberRef :=
  .instanceMethod config.rootSignature "ResolveFunctionOnInstance" [.string] .intPtr

/-- Calls a native function on an object with a buffer of arguments. -/
def invokeNativeFunction (config : Config) : MemberRef :=
  .staticMethod config.rootSignature "InvokeNativeFunction" [.intPtr, .intPtr, .intPtr] .void

def reportValidationFailure (config : Config) : MemberRef :=
  .staticMethod config.rootSignature "ReportValidationFailure" [.string] .void

/-- The object that receives calls of static functions. -/
def getDefaultObject (config : Config) : MemberRef :=
  .staticMethod config.rootSignature "GetDefaultObject" [.intPtr] .intPtr

/-! ## The layout service -/

/-- The method of the layout service that answers a question. -/
def layout (config : Config) (query : LayoutQuery) : MemberRef :=
  .staticMethod (config.runtimeSignature .nativeLayout) query.methodName query.parameters
    query.result

/-! ## Required types -/

/-- The type of the wrapper that a property of the category hands out. -/
def wrapperType? (config : Config) : Category → Option Signature
  | .text => some (config.runtimeSignature .text)
  | .array _ element _ => some (config.runtimeGeneric .fixedArray element)
  | .list _ element => some (config.runtimeGeneric .nativeList element)
  | _ => none

/-- The types that code for a category relies on. -/
def collaborators (config : Config) : Category → List QualifiedName
  | .scalar _ | .enumeration _ _ => []
  | .boolean => [config.runtime .boolMarshaller]
  | .string => [config.runtime .stringMarshaller]
  | .text => [config.runtime .text, config.runtime .textMarshaller]
  | .struct .core _ owner => [coreMarshaller owner]
  | .struct _ _ _ => []
  | .object _ | .subobject _ => [config.runtime .objectMarshaller]
  | .weak _ => [config.runtime .weakRefMarshaller]
  | .subclass _ => [config.runtime .subclassOfMarshaller]
  | .array inner _ _ => config.runtime .fixedArray :: config.collaborators inner
  | .list inner _ =>
    config.runtime .nativeList :: config.runtime .listMarshaller :: config.collaborators inner

/-- The types that code for some categories relies on; native root and layout service come first. -/
def requiredTypes (config : Config) (categories : List Category) : List QualifiedName :=
  config.root :: config.runtime .nativeLayout :: categories.flatMap config.collaborators

end Config

/-- Check that the types which code for some categories relies on are in reach. -/
def Scope.checkCollaborators (scope : Scope) (categories : List Category) : Weave Unit :=
  match (scope.config.requiredTypes categories).find? fun name => (scope.resolve? name).isNone with
  | some name => .error (.missingCollaborator name.full)
  | none => .ok ()

end NativeWeave
