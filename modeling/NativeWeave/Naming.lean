import NativeWeave.Config
import NativeWeave.Manifest
import NativeWeave.Module.Basic

namespace NativeWeave

/-!
# Names that annotations, runtime types and generated members go by

Annotations and runtime types are found by their simple names in the namespaces that the settings
give.  Generated members have names made from the name of the member they serve, so that the runtime
and the native side can find them.
-/

/-! ## Simple names of annotations -/

namespace Annotation

def nativeClass : String := "NativeClass"
def nativeStruct : String := "NativeStruct"
def nativeEnum : String := "NativeEnum"
def nativeProperty : String := "NativeProperty"
def nativeFunction : String := "NativeFunction"
def blittable : String := "Blittable"

/-! Names of the arguments that annotations take. -/

def nameArgument : String := "Name"
def flagsArgument : String := "Flags"
def categoryArgument : String := "Category"
def replicatedUsingArgument : String := "ReplicatedUsing"
def conditionArgument : String := "Condition"
def customConditionArgument : String := "CustomCondition"
def arrayDimArgument : String := "ArrayDim"
def subobjectArgument : String := "Subobject"
def allowPrivateArgument : String := "AllowPrivateAccess"

end Annotation

/-- Types that generated code relies on, besides the native root. -/
inductive RuntimeType
  | nativeLayout
  | boolMarshaller
  | stringMarshaller
  | text
  | textMarshaller
  | objectMarshaller
  | weakRef
  | weakRefMarshaller
  | subclassOf
  | subclassOfMarshaller
  | fixedArray
  | nativeList
  | listMarshaller
deriving DecidableEq, Repr

def RuntimeType.all : List RuntimeType :=
  [nativeLayout, boolMarshaller, stringMarshaller, text, textMarshaller, objectMarshaller, weakRef,
    weakRefMarshaller, subclassOf, subclassOfMarshaller, fixedArray, nativeList, listMarshaller]

/-- The simple name of a runtime type. -/
def RuntimeType.name : RuntimeType → String
  | nativeLayout => "NativeLayout"
  | boolMarshaller => "BoolMarshaller"
  | stringMarshaller => "StringMarshaller"
  | text => "Text"
  | textMarshaller => "TextMarshaller"
  | objectMarshaller => "ObjectMarshaller"
  | weakRef => "WeakRef"
  | weakRefMarshaller => "WeakRefMarshaller"
  | subclassOf => "SubclassOf"
  | subclassOfMarshaller => "SubclassOfMarshaller"
  | fixedArray => "FixedArray"
  | nativeList => "NativeList"
  | listMarshaller => "ListMarshaller"

/-- The generic interface whose instances are lists in native memory. -/
def listInterface : QualifiedName := ⟨"System.Collections.Generic", "IList"⟩

/-- The marshaller that belongs to a struct with one of its own. -/
def coreMarshaller (owner : QualifiedName) : QualifiedName :=
  ⟨owner.namespaceName, owner.name ++ "Marshaller"⟩

/-! ## Names of generated members -/

namespace Naming

/-- Static field with the handle of the native type. -/
def nativeClassPtr : String := "NativeClassPtr"
/-- Static field with the native size of a struct. -/
def nativeDataSize : String := "NativeDataSize"
/-- Field of the native root with the address of the native instance. -/
def nativePtr : String := "NativePtr"
/-- What the native side calls the result of a function. -/
def returnValue : String := "ReturnValue"
/-- Method by which a struct writes itself into native memory. -/
def toNative : String := "ToNative"

def backingField (property : String) : String := "<" ++ property ++ ">k__BackingField"
def getter (property : String) : String := "get_" ++ property
def setter (property : String) : String := "set_" ++ property
def offsetSlot (member : String) : String := member ++ "_Offset"
def handleSlot (member : String) : String := member ++ "_NativeProperty"
def elementSizeSlot (member : String) : String := member ++ "_ElementSize"
def widthSlot (member : String) : String := member ++ "_Width"
def wrapperField (member : String) : String := member ++ "_Wrapper"
def functionSlot (function : String) : String := function ++ "_NativeFunction"
def parametersSizeSlot (function : String) : String := function ++ "_ParamsSize"
/-- What the slots of a function's parameter are named after. -/
def parameterSlots (function parameter : String) : String := function ++ "_" ++ parameter
def implementation (function : String) : String := function ++ "_Implementation"
def invoker (function : String) : String := "Invoke_" ++ function
def validation (function : String) : String := function ++ "_Validate"

end Naming

/-! ## Names in the configured namespaces -/

namespace Config

/-- The full name of an annotation. -/
def annotationName (config : Config) (simple : String) : String :=
  config.attributeNamespace ++ "." ++ simple

/-- The name of a type in the runtime namespace. -/
def runtimeName (config : Config) (simple : String) : QualifiedName :=
  ⟨config.runtimeNamespace, simple⟩

/-- The name of a runtime type. -/
def runtime (config : Config) (type : RuntimeType) : QualifiedName :=
  config.runtimeName type.name

/-- The signature of a runtime type. -/
def runtimeSignature (config : Config) (type : RuntimeType) : Signature :=
  .named (config.runtime type)

/-- The signature of a generic runtime type with one argument. -/
def runtimeGeneric (config : Config) (type : RuntimeType) (argument : Signature) : Signature :=
  .generic (config.runtime type) [argument]

/-- The class that every native-backed class derives from. -/
def root (config : Config) : QualifiedName :=
  config.runtimeName config.nativeRoot

def rootSignature (config : Config) : Signature :=
  .named config.root

/-- The name is that of a type in the runtime namespace. -/
def isRuntimeName (config : Config) (name : QualifiedName) (simple : String) : Bool :=
  name.namespaceName == config.runtimeNamespace && name.name == simple

/-- The name is that of a runtime type. -/
def isRuntime (config : Config) (name : QualifiedName) (type : RuntimeType) : Bool :=
  config.isRuntimeName name type.name

/-- The first annotation with a simple name. -/
def findAnnotation? (config : Config) (attributes : List Attribute) (simple : String) :
    Option Attribute :=
  Attribute.find? attributes (config.annotationName simple)

def isAnnotated (config : Config) (attributes : List Attribute) (simple : String) : Bool :=
  (config.findAnnotation? attributes simple).isSome

/-- A text given by an argument, unless it is empty. -/
def nonEmptyText? (attr : Attribute) (key : String) : Option String :=
  ((attr.named? key).bind (·.asString?)).filter (!·.isEmpty)

/-- What the native side calls a type: the name given by the annotation that exposes it, or else its
simple name. -/
def nativeTypeName (config : Config) (type : TypeDef) (annotationName : String) : String :=
  ((config.findAnnotation? type.attributes annotationName).bind
    (nonEmptyText? · Annotation.nameArgument)).getD type.name

/-- The struct has a marshaller of its own. -/
def isCoreStruct (config : Config) (name : QualifiedName) : Bool :=
  config.coreStructs.any (QualifiedName.parse · == name)

/-- A type of this name stands in for another one and is skipped. -/
def isWrapperOnly (config : Config) (simple : String) : Bool :=
  config.wrapperSuffix.utf8ByteSize < simple.utf8ByteSize && simple.endsWith config.wrapperSuffix

end Config

end NativeWeave
