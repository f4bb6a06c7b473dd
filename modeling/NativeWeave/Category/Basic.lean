import NativeWeave.NativeKind

namespace NativeWeave

/-!
# Categories of values that cross the native boundary

The category of a type says how its values are laid out in native memory and how they get there and
back.  Containers have elements of a category of their own.
-/

/-- How a struct lies in native memory. -/
inductive StructRepr
  /-- The same bytes on both sides. -/
  | blittable
  /-- By a marshaller of its own. -/
  | core
  /-- Field by field, through generated code. -/
  | generic
deriving DecidableEq, Repr

/-- The word for a representation. -/
def StructRepr.text : StructRepr → String
  | blittable => "blittable"
  | core => "core"
  | generic => "generic"

/-- How values of a type cross the native boundary. -/
inductive Category
  | scalar (kind : NativeKind)
  | boolean
  | string
  | text
  | enumeration (nativeName : String) (owner : QualifiedName)
  | struct (repr : StructRepr) (nativeName : String) (owner : QualifiedName)
  /-- A reference to a native-backed object. -/
  | object (target : Signature)
  /-- A reference to an object that is created together with its owner. -/
  | subobject (target : Signature)
  | weak (inner : Signature)
  /-- A reference to a native class that derives from a given one. -/
  | subclass (constraint : Signature)
  /-- A fixed number of elements in place. -/
  | array (inner : Category) (element : Signature) (dim : UInt32)
  | list (inner : Category) (element : Signature)
deriving DecidableEq, Repr

namespace Category

instance : Inhabited Category := ⟨.boolean⟩

/-- The text by which a category is known to reports and hashes. -/
def label : Category → String
  | scalar kind => "scalar:" ++ kind.name
  | boolean => "bool"
  | string => "string"
  | text => "text"
  | enumeration nativeName _ => "enum:" ++ nativeName
  | struct repr nativeName _ => "struct[" ++ repr.text ++ "]:" ++ nativeName
  | object target => "object:" ++ target.text
  | subobject target => "subobject:" ++ target.text
  | weak inner => "weak:" ++ inner.text
  | subclass constraint => "class:" ++ constraint.text
  | array inner _ dim => s!"array[{dim}]:" ++ inner.label
  | list inner _ => "list:" ++ inner.label

/-- Properties of the category cannot be set; what they hold is changed in place. -/
def suppressesSetter : Category → Bool
  | text | array _ _ _ | list _ _ | subobject _ => true
  | _ => false

/-- The layout needs the handle of the native property. -/
def needsHandle : Category → Bool
  | string | array _ _ _ | list _ _ => true
  | _ => false

/-- The layout needs the size of an element. -/
def needsElementSize : Category → Bool
  | array _ _ _ => true
  | _ => false

/-- The layout needs the width of a truth value. -/
def needsWidth : Category → Bool
  | boolean => true
  | _ => false

/-- Reading a property gives a wrapper that is kept in a field. -/
def needsWrapperField : Category → Bool
  | text | array _ _ _ | list _ _ => true
  | _ => false

/-- Native memory of the category has to be initialized when its owner is constructed. -/
def needsDefaultInit : Category → Bool
  | text => true
  | _ => false

/-- A value in an argument buffer owns native memory of its own. -/
def needsCleanup : Category → Bool
  | string | text | list _ _ => true
  | _ => false

/-- A value can be written as a whole. -/
def hasValueStore : Category → Bool
  | array _ _ _ => false
  | _ => true

/-- The category can be that of an element. -/
def isSimple : Category → Bool
  | array _ _ _ | list _ _ => false
  | _ => true

/-- A value has the same bytes on both sides. -/
def isBlittable : Category → Bool
  | scalar _ | enumeration _ _ | struct .blittable _ _ => true
  | _ => false

def isArray : Category → Bool
  | array _ _ _ => true
  | _ => false

/-- The struct whose layout the category depends on, directly or through elements. -/
def hashDependency? : Category → Option QualifiedName
  | struct _ _ owner => some owner
  | array inner _ _ | list inner _ => inner.hashDependency?
  | _ => none

/-- The struct whose values lie in place inside a value of the category. -/
def embedded? : Category → Option QualifiedName
  | struct _ _ owner => some owner
  | array inner _ _ => inner.embedded?
  | _ => none

end Category

end NativeWeave
