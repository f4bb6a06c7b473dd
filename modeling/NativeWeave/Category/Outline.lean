import NativeWeave.Category.Basic
import NativeWeave.Diagnostic
import NativeWeave.Flags
import NativeWeave.Universe

namespace NativeWeave

/-!
# What a category depends on

Most types have a category that their own declaration settles.  The category of a struct depends on
the types of its fields, and that of a container on its elements.  The outline of a type says
which of these cases it is, or why the type cannot cross the native boundary.  Elements are
smaller than their containers, so that following outlines through containers comes to an end.
-/

/-- Why a type cannot cross the native boundary. -/
structure Refusal where
  code : DiagnosticCode
  message : String
deriving DecidableEq, Repr

namespace Refusal

def unsupported (type : Signature) : Refusal :=
  ⟨.unsupportedType, s!"type '{type.text}' cannot be exposed to native code"⟩

def strayDimension (type : Signature) : Refusal :=
  ⟨.unsupportedType, s!"'{type.text}' has an array dimension but is not a fixed array"⟩

def missingDimension (type : Signature) : Refusal :=
  ⟨.missingArrayDim, s!"fixed array '{type.text}' requires an ArrayDim greater than zero"⟩

def enumBacking (name : QualifiedName) : Refusal :=
  ⟨.enumBackingType, s!"enum '{name.full}' must be backed by an unsigned byte"⟩

def nestedContainer (container : Signature) : Refusal :=
  ⟨.nestedContainer, s!"'{container.text}' nests a container inside a container"⟩

/-- The refusal as a diagnostic. -/
def diagnostic (refusal : Refusal) : Diagnostic :=
  .error refusal.code refusal.message

end Refusal

/-- What the annotation of a member says about its type. -/
structure MemberShape where
  /-- How many elements a fixed array has. -/
  arrayDim : Option UInt32 := none
  /-- The referenced object is created together with its owner. -/
  subobject : Bool := false
deriving DecidableEq, Repr

/-- A number as an array dimension, if it fits. -/
def arrayDim? (value : Int64) : Option UInt32 :=
  if 0 ≤ value.toInt ∧ value.toInt < 4294967296 then some (UInt32.ofNat value.toInt.toNat) else none

/-- The shape that an annotation gives. -/
def Attribute.shape (attr : Attribute) : MemberShape where
  arrayDim := ((attr.named? Annotation.arrayDimArgument).bind (·.asInt?)).bind arrayDim?
  subobject := attr.isTrue Annotation.subobjectArgument

/-- The shape that an optional annotation gives. -/
def MemberShape.ofAttribute (attr : Option Attribute) : MemberShape :=
  (attr.map (·.shape)).getD {}

/-- What the category of a type depends on. -/
inductive Outline
  /-- The category is known. -/
  | settled (category : Category)
  /-- The category is that of a struct, whose representation decides. -/
  | struct (type : TypeDef) (owner : QualifiedName)
  | array (element : Signature) (dim : UInt32)
  | list (element : Signature)

namespace Scope

/-- The signature is that of a fixed array. -/
def isFixedArray (scope : Scope) : Signature → Bool
  | .generic base _ => scope.config.isRuntime base .fixedArray
  | _ => false

/-- The outline of a primitive: numbers, truth values and texts can cross the boundary. -/
def primitiveOutline (kind : Primitive) : Except Refusal Outline :=
  match kind with
  | .bool => .ok (.settled .boolean)
  | .string => .ok (.settled .string)
  | .i8 => .ok (.settled (.scalar .i8))
  | .u8 => .ok (.settled (.scalar .u8))
  | .i16 => .ok (.settled (.scalar .i16))
  | .u16 => .ok (.settled (.scalar .u16))
  | .i32 => .ok (.settled (.scalar .i32))
  | .u32 => .ok (.settled (.scalar .u32))
  | .i64 => .ok (.settled (.scalar .i64))
  | .u64 => .ok (.settled (.scalar .u64))
  | .f32 => .ok (.settled (.scalar .f32))
  | .f64 => .ok (.settled (.scalar .f64))
  | .void | .char | .intPtr | .object => .error (.unsupported (.primitive kind))

/-- The outline of a declared type. -/
def namedOutline (scope : Scope) (name : QualifiedName) (shape : MemberShape) :
    Except Refusal Outline :=
  match scope.resolve? name with
  | none => .error (.unsupported (.named name))
  | some type =>
    match type.kind with
    | .enumType =>
      if type.underlying = some (.primitive .u8) then
        .ok (.settled (.enumeration (scope.config.nativeTypeName type Annotation.nativeEnum) name))
      else
        .error (.enumBacking name)
    | .classType =>
      if scope.isNativeObject name then
        .ok (.settled (if shape.subobject then .subobject (.named name) else .object (.named name)))
      else
        .error (.unsupported (.named name))
    | .structType => .ok (.struct type name)
    | .interfaceType => .error (.unsupported (.named name))

/-- The outline of a generic type with one argument. -/
def genericOutline (scope : Scope) (base : QualifiedName) (argument : Signature)
    (shape : MemberShape) : Except Refusal Outline :=
  let type := Signature.generic base [argument]
  if scope.config.isRuntime base .weakRef then
    if argument.typeName?.any scope.isNativeObject then
      .ok (.settled (.weak argument))
    else
      .error (.unsupported type)
  else if scope.config.isRuntime base .subclassOf then
    let constraint := (scope.nativeClass? argument).map (·.signature)
    .ok (.settled (.subclass (constraint.getD scope.config.rootSignature)))
  else if scope.config.isRuntime base .fixedArray then
    match shape.arrayDim.filter (0 < ·) with
    | some dim => .ok (.array argument dim)
    | none => .error (.missingDimension type)
  else if base = listInterface then
    .ok (.list argument)
  else
    .error (.unsupported type)

/-- The outline of a type, as a member of the given shape has it. -/
def outline (scope : Scope) (type : Signature) (shape : MemberShape) : Except Refusal Outline :=
  if shape.arrayDim.isSome && !scope.isFixedArray type then
    .error (.strayDimension type)
  else
    match type with
    | .primitive kind => primitiveOutline kind
    | .named name =>
      if scope.config.isRuntime name .text then .ok (.settled .text)
      else scope.namedOutline name shape
    | .generic base [argument] => scope.genericOutline base argument shape
    | other => .error (.unsupported other)

end Scope

/-- The signature that a container has as its element. -/
def Outline.element? : Outline → Option Signature
  | array element _ | list element => some element
  | settled _ | struct _ _ => none

theorem Scope.element_of_genericOutline {scope : Scope} {base : QualifiedName}
    {argument element : Signature} {shape : MemberShape} {result : Outline}
    (found : scope.genericOutline base argument shape = .ok result)
    (inside : result.element? = some element) : element = argument := by
  unfold genericOutline at found
  repeat' split at found
  all_goals first
    | (cases found; simp_all [Outline.element?])
    | cases found

theorem Scope.sizeOf_element_lt {scope : Scope} {type element : Signature} {shape : MemberShape}
    {result : Outline} (found : scope.outline type shape = .ok result)
    (inside : result.element? = some element) : sizeOf element < sizeOf type := by
  unfold outline at found
  split at found
  · cases found
  · split at found
    · unfold primitiveOutline at found
      split at found <;> cases found <;> cases inside
    · split at found
      · cases found; cases inside
      · unfold namedOutline at found
        repeat' split at found
        all_goals cases found
        all_goals cases inside
    · rw [element_of_genericOutline found inside]
      simp
      omega
    · cases found

end NativeWeave
