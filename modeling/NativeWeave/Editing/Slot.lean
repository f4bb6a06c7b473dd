import NativeWeave.Binding.Basic
import NativeWeave.Marshalling.Access
import NativeWeave.Editing.Plan

namespace NativeWeave

/-!
# Slots for native layouts

Offsets and handles are asked for once, when a type is initialized, and kept in static fields of
that type.  A slot is such a field together with the code that fills it.
-/

/-- Code together with the edits that it needs. -/
structure Planned (Value : Type) where
  value : Value
  plan : TypePlan

/-- A new static field and its token. -/
def staticSlot (owner : Signature) (name : String) (type : Signature) : Emit (Planned UInt32) := do
  let token ← Emit.member (.staticField owner name type)
  let field : Field := { name, type, flags := Field.staticFlag ||| Field.generatedFlag }
  return ⟨token, { fields := [field] }⟩

/-- A static field that is only made if it is wanted. -/
def optionalSlot (wanted : Bool) (owner : Signature) (name : String) (type : Signature) :
    Emit (Planned (Option UInt32)) := do
  if wanted then
    let slot ← staticSlot owner name type
    return ⟨some slot.value, slot.plan⟩
  else
    return ⟨none, {}⟩

/-- The static fields that values of a category need, named after `base`. -/
def memberSlots (owner : Signature) (base : String) (category : Category) :
    Emit (Planned MemberSlots) := do
  let offset ← staticSlot owner (Naming.offsetSlot base) .i32
  let handle ← optionalSlot category.needsHandle owner (Naming.handleSlot base) .intPtr
  let elementSize ← optionalSlot category.needsElementSize owner (Naming.elementSizeSlot base) .i32
  let width ← optionalSlot category.needsWidth owner (Naming.widthSlot base) .i32
  return ⟨⟨offset.value, handle.value, elementSize.value, width.value, none⟩,
    offset.plan ++ handle.plan ++ elementSize.plan ++ width.plan⟩

/-! ## Filling slots -/

namespace Prelude

/-- Ask about something that a handle and a name identify, and keep the answer in a slot. -/
def query (config : Config) (query : LayoutQuery) (handle : UInt32) (name : String)
    (slot : UInt32) : Emit Fragment := do
  let token ← Emit.member (config.layout query)
  let text ← Emit.loadString name
  return .loadStatic handle :: text ++ [.call token, .storeStatic slot]

/-- Ask about a handle alone, and keep the answer in a slot. -/
def queryHandle (config : Config) (query : LayoutQuery) (handle slot : UInt32) :
    Emit Fragment := do
  let token ← Emit.member (config.layout query)
  return [.loadStatic handle, .call token, .storeStatic slot]

/-- Find the handle of a native type. -/
def nativeType (config : Config) (name : String) (slot : UInt32) : Emit Fragment := do
  let token ← Emit.member (config.layout .nativeType)
  let text ← Emit.loadString name
  return text ++ [.call token, .storeStatic slot]

/-- Ask how wide a truth value is. -/
def booleanWidth (config : Config) (slot : UInt32) : Emit Fragment := do
  return [.call (← Emit.member (config.layout .booleanStorageWidth)), .storeStatic slot]

/-- Code for a slot that may be missing. -/
def filled (slot : Option UInt32) (fill : UInt32 → Emit Fragment) : Emit Fragment :=
  match slot with
  | some token => fill token
  | none => return []

/-- Fill the slots of a member, which the handle of its native owner and its name identify. -/
def member (config : Config) (owner : UInt32) (name : String) (slots : MemberSlots) :
    Emit Fragment := do
  let offset ← query config .propertyOffset owner name slots.offset
  let handle ← filled slots.handle (query config .propertyHandle owner name)
  let elementSize ← filled slots.elementSize (query config .arrayElementSize owner name)
  let width ← filled slots.width (booleanWidth config)
  return offset ++ handle ++ elementSize ++ width

end Prelude

/-- A method that code was generated for. -/
def generatedMethod (name : String) (parameters : List (String × Signature)) (code : Fragment)
    (locals : List Signature) : Method where
  name := name
  parameters := parameters.map fun (name, type) => { name, type }
  body := some (({ instrs := code } : Code).toBody locals)

end NativeWeave
