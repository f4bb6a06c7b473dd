import NativeWeave.Marshalling.Fragment
import NativeWeave.Marshalling.Runtime

namespace NativeWeave

/-!
# Emitting code

Emitting gives a fragment and enters the texts, members and types it refers to into the tables of
the module, in the order in which the code needs them.
-/

/-- A computation that enters references into tables and can fail. -/
abbrev Emit := StateT Tables Weave

namespace Emit

/-- The index of a text. -/
def string (text : String) : Emit UInt32 :=
  modifyGet (·.internString text)

/-- The token of a member. -/
def member (reference : MemberRef) : Emit UInt32 :=
  modifyGet (·.internMember reference)

/-- The token of a type. -/
def type (signature : Signature) : Emit UInt32 :=
  modifyGet (·.internType signature)

/-- Fail because a binding does not fit its module. -/
def inconsistent {α : Type} (reason : String) : Emit α :=
  throw (.inconsistent reason)

/-- The result of a step, if the step is wanted. -/
def optional {α : Type} (wanted : Bool) (step : Emit α) : Emit (Option α) := do
  if wanted then return some (← step) else return none

/-- Call a member. -/
def call (reference : MemberRef) : Emit Fragment := do
  return [.call (← member reference)]

/-- Call a static method. -/
def callStatic (owner : Signature) (name : String) (parameters : List Signature)
    (result : Signature) : Emit Fragment :=
  call (.staticMethod owner name parameters result)

/-- Allocate an object with a constructor. -/
def newObject (owner : Signature) (parameters : List Signature) : Emit Fragment := do
  return [.newObject
    (← member (.instanceMethod owner Method.constructorName parameters .void))]

/-- Push a text. -/
def loadString (text : String) : Emit Fragment := do
  return [.constString (← string text)]

/-- Fail if the native instance of the receiver is gone. -/
def liveness (config : Config) : Emit Fragment := do
  return .loadArg 0 :: (← call config.checkLiveness)

/-- The native address of the receiver. -/
def thisNative (config : Config) : Emit ValueSource := do
  return .thisField (← member config.nativePtr)

end Emit

/-- The static fields that hold the layout of a member, and the field with its wrapper. -/
structure MemberSlots where
  offset : UInt32
  handle : Option UInt32 := none
  elementSize : Option UInt32 := none
  width : Option UInt32 := none
  wrapper : Option UInt32 := none
deriving DecidableEq, Repr

namespace MemberSlots

/-- A slot that code for the category cannot do without. -/
def require (slot : Option UInt32) (what : String) (category : Category) : Emit UInt32 :=
  match slot with
  | some token => return token
  | none => Emit.inconsistent s!"{what} slot missing for category {category.label}"

def requireHandle (slots : MemberSlots) (category : Category) : Emit UInt32 :=
  require slots.handle "property handle" category

def requireElementSize (slots : MemberSlots) (category : Category) : Emit UInt32 :=
  require slots.elementSize "element size" category

def requireWidth (slots : MemberSlots) (category : Category) : Emit UInt32 :=
  require slots.width "width" category

end MemberSlots

end NativeWeave
