import NativeWeave.Code.Instruction

namespace NativeWeave

/-!
# Fragments of generated code

Generated code is put together from fragments.  A jump inside a fragment names its target by the
distance from the start of the fragment, at most its end, so that a fragment means the same
wherever it stands; joining fragments moves the targets along.
-/

/-- A piece of code whose jumps stay inside of it. -/
abbrev Fragment := List Instr

namespace Fragment

/-- The fragment as it stands behind `distance` other instructions. -/
def shift (fragment : Fragment) (distance : Nat) : Fragment :=
  fragment.map (·.mapTarget (· + distance))

/-- One fragment behind another. -/
def append (first second : Fragment) : Fragment :=
  first ++ second.shift first.length

/-- Fragments one after another. -/
def concat (fragments : List Fragment) : Fragment :=
  fragments.foldr append []

/-- A jump that goes past a fragment, and the fragment. -/
def skip (jump : JumpOp) (skipped : Fragment) : Fragment :=
  append [.jump jump (skipped.length + 1)] skipped

end Fragment

/-- Where a managed value is found. -/
inductive ValueSource
  | argument (index : UInt16)
  | localVariable (index : UInt16)
  /-- An instance field of the receiver. -/
  | thisField (token : UInt32)
  | static (token : UInt32)
  /-- What an argument refers to; the type is that of the value. -/
  | behind (index : UInt16) (type : UInt32)
deriving DecidableEq, Repr

namespace ValueSource

/-- Push the value. -/
def push : ValueSource → Fragment
  | argument index => [.loadArg index]
  | localVariable index => [.loadLocal index]
  | thisField token => [.loadArg 0, .loadField token]
  | static token => [.loadStatic token]
  | behind index type => [.loadArg index, .loadObject type]

/-- Push the address of the value.  Static fields only ever hold addresses themselves. -/
def pushAddress : ValueSource → Fragment
  | argument index => [.loadArgAddress index]
  | localVariable index => [.loadLocalAddress index]
  | thisField token => [.loadArg 0, .loadFieldAddress token]
  | static token => [.loadStatic token]
  | behind index _ => [.loadArg index]

end ValueSource

/-- A place in native memory: an address, and the static field with the offset from it if there is
one. -/
structure NativeAddress where
  base : ValueSource
  offset : Option UInt32
deriving DecidableEq, Repr

/-- Push the address of a place in native memory. -/
def NativeAddress.push (address : NativeAddress) : Fragment :=
  match address.offset with
  | none => address.base.push
  | some slot => address.base.push ++ [.loadStatic slot, .plain .toNative, .plain .add]

end NativeWeave
