import NativeWeave.Marshalling.Value

namespace NativeWeave

/-!
# Access to properties

Reading a property gives a value, or for some categories a wrapper, which works on native memory and
is made at the first reading and kept in a field.  What has a wrapper is changed through it and is
never written as a whole.
-/

namespace Category

/-- Push a new wrapper for what lies at an address. -/
def newWrapper (config : Config) (category : Category) (slots : MemberSlots)
    (address : NativeAddress) : Emit Fragment := do
  match category with
  | text =>
    return address.push ++ (← Emit.newObject (config.runtimeSignature .text) [.intPtr])
  | array _ element _ => category.fromNative config element slots address
  | list _ element =>
    match slots.handle with
    | none => Emit.inconsistent "list property handle slot missing"
    | some handle =>
      let create ← Emit.newObject (config.runtimeGeneric .nativeList element) [.intPtr, .intPtr]
      return .loadStatic handle :: address.push ++ create
  | _ => Emit.inconsistent s!"category {category.label} has no wrapper"

/-- Push the value of a property of the receiver. -/
def load (config : Config) (category : Category) (type : Signature) (slots : MemberSlots)
    (address : NativeAddress) : Emit Fragment := do
  if category.needsWrapperField then
    match slots.wrapper with
    | none => Emit.inconsistent s!"wrapper field missing for category {category.label}"
    | some field =>
      let create ← category.newWrapper config slots address
      return Fragment.concat [
        [.loadArg 0, .loadField field, .plain .null, .plain .equal],
        Fragment.skip .ifFalse (Fragment.concat [[.loadArg 0], create, [.storeField field]]),
        [.loadArg 0, .loadField field]]
  else
    category.fromNative config type slots address

/-- Write a value to a property of the receiver. -/
def store (config : Config) (category : Category) (type : Signature) (slots : MemberSlots)
    (address : NativeAddress) (value : ValueSource) : Emit Fragment :=
  if category.suppressesSetter then
    Emit.inconsistent s!"category {category.label} is only mutated through its wrapper"
  else
    category.toNative config type slots address value

end Category

/-- Create a subobject of a class for the receiver and write it to an address. -/
def Emit.subobject (config : Config) (target : Signature) (nativeName : String)
    (address : NativeAddress) : Emit Fragment := do
  let create ← Emit.member config.createDefaultSubobject
  let classPtr ← Emit.member (.staticField target Naming.nativeClassPtr .intPtr)
  let name ← Emit.loadString nativeName
  let write ← Emit.callStatic (config.runtimeSignature .objectMarshaller) "ToNative"
    [.intPtr, config.rootSignature] .void
  return address.push ++ .loadArg 0 :: name ++ [.loadStatic classPtr, .call create] ++ write

end NativeWeave
