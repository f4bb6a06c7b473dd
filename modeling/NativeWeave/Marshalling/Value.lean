import NativeWeave.Marshalling.Emit

namespace NativeWeave

/-!
# Moving values between managed code and native memory

Every category has code that pushes the value at a native address, code that writes a value there,
and code that releases what the value at an address owns.
-/

namespace Category

/-- Push the value of the category and the given type that lies at an address. -/
def fromNative (config : Config) (category : Category) (type : Signature) (slots : MemberSlots)
    (address : NativeAddress) : Emit Fragment := do
  match category with
  | scalar kind => return address.push ++ [.indirect .load kind]
  | enumeration _ _ => return address.push ++ [.indirect .load .u8]
  | boolean =>
    let width ← slots.requireWidth category
    let call ← Emit.callStatic (config.runtimeSignature .boolMarshaller) "FromNative"
      [.intPtr, .i32] .bool
    return address.push ++ .loadStatic width :: call
  | string =>
    let handle ← slots.requireHandle category
    let call ← Emit.callStatic (config.runtimeSignature .stringMarshaller) "FromNative"
      [.intPtr, .intPtr] .string
    return .loadStatic handle :: address.push ++ call
  | text =>
    let call ← Emit.callStatic (config.runtimeSignature .textMarshaller) "FromNative"
      [.intPtr] (config.runtimeSignature .text)
    return address.push ++ call
  | struct .blittable _ _ =>
    return address.push ++ [.loadObject (← Emit.type type)]
  | struct .core _ owner =>
    let call ← Emit.callStatic (.named (coreMarshaller owner)) "FromNative" [.intPtr] type
    return address.push ++ call
  | struct .generic _ _ =>
    return address.push ++ (← Emit.newObject type [.intPtr])
  | object target | subobject target =>
    let call ← Emit.callStatic (config.runtimeSignature .objectMarshaller) "FromNative"
      [.intPtr] config.rootSignature
    return address.push ++ call ++ [.castClass (← Emit.type target)]
  | weak inner =>
    let call ← Emit.callStatic (config.runtimeGeneric .weakRefMarshaller inner) "FromNative"
      [.intPtr] type
    return address.push ++ call
  | subclass constraint =>
    let call ← Emit.callStatic (config.runtimeGeneric .subclassOfMarshaller constraint)
      "FromNative" [.intPtr] type
    return address.push ++ call
  | array _ element dim =>
    let handle ← slots.requireHandle category
    let elementSize ← slots.requireElementSize category
    let create ← Emit.newObject (config.runtimeGeneric .fixedArray element)
      [.intPtr, .intPtr, .i32, .i32]
    return .loadStatic handle :: address.push
      ++ [.constI32 dim.toInt32, .loadStatic elementSize] ++ create
  | list _ element =>
    let handle ← slots.requireHandle category
    let call ← Emit.callStatic (config.runtimeGeneric .listMarshaller element) "FromNative"
      [.intPtr, .intPtr] type
    return .loadStatic handle :: address.push ++ call

/-- Write a value of the category and the given type to an address. -/
def toNative (config : Config) (category : Category) (type : Signature) (slots : MemberSlots)
    (address : NativeAddress) (value : ValueSource) : Emit Fragment := do
  match category with
  | scalar kind => return address.push ++ value.push ++ [.indirect .store kind]
  | enumeration _ _ => return address.push ++ value.push ++ [.indirect .store .u8]
  | boolean =>
    let width ← slots.requireWidth category
    let call ← Emit.callStatic (config.runtimeSignature .boolMarshaller) "ToNative"
      [.intPtr, .i32, .bool] .void
    return address.push ++ .loadStatic width :: value.push ++ call
  | string =>
    let handle ← slots.requireHandle category
    let call ← Emit.callStatic (config.runtimeSignature .stringMarshaller) "ToNative"
      [.intPtr, .intPtr, .string] .void
    return .loadStatic handle :: address.push ++ value.push ++ call
  | text =>
    let call ← Emit.callStatic (config.runtimeSignature .textMarshaller) "ToNative"
      [.intPtr, config.runtimeSignature .text] .void
    return address.push ++ value.push ++ call
  | struct .blittable _ _ =>
    return address.push ++ value.push ++ [.storeObject (← Emit.type type)]
  | struct .core _ owner =>
    let call ← Emit.callStatic (.named (coreMarshaller owner)) "ToNative" [.intPtr, type] .void
    return address.push ++ value.push ++ call
  | struct .generic _ _ =>
    let call ← Emit.call (.instanceMethod type Naming.toNative [.intPtr] .void)
    return value.pushAddress ++ address.push ++ call
  | object _ | subobject _ =>
    let call ← Emit.callStatic (config.runtimeSignature .objectMarshaller) "ToNative"
      [.intPtr, config.rootSignature] .void
    return address.push ++ value.push ++ call
  | weak inner =>
    let call ← Emit.callStatic (config.runtimeGeneric .weakRefMarshaller inner) "ToNative"
      [.intPtr, type] .void
    return address.push ++ value.push ++ call
  | subclass constraint =>
    let call ← Emit.callStatic (config.runtimeGeneric .subclassOfMarshaller constraint)
      "ToNative" [.intPtr, type] .void
    return address.push ++ value.push ++ call
  | array _ _ _ => Emit.inconsistent s!"category {category.label} has no value store"
  | list _ element =>
    let handle ← slots.requireHandle category
    let call ← Emit.callStatic (config.runtimeGeneric .listMarshaller element) "ToNative"
      [.intPtr, .intPtr, type] .void
    return .loadStatic handle :: address.push ++ value.push ++ call

/-- Release what the value at an address owns.  There is no code for categories that own nothing. -/
def cleanup (config : Config) (category : Category) (slots : MemberSlots)
    (address : NativeAddress) : Emit Fragment := do
  match category with
  | string =>
    let handle ← slots.requireHandle category
    let call ← Emit.callStatic (config.runtimeSignature .stringMarshaller) "DestructInstance"
      [.intPtr, .intPtr] .void
    return .loadStatic handle :: address.push ++ call
  | text =>
    let call ← Emit.callStatic (config.runtimeSignature .textMarshaller) "DestructInstance"
      [.intPtr] .void
    return address.push ++ call
  | list _ element =>
    let handle ← slots.requireHandle category
    let call ← Emit.callStatic (config.runtimeGeneric .listMarshaller element) "DestructInstance"
      [.intPtr, .intPtr] .void
    return .loadStatic handle :: address.push ++ call
  | _ => return []

/-- Put native memory at an address into the empty state of the category.  There is no code for
categories whose empty state is zeroed memory. -/
def defaultInit (config : Config) (category : Category) (address : NativeAddress) :
    Emit Fragment := do
  if category.needsDefaultInit then
    let call ← Emit.callStatic (config.runtimeSignature .textMarshaller) "InitializeDefault"
      [.intPtr] .void
    return address.push ++ call
  else
    return []

end Category

end NativeWeave
