import NativeWeave.Editing.Property

namespace NativeWeave

/-!
# Exposed functions

An exposed function becomes three methods.  The function itself packs its arguments into a native
buffer and calls the native function; its code lives on in a method of another name; and an invoker
lets native code call that method with the arguments in a buffer.

All parameters and the return value have their places in one buffer, at offsets that belong to the
function.
-/

/-- A value that crosses the boundary with a call. -/
structure CallValue where
  binding : MemberBinding
  slots : MemberSlots
  /-- The index of the argument, the receiver counted; none for the return value. -/
  argument : Option UInt16

namespace CallValue

def type (value : CallValue) : Signature :=
  value.binding.valueType

/-- The place of the value in a buffer. -/
def place (value : CallValue) (buffer : ValueSource) : NativeAddress :=
  ⟨buffer, some value.slots.offset⟩

/-- Push the value from its place in a buffer. -/
def read (config : Config) (value : CallValue) (address : NativeAddress) : Emit Fragment :=
  value.binding.category.fromNative config value.type value.slots address

/-- Write the value to a place in a buffer. -/
def write (config : Config) (value : CallValue) (address : NativeAddress)
    (source : ValueSource) : Emit Fragment :=
  value.binding.category.toNative config value.type value.slots address source

end CallValue

/-- A function that is being planned. -/
structure FunctionSite where
  site : ClassSite
  function : FunctionBinding
  /-- The method that the function is made from. -/
  method : Method
  /-- The static field with the handle of the native function. -/
  handle : UInt32
  /-- The static field with the size of the buffer. -/
  size : UInt32
  values : List CallValue

namespace FunctionSite

def config (site : FunctionSite) : Config :=
  site.site.config

def hasThis (site : FunctionSite) : Bool :=
  !site.method.isStatic

/-- The parameters with the indices of their arguments. -/
def arguments (site : FunctionSite) : List (CallValue × UInt16) :=
  site.values.filterMap fun value => value.argument.map (value, ·)

/-- The first value that is no parameter. -/
def result? (site : FunctionSite) : Option CallValue :=
  site.values.find? (·.argument.isNone)

/-- Concatenate code for several values. -/
def forAll {Value : Type} (values : List Value) (emit : Value → Emit Fragment) :
    Emit Fragment := do
  return Fragment.concat (← values.mapM emit)

/-! ## Calling native code -/

/-- The local variable that holds the address of the buffer. -/
def buffer : ValueSource := .localVariable 0

/-- Allocate a zeroed buffer. -/
def allocate (site : FunctionSite) : Fragment :=
  [.loadStatic site.size, .plain .localAlloc, .storeLocal 0, .loadLocal 0, .constI32 0,
    .loadStatic site.size, .plain .initBlock]

/-- Write an argument that the callee takes into the buffer. -/
def passArgument (site : FunctionSite) (value : CallValue) (argument : UInt16) :
    Emit Fragment := do
  let source ← if value.binding.isByRef then
      pure (.behind argument (← Emit.type value.type))
    else
      pure (.argument argument)
  value.write site.config (value.place buffer) source

/-- Push the receiver of the native call: the native instance, or for static functions the default
object of the class. -/
def receiver (site : FunctionSite) : Emit Fragment := do
  if site.hasThis then
    return (← Emit.thisNative site.config).push
  else
    return .loadStatic site.site.classPtr :: (← Emit.call site.config.getDefaultObject)

/-- Push the handle of the native function, which an instance may have overridden. -/
def callee (site : FunctionSite) : Emit Fragment := do
  if site.hasThis && site.function.isNativeEvent then
    let resolve ← Emit.member site.config.resolveFunctionOnInstance
    let name ← Emit.loadString site.function.nativeName
    return .loadArg 0 :: name ++ [.call resolve]
  else
    return [.loadStatic site.handle]

/-- Write a parameter back to the caller. -/
def returnArgument (site : FunctionSite) (value : CallValue) (argument : UInt16) :
    Emit Fragment := do
  let type ← Emit.type value.type
  let read ← value.read site.config (value.place buffer)
  return Fragment.concat [[.loadArg argument], read, [.storeObject type]]

/-- Keep the return value in the local variable behind the buffer. -/
def keepResult (site : FunctionSite) : Emit Fragment :=
  match site.result? with
  | none => return []
  | some value => do
    return Fragment.concat [← value.read site.config (value.place buffer), [.storeLocal 1]]

/-- The body of the function itself.  What the arguments own is released right after the call. -/
def callerBody (site : FunctionSite) : Emit Body := do
  let live ← if site.hasThis then Emit.liveness site.config else pure []
  let inputs := site.arguments.filter (·.1.binding.isInput)
  let passed ← forAll inputs fun (value, argument) => site.passArgument value argument
  let receiver ← site.receiver
  let callee ← site.callee
  let invoke ← Emit.call site.config.invokeNativeFunction
  let outputs := site.arguments.filter (·.1.binding.isByRef)
  let returned ← forAll outputs fun (value, argument) => site.returnArgument value argument
  let kept ← site.keepResult
  let owning := site.values.filter (·.binding.category.needsCleanup)
  let released ← forAll owning fun value =>
    value.binding.category.cleanup site.config value.slots (value.place buffer)
  let code := Fragment.concat [live, site.allocate, passed, receiver, callee, [.loadLocal 0],
    invoke, returned, kept, released, (site.result?.map fun _ => .loadLocal 1).toList, [.ret]]
  return ({ instrs := code } : Code).toBody
    (.intPtr :: (site.result?.map (·.type)).toList)

/-! ## Calls from native code -/

/-- The argument of the invoker that holds the address of the buffer. -/
def bufferArgument (site : FunctionSite) : UInt16 :=
  if site.hasThis then 1 else 0

/-- The parameters with the local variables that hold them in the invoker. -/
def unpacked (site : FunctionSite) : List (CallValue × UInt16) :=
  site.arguments.zipIdx.map fun ((value, _), index) => (value, UInt16.ofNat index)

/-- Read an argument that the callee takes from the buffer. -/
def unpackArgument (site : FunctionSite) (value : CallValue) (index : UInt16) :
    Emit Fragment := do
  let read ← value.read site.config (value.place (.argument site.bufferArgument))
  return Fragment.concat [read, [.storeLocal index]]

/-- Push the receiver and all arguments. -/
def pushArguments (site : FunctionSite) : Fragment :=
  (if site.hasThis then [.loadArg 0] else []) ++ site.unpacked.map fun (value, index) =>
    if value.binding.isByRef then .loadLocalAddress index else .loadLocal index

/-- Check the arguments and give up if they do not pass. -/
def validate (site : FunctionSite) : Emit Fragment := do
  if site.function.hasValidation then
    let check ← Emit.call ⟨site.site.owner, Naming.validation site.function.name,
      .method ⟨site.hasThis, site.method.parameterTypes, .bool⟩⟩
    let report ← Emit.member site.config.reportValidationFailure
    let text ← Emit.loadString s!"{site.function.name} failed validation"
    return Fragment.concat [site.pushArguments, check,
      Fragment.skip .ifTrue (text ++ [.call report, .ret])]
  else
    return []

/-- Call the code of the function. -/
def callImplementation (site : FunctionSite) : Emit Fragment := do
  let token ← Emit.member
    ⟨site.site.owner, Naming.implementation site.function.name, .method site.method.signature⟩
  let call := if site.method.isVirtual then Instr.callVirtual token else Instr.call token
  return site.pushArguments ++ [call]

/-- Write the return value, which has the local variable behind the parameters, to the address that
the invoker gets for it. -/
def passResult (site : FunctionSite) : Emit Fragment :=
  match site.result? with
  | none => return []
  | some value => do
    let index := UInt16.ofNat site.arguments.length
    let write ← value.write site.config ⟨.argument (site.bufferArgument + 1), none⟩
      (.localVariable index)
    return Fragment.concat [[.storeLocal index], write]

/-- The types of the local variables of the invoker. -/
def invokerLocals (site : FunctionSite) : List Signature :=
  site.arguments.map (·.1.type) ++ (site.result?.map (·.type)).toList

/-- The body of the invoker. -/
def invokerBody (site : FunctionSite) : Emit Body := do
  if 65535 < site.invokerLocals.length then throw (.build .tooManyLocals)
  let inputs := site.unpacked.filter (·.1.binding.isInput)
  let unpacked ← forAll inputs fun (value, index) => site.unpackArgument value index
  let validated ← site.validate
  let called ← site.callImplementation
  let result ← site.passResult
  let outputs := site.unpacked.filter (·.1.binding.isByRef)
  let returned ← forAll outputs fun (value, index) =>
    value.write site.config (value.place (.argument site.bufferArgument)) (.localVariable index)
  let code := Fragment.concat [unpacked, validated, called, result, returned, [.ret]]
  return ({ instrs := code } : Code).toBody site.invokerLocals

/-! ## The methods -/

/-- The function itself with its new body. -/
def caller (site : FunctionSite) (body : Body) : Method :=
  { site.method with
    flags := site.method.flags &&& ~~~(Method.virtualFlag ||| Method.abstractFlag)
    body := some body }

/-- The method by which native code calls the function. -/
def invoker (site : FunctionSite) (body : Body) : Method where
  name := Naming.invoker site.function.name
  flags := Method.generatedFlag ||| if site.hasThis then 0 else Method.staticFlag
  parameters := [{ name := "buffer", type := .intPtr }, { name := "returnBuffer", type := .intPtr }]
  body := some body
  source := site.method.source

end FunctionSite

namespace ClassSite

/-- The index of an argument, the receiver counted. -/
def argumentIndex (parameter : Nat) (hasThis : Bool) : Weave UInt16 :=
  let index := parameter + if hasThis then 1 else 0
  if index < 65536 then .ok (UInt16.ofNat index)
  else .error (.inconsistent s!"parameter index {parameter} out of range")

/-- Slots for a parameter or a return value of a function with the given handle. -/
def planValue (site : ClassSite) (function : FunctionBinding) (handle : UInt32) (hasThis : Bool)
    (value : MemberBinding) : Emit (Planned CallValue) := do
  let slots ← memberSlots site.owner (Naming.parameterSlots function.name value.name) value.category
  let fill ← Prelude.member site.config handle value.nativeName slots.value
  let argument ← match value.origin with
    | .parameter index => some <$> (argumentIndex index hasThis : Emit UInt16)
    | _ => pure none
  return ⟨⟨value, slots.value, argument⟩, slots.plan ++ ({ prelude := fill } : TypePlan)⟩

/-- The edits for an exposed function.  `earlier` are the edits planned before. -/
def planFunction (site : ClassSite) (earlier : TypePlan) (function : FunctionBinding) :
    Emit TypePlan := do
  let method ← Weave.ofOption site.type.methods[function.method]?
    s!"exposed function '{function.name}' moved"
  let handle ← staticSlot site.owner (Naming.functionSlot function.name) .intPtr
  let size ← staticSlot site.owner (Naming.parametersSizeSlot function.name) .i32
  let findHandle ← Prelude.query site.config .functionHandle site.classPtr function.nativeName
    handle.value
  let findSize ← Prelude.queryHandle site.config .functionArgumentsSize handle.value size.value
  let values ← function.values.mapM (site.planValue function handle.value (!method.isStatic))
  let call : FunctionSite :=
    ⟨site, function, method, handle.value, size.value, values.map (·.value)⟩
  let callerBody ← call.callerBody
  let invokerBody ← call.invokerBody
  let implementation := Naming.implementation function.name
  let renamed : TypePlan :=
    { renames := [(function.method, implementation)]
      touched := if earlier.replaces function.method then [implementation] else [] }
  return handle.plan ++ size.plan ++ ({ prelude := findHandle ++ findSize } : TypePlan)
    ++ TypePlan.concat (values.map (·.plan)) ++ renamed
    ++ TypePlan.addMethod (call.caller callerBody) ++ TypePlan.addMethod (call.invoker invokerBody)

end ClassSite

end NativeWeave
