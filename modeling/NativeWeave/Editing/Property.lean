import NativeWeave.Editing.Backing

namespace NativeWeave

/-!
# Properties of classes

The accessors of an exposed property read and write native memory.  A property whose value is
changed in place loses its setter, which must not be called from anywhere.  A property without a
setter gets a hidden one if a constructor initializes it.
-/

/-- A class that is being planned. -/
structure ClassSite where
  config : Config
  /-- The module as it was. -/
  source : Module
  type : TypeDef
  binding : ClassBinding
  /-- The static field with the handle of the native class. -/
  classPtr : UInt32

/-- What the constructor of new objects does once the native instance exists. -/
inductive ConstructionEffect
  /-- Put the native memory of a member into its empty state, unless the constructor stores to one
  of the hidden fields of the member. -/
  | defaultInit (category : Category) (offset : UInt32) (backing : List UInt32)
  | subobject (target : Signature) (nativeName : String) (offset : UInt32)
deriving DecidableEq, Repr

/-- What a property asks for. -/
structure PropertyPlan where
  plan : TypePlan := {}
  backing : Backing := []
  effects : List ConstructionEffect := []
  diagnostics : List Diagnostic := []

namespace ClassSite

def owner (site : ClassSite) : Signature :=
  site.type.signature

/-- The method with an index. -/
def method (site : ClassSite) (index : Nat) : Weave Method :=
  Weave.ofOption site.type.methods[index]?
    s!"method index {index} out of range on '{site.type.fullName}'"

/-- The tokens of all references to an instance field of the class. -/
def fieldTokens (site : ClassSite) (name : String) : List UInt32 :=
  site.source.tables.memberTokens fun member =>
    member.owner = site.owner && member.name == name && member.kind matches .field _ false

/-- The tokens of all references to methods of the class that have a name. -/
def methodTokens (site : ClassSite) (name : String) : List UInt32 :=
  site.source.tables.memberTokens fun member =>
    member.owner = site.owner && member.name == name && member.isMethod

/-- The method stores to one of the fields. -/
def storesTo (tokens : List UInt32) (method : Method) : Weave Bool :=
  match method.body with
  | none => return false
  | some body => do
    let code ← Weave.ofDecode body.toCode
    return code.instrs.any fun instr =>
      match instr with
      | .member .storeField token => tokens.contains token
      | _ => false

/-- One of the methods of the class stores to one of the fields. -/
def isStored (site : ClassSite) (tokens : List UInt32) : Weave Bool :=
  if tokens.isEmpty then return false else site.type.methods.anyM (storesTo tokens)

/-- The instruction calls one of the methods. -/
def callsAny (tokens : List UInt32) : Instr → Bool
  | .member .call token | .member .callVirtual token => tokens.contains token
  | _ => false

/-- Reports of the calls of a removed setter in a method. -/
def callsIn (site : ClassSite) (property : String) (tokens : List UInt32) (type : TypeDef)
    (method : Method) : Weave (List Diagnostic) :=
  match method.body with
  | none => return []
  | some body => do
    let code ← Weave.ofDecode body.toCode
    let calls := code.instrs.zipIdx.filter fun (instr, _) => callsAny tokens instr
    return calls.map fun (_, index) =>
      ((Diagnostic.error .setterStillReferenced
        (s!"setter of '{property}' is removed because the value is mutated through its wrapper, "
          ++ s!"but '{type.fullName}::{method.name}' still calls it")).atSymbol
            (site.type.memberSymbol property)).atLocation (method.sourceAt type code index)

/-- Reports of all calls of a removed setter in the module, apart from those in the setter. -/
def setterCalls (site : ClassSite) (property : String) (setter : Method) :
    Weave (List Diagnostic) := do
  let tokens := site.methodTokens setter.name
  if tokens.isEmpty then
    return []
  else
    let callers := site.source.types.flatMap fun type =>
      (type.methods.filter fun method =>
        !(type.fullName == site.type.fullName && method.name == setter.name)).map (type, ·)
    let found ← callers.mapM fun (type, method) => site.callsIn property tokens type method
    return found.flatten

/-- The field that keeps the wrapper of a property, if its category has one. -/
def wrapperSlot (site : ClassSite) (property : String) (category : Category) :
    Emit (Planned (Option UInt32)) := do
  match site.config.wrapperType? category with
  | none => return ⟨none, {}⟩
  | some type =>
    let name := Naming.wrapperField property
    let token ← Emit.member (.field site.owner name type)
    return ⟨some token, { fields := [{ name, type, flags := Field.generatedFlag }] }⟩

/-- The token of the getter of a property, with its new body. -/
def planGetter (site : ClassSite) (member : MemberBinding) (index : Nat) (slots : MemberSlots)
    (address : NativeAddress) : Emit (Planned UInt32) := do
  let getter ← site.method index
  let live ← Emit.liveness site.config
  let load ← member.category.load site.config member.valueType slots address
  let code := Fragment.concat [live, load, [.ret]]
  let token ← Emit.member (.instanceMethod site.owner getter.name [] member.valueType)
  return ⟨token, .replaceBody index getter.name (({ instrs := code } : Code).toBody [])⟩

/-- The code of a setter. -/
def setterCode (site : ClassSite) (member : MemberBinding) (slots : MemberSlots)
    (address : NativeAddress) : Emit Fragment := do
  let live ← Emit.liveness site.config
  let store ← member.category.store site.config member.valueType slots address (.argument 1)
  return Fragment.concat [live, store, [.ret]]

/-- A setter for a property that has none. -/
def hiddenSetter (member : MemberBinding) (code : Fragment) : Method :=
  { generatedMethod (Naming.setter member.name) [("value", member.valueType)] code [] with
    access := .owner
    flags := Method.specialNameFlag ||| Method.generatedFlag }

/-- The name of the setter of a property, with its new body.  Without a declared setter a hidden one
is made if something is stored to the hidden field. -/
def planSetterBody (site : ClassSite) (member : MemberBinding) (property : Property)
    (slots : MemberSlots) (address : NativeAddress) (tokens : List UInt32) :
    Emit (Planned (Option String)) := do
  let code ← site.setterCode member slots address
  match property.setter with
  | some index =>
    let setter ← site.method index.toNat
    return ⟨some setter.name,
      .replaceBody index.toNat setter.name (({ instrs := code } : Code).toBody [])⟩
  | none =>
    if ← site.isStored tokens then
      return ⟨some (Naming.setter member.name), .addMethod (hiddenSetter member code)⟩
    else
      return ⟨none, {}⟩

/-- The token of the setter of a property that can be set. -/
def planSetter (site : ClassSite) (member : MemberBinding) (property : Property)
    (slots : MemberSlots) (address : NativeAddress) (tokens : List UInt32) :
    Emit (Planned (Option UInt32)) := do
  let body ← site.planSetterBody member property slots address tokens
  match body.value with
  | none => return ⟨none, body.plan⟩
  | some name =>
    let token ← Emit.member (.instanceMethod site.owner name [member.valueType] .void)
    return ⟨some token, body.plan⟩

/-- The removal of a setter. -/
def planRemoval (site : ClassSite) (member : MemberBinding) (property : Property) :
    Weave (TypePlan × List Diagnostic) :=
  match property.setter with
  | none => return ({}, [])
  | some index => do
    let setter ← site.method index.toNat
    let diagnostics ← site.setterCalls member.name setter
    return ({ removedMethods := [index.toNat] }, diagnostics)

/-- What the constructor of new objects does for a property. -/
def effectsOf (member : MemberBinding) (offset : UInt32) (tokens : List UInt32) :
    List ConstructionEffect :=
  let initialized := if member.category.needsDefaultInit then
      [ConstructionEffect.defaultInit member.category offset tokens]
    else
      []
  match member.category with
  | .subobject target => initialized ++ [.subobject target member.nativeName offset]
  | _ => initialized

/-- What an exposed property asks for. -/
def planAccessors (site : ClassSite) (member : MemberBinding) (property : Property)
    (getter : Nat) : Emit PropertyPlan := do
  let slots ← memberSlots site.owner member.name member.category
  let wrapper ← site.wrapperSlot member.name member.category
  let all := { slots.value with wrapper := wrapper.value }
  let fill ← Prelude.member site.config site.classPtr member.nativeName all
  let address : NativeAddress := ⟨← Emit.thisNative site.config, some all.offset⟩
  let reading ← site.planGetter member getter all address
  let hidden := Naming.backingField member.name
  let tokens := site.fieldTokens hidden
  let (setter, removal, diagnostics) ← if member.category.suppressesSetter then do
      let (removal, diagnostics) ← site.planRemoval member property
      pure (⟨none, {}⟩, removal, diagnostics)
    else do
      let setter ← site.planSetter member property all address tokens
      pure (setter, {}, [])
  let emptied : TypePlan := if (site.type.findField? hidden).isSome then
      { removedFields := [hidden] }
    else
      {}
  return {
    plan := slots.plan ++ wrapper.plan ++ ({ prelude := fill } : TypePlan) ++ reading.plan
      ++ setter.plan ++ removal ++ emptied
    backing := tokens.map fun token => (token, ⟨member.name, reading.value, setter.value⟩)
    effects := effectsOf member all.offset tokens
    diagnostics }

/-- What a member of the class asks for.  Only properties ask for anything. -/
def planProperty (site : ClassSite) (member : MemberBinding) : Emit PropertyPlan := do
  match member.origin with
  | .property index =>
    let property ← Weave.ofOption site.type.properties[index]?
      s!"property '{member.name}' moved during rewriting"
    let getter ← Weave.ofOption property.getter s!"property '{member.name}' lost its getter"
    site.planAccessors member property getter.toNat
  | _ => return {}

end ClassSite

end NativeWeave
