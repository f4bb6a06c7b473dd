import NativeWeave.Editing.Class
import NativeWeave.Editing.Struct
import NativeWeave.Proofs.Marshalling.Emission

namespace NativeWeave

/-!
# Planning only adds to the tables

The plan of a type is worked out with the tables of the module at hand, and of these the edits of
all other types make use.  No step of planning takes an entry away.
-/

open Emit

variable {config : Config} {name : String} {member : MemberBinding}

/-! ## Slots -/

instance grows_staticSlot (owner type : Signature) : (staticSlot owner name type).Grows := by
  unfold staticSlot
  infer_instance

instance grows_optionalSlot (wanted : Bool) (owner type : Signature) :
    (optionalSlot wanted owner name type).Grows := by
  unfold optionalSlot
  infer_instance

instance grows_memberSlots (owner : Signature) (category : Category) :
    (memberSlots owner name category).Grows := by
  unfold memberSlots
  infer_instance

namespace Prelude

instance grows_query (query : LayoutQuery) (handle slot : UInt32) :
    (Prelude.query config query handle name slot).Grows := by
  unfold Prelude.query
  infer_instance

instance grows_queryHandle (query : LayoutQuery) (handle slot : UInt32) :
    (queryHandle config query handle slot).Grows := by
  unfold queryHandle
  infer_instance

instance grows_nativeType (slot : UInt32) : (nativeType config name slot).Grows := by
  unfold nativeType
  infer_instance

instance grows_booleanWidth (slot : UInt32) : (booleanWidth config slot).Grows := by
  unfold booleanWidth
  infer_instance

instance grows_filled (slot : Option UInt32) (fill : UInt32 → Emit Fragment)
    [∀ token, (fill token).Grows] : (filled slot fill).Grows := by
  unfold filled
  split <;> infer_instance

instance grows_member (owner : UInt32) (slots : MemberSlots) :
    (Prelude.member config owner name slots).Grows := by
  unfold Prelude.member
  infer_instance

end Prelude

/-! ## Structs -/

namespace StructBinding

variable {type : TypeDef} {binding : StructBinding}

instance grows_fieldCode (classPtr : UInt32) : (fieldCode config type classPtr member).Grows := by
  unfold fieldCode
  infer_instance

instance grows_marshalPlan : (binding.marshalPlan config type).Grows := by
  unfold marshalPlan
  infer_instance

instance grows_plan? : (binding.plan? config type).Grows := by
  unfold plan?
  infer_instance

end StructBinding

/-! ## Properties and constructors -/

namespace ClassSite

variable {site : ClassSite} {slots : MemberSlots} {address : NativeAddress} {property : Property}
  {tokens : List UInt32} {backing : Backing} {effects : List ConstructionEffect}

instance grows_wrapperSlot (category : Category) : (site.wrapperSlot name category).Grows := by
  unfold wrapperSlot
  split <;> infer_instance

instance grows_planGetter (index : Nat) : (site.planGetter member index slots address).Grows := by
  unfold planGetter
  infer_instance

instance grows_setterCode : (site.setterCode member slots address).Grows := by
  unfold setterCode
  infer_instance

instance grows_planSetterBody :
    (site.planSetterBody member property slots address tokens).Grows := by
  unfold planSetterBody
  cases property.setter <;> infer_instance

instance grows_planSetter : (site.planSetter member property slots address tokens).Grows := by
  unfold planSetter
  -- The name that the first step gives decides about what follows.
  refine @Grows.bind _ _ _ _ _ fun body => ?_
  split <;> infer_instance

instance grows_planAccessors (getter : Nat) :
    (site.planAccessors member property getter).Grows := by
  unfold planAccessors
  infer_instance

instance grows_planProperty : (site.planProperty member).Grows := by
  unfold planProperty
  split <;> infer_instance

instance grows_emitEffect (effect : ConstructionEffect) : (site.emitEffect effect).Grows := by
  unfold emitEffect
  cases effect <;> infer_instance

instance grows_planConstruction (method : Method) (index : Nat) (locals : List Signature)
    (code : Code) (baseCall : Nat) :
    (site.planConstruction backing effects method index locals code baseCall).Grows := by
  unfold planConstruction
  refine @Grows.bind _ _ _ _ _ fun relocation => ?_
  dsimp only
  split
  · infer_instance
  · split
    · infer_instance
    · refine @Grows.bind _ _ _ _ _ fun emitted => ?_
      split <;> infer_instance

instance grows_planConstructor (index : Nat) (method : Method) :
    (site.planConstructor backing effects index method).Grows := by
  unfold planConstructor
  split
  · infer_instance
  · refine @Grows.bind _ _ _ _ _ fun code => ?_
    dsimp only
    cases site.baseCall? code <;> infer_instance

instance grows_planConstructors : (site.planConstructors backing effects).Grows := by
  unfold planConstructors
  infer_instance

end ClassSite

/-! ## Functions -/

namespace FunctionSite

variable {site : FunctionSite} {value : CallValue}

instance grows_read {address : NativeAddress} : (value.read config address).Grows :=
  Category.grows_fromNative

instance grows_write {address : NativeAddress} {source : ValueSource} :
    (value.write config address source).Grows :=
  Category.grows_toNative

instance grows_forAll {Value : Type} (values : List Value) (emit : Value → Emit Fragment)
    [∀ value, (emit value).Grows] : (forAll values emit).Grows := by
  unfold forAll
  infer_instance

instance grows_passArgument (argument : UInt16) : (site.passArgument value argument).Grows := by
  unfold passArgument
  infer_instance

instance grows_receiver : site.receiver.Grows := by
  unfold receiver
  infer_instance

instance grows_callee : site.callee.Grows := by
  unfold callee
  infer_instance

instance grows_returnArgument (argument : UInt16) :
    (site.returnArgument value argument).Grows := by
  unfold returnArgument
  infer_instance

instance grows_keepResult : site.keepResult.Grows := by
  unfold keepResult
  split <;> infer_instance

instance grows_callerBody : site.callerBody.Grows := by
  unfold callerBody
  infer_instance

instance grows_unpackArgument (index : UInt16) : (site.unpackArgument value index).Grows := by
  unfold unpackArgument
  infer_instance

instance grows_validate : site.validate.Grows := by
  unfold validate
  infer_instance

instance grows_callImplementation : site.callImplementation.Grows := by
  unfold callImplementation
  infer_instance

instance grows_passResult : site.passResult.Grows := by
  unfold passResult
  split <;> infer_instance

instance grows_invokerBody : site.invokerBody.Grows := by
  unfold invokerBody
  infer_instance

end FunctionSite

/-! ## Classes -/

namespace ClassSite

variable {site : ClassSite}

instance grows_planValue (function : FunctionBinding) (handle : UInt32) (hasThis : Bool) :
    (site.planValue function handle hasThis member).Grows := by
  unfold planValue
  cases member.origin <;> infer_instance

instance grows_planFunction (earlier : TypePlan) (function : FunctionBinding) :
    (site.planFunction earlier function).Grows := by
  unfold planFunction
  infer_instance

instance grows_planMembers : site.planMembers.Grows := by
  unfold planMembers
  infer_instance

end ClassSite

instance grows_classPlan (source : Module) (type : TypeDef) (binding : ClassBinding) :
    (binding.plan config source type).Grows := by
  unfold ClassBinding.plan
  infer_instance

end NativeWeave
