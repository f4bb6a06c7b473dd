import NativeWeave.Proofs.Editing.Added
import NativeWeave.Proofs.Editing.Construction
import NativeWeave.Proofs.Marshalling.Bounds

namespace NativeWeave

/-!
# Plans stay inside of what they edit

The stores that are taken out of a constructor do not overlap, and all of them lie before the call of
the base class.  So what is taken out is there, and what is put in has a place behind that call.
-/

open Emit

/-! ## Slots and structs -/

section

variable (config : Config) (name : String)

instance bounded_staticSlot (owner type : Signature) : (staticSlot owner name type).Bounded := by
  unfold staticSlot
  infer_instance

instance bounded_optionalSlot (wanted : Bool) (owner type : Signature) :
    (optionalSlot wanted owner name type).Bounded := by
  unfold optionalSlot
  infer_instance

instance bounded_memberSlots (owner : Signature) (category : Category) :
    (memberSlots owner name category).Bounded := by
  unfold memberSlots
  infer_instance

instance Prelude.bounded_query (query : LayoutQuery) (handle slot : UInt32) :
    (Prelude.query config query handle name slot).Bounded := by
  unfold Prelude.query
  infer_instance

instance Prelude.bounded_queryHandle (query : LayoutQuery) (handle slot : UInt32) :
    (queryHandle config query handle slot).Bounded := by
  unfold queryHandle
  infer_instance

instance Prelude.bounded_nativeType (slot : UInt32) : (nativeType config name slot).Bounded := by
  unfold nativeType
  infer_instance

instance Prelude.bounded_booleanWidth (slot : UInt32) : (booleanWidth config slot).Bounded := by
  unfold booleanWidth
  infer_instance

instance Prelude.bounded_filled (slot : Option UInt32) (fill : UInt32 → Emit Fragment)
    [∀ token, (fill token).Bounded] : (filled slot fill).Bounded := by
  unfold filled
  split <;> infer_instance

instance Prelude.bounded_member (owner : UInt32) (slots : MemberSlots) :
    (Prelude.member config owner name slots).Bounded := by
  unfold Prelude.member
  infer_instance

end

namespace StructBinding

variable (config : Config) (type : TypeDef)

instance bounded_exposedField (member : MemberBinding) :
    Weave.Bounded (exposedField type member) := by
  unfold exposedField
  split
  · infer_instance
  · exact .error (by rintro ⟨⟩)

instance bounded_fieldCode (classPtr : UInt32) (member : MemberBinding) :
    (fieldCode config type classPtr member).Bounded := by
  unfold fieldCode
  infer_instance

instance bounded_plan? (binding : StructBinding) : (binding.plan? config type).Bounded := by
  have marshal : (binding.marshalPlan config type).Bounded := by
    unfold marshalPlan
    infer_instance
  unfold plan?
  infer_instance

end StructBinding

/-! ## Properties -/

namespace ClassSite

variable (site : ClassSite) (name : String) (member : MemberBinding) (property : Property)
  (slots : MemberSlots) (address : NativeAddress) (tokens : List UInt32) (backing : Backing)
  (effects : List ConstructionEffect)

instance bounded_method (index : Nat) : Weave.Bounded (site.method index) := by
  unfold ClassSite.method
  infer_instance

instance bounded_isStored : Weave.Bounded (site.isStored tokens) := by
  have each : ∀ method, Weave.Bounded (storesTo tokens method) := by
    intro method
    unfold storesTo
    split <;> infer_instance
  unfold isStored
  split <;> infer_instance

instance bounded_setterCalls (setter : Method) : Weave.Bounded (site.setterCalls name setter) := by
  have each : ∀ type method, Weave.Bounded (site.callsIn name (site.methodTokens setter.name) type
      method) := by
    intro type method
    unfold callsIn
    split <;> infer_instance
  unfold setterCalls
  dsimp only
  split <;> infer_instance

instance bounded_wrapperSlot (category : Category) : (site.wrapperSlot name category).Bounded := by
  unfold wrapperSlot
  split <;> infer_instance

instance bounded_planGetter (index : Nat) :
    (site.planGetter member index slots address).Bounded := by
  unfold planGetter
  infer_instance

instance bounded_planSetter :
    (site.planSetter member property slots address tokens).Bounded := by
  have code : (site.setterCode member slots address).Bounded := by
    unfold setterCode
    infer_instance
  have body : (site.planSetterBody member property slots address tokens).Bounded := by
    unfold planSetterBody
    cases property.setter <;> infer_instance
  unfold planSetter
  refine @Bounded.bind _ _ _ _ _ fun body => ?_
  split <;> infer_instance

instance bounded_planRemoval : Weave.Bounded (site.planRemoval member property) := by
  unfold planRemoval
  split <;> infer_instance

instance bounded_planProperty : (site.planProperty member).Bounded := by
  have accessors : ∀ property getter, (site.planAccessors member property getter).Bounded := by
    intro property getter
    unfold planAccessors
    infer_instance
  unfold planProperty
  split <;> infer_instance

instance bounded_emitEffect (effect : ConstructionEffect) : (site.emitEffect effect).Bounded := by
  unfold emitEffect
  cases effect <;> infer_instance

end ClassSite

/-! ## Functions -/

namespace FunctionSite

variable (site : FunctionSite)

instance bounded_forAll {Value : Type} (values : List Value) (emit : Value → Emit Fragment)
    [∀ value, (emit value).Bounded] : (forAll values emit).Bounded := by
  unfold forAll
  infer_instance

instance bounded_read (config : Config) (value : CallValue) (address : NativeAddress) :
    (value.read config address).Bounded :=
  Category.bounded_fromNative _ _ _ _ _

instance bounded_write (config : Config) (value : CallValue) (address : NativeAddress)
    (source : ValueSource) : (value.write config address source).Bounded :=
  Category.bounded_toNative _ _ _ _ _ _

instance bounded_callerBody : site.callerBody.Bounded := by
  have passed : ∀ value argument, (site.passArgument value argument).Bounded := by
    intro value argument
    unfold passArgument
    infer_instance
  have returned : ∀ value argument, (site.returnArgument value argument).Bounded := by
    intro value argument
    unfold returnArgument
    infer_instance
  have kept : site.keepResult.Bounded := by
    unfold keepResult
    split <;> infer_instance
  have receiver : site.receiver.Bounded := by
    unfold receiver
    infer_instance
  have callee : site.callee.Bounded := by
    unfold FunctionSite.callee
    infer_instance
  unfold callerBody
  infer_instance

instance bounded_invokerBody : site.invokerBody.Bounded := by
  have unpacked : ∀ value index, (site.unpackArgument value index).Bounded := by
    intro value index
    unfold unpackArgument
    infer_instance
  have result : site.passResult.Bounded := by
    unfold passResult
    split <;> infer_instance
  have validated : site.validate.Bounded := by
    unfold validate
    infer_instance
  have called : site.callImplementation.Bounded := by
    unfold callImplementation
    infer_instance
  have crowded : (MonadExcept.throw (.build .tooManyLocals) : Emit PUnit).Bounded :=
    .throw (by rintro ⟨⟩)
  unfold invokerBody
  infer_instance

end FunctionSite

namespace ClassSite

variable (site : ClassSite)

instance bounded_argumentIndex (parameter : Nat) (hasThis : Bool) :
    Weave.Bounded (argumentIndex parameter hasThis) := by
  have each : ∀ index : Nat, Weave.Bounded (if index < 65536 then .ok (UInt16.ofNat index)
      else .error (.inconsistent s!"parameter index {parameter} out of range") : Weave UInt16) := by
    intro index
    split
    · infer_instance
    · exact .error (by rintro ⟨⟩)
  exact each _

instance bounded_planFunction (earlier : TypePlan) (function : FunctionBinding) :
    (site.planFunction earlier function).Bounded := by
  have values : ∀ handle hasThis value, (site.planValue function handle hasThis value).Bounded := by
    intro handle hasThis value
    unfold planValue
    cases value.origin <;> infer_instance
  unfold planFunction
  infer_instance

end ClassSite

/-! ## Constructors -/

namespace ClassSite

variable {site : ClassSite} {backing : Backing} {method : Method} {code : Code} {baseCall : Nat}
  {stores : List (Nat × UInt32)} {relocation : Relocation}

/-- What new objects need goes behind the call of the base class, which the code still reaches to. -/
theorem bounded_planConstruction (effects : List ConstructionEffect) (index : Nat)
    (locals : List Signature) (within : baseCall < code.size) :
    (site.planConstruction backing effects method index locals code baseCall).Bounded := by
  have early := pairwise_earlyStores backing code baseCall
  have stand : ∀ store ∈ earlyStores backing code baseCall, store ∈ backingStores backing code :=
    fun store member => (mem_earlyStores member).1
  rcases exists_relocateAll site method early stand with ⟨result, run, relocated, _⟩
  have front : ∀ store ∈ settable backing code (earlyStores backing code baseCall),
      store.1 < baseCall :=
    fun store member => (mem_earlyStores (List.mem_of_mem_filter member)).2
  rcases relocated.behind front with ⟨room, place, call⟩
  have reaches : baseCall - 3 * result.settings.length < result.code.size := by
    rw [List.getElem?_eq_getElem within] at call
    exact (List.getElem?_eq_some_iff.mp call).1
  have : Weave.Bounded (site.relocateAll backing method code
      ((backingStores backing code).filter (·.1 < baseCall))) := by
    rw [show (backingStores backing code).filter (·.1 < baseCall) =
      earlyStores backing code baseCall from rfl, run]
    exact .ok result
  unfold planConstruction
  refine Emit.Bounded.bindLift fun relocation ran => ?_
  cases run.symm.trans ran
  have inside : baseCall - 3 * result.settings.length + 1 ≤
      (backing.redirectCode result.code).size := by
    have kept : (backing.redirectCode result.code).size = result.code.size := List.length_map _
    omega
  dsimp only
  split
  · infer_instance
  · rw [if_neg (Nat.not_lt_of_le room)]
    refine @Bounded.bind _ _ _ _ _ fun emitted => ?_
    rcases Code.exists_insert? inside
      (result.settings.flatten ++ Fragment.concat emitted) with ⟨edited, inserted⟩
    rw [inserted]
    infer_instance

theorem bounded_planConstructor (effects : List ConstructionEffect) (index : Nat) :
    (site.planConstructor backing effects index method).Bounded := by
  unfold planConstructor
  split
  · infer_instance
  · refine Emit.Bounded.bindLift fun code _ => ?_
    dsimp only
    split
    · infer_instance
    · split
      · infer_instance
      · next baseCall called =>
        rcases baseCall?_eq_some called with ⟨token, _, call, _⟩
        exact bounded_planConstruction _ index _ (List.getElem?_eq_some_iff.mp call).1

end ClassSite

/-! ## Plans -/

instance Backing.bounded_methodPlans (backing : Backing) (type : TypeDef) (plan : TypePlan) :
    Weave.Bounded (backing.methodPlans type plan) := by
  have each : ∀ method index, Weave.Bounded (backing.methodPlan type method index) := by
    intro method index
    unfold methodPlan
    split <;> infer_instance
  unfold methodPlans
  split <;> infer_instance

instance ClassBinding.bounded_plan (binding : ClassBinding) (config : Config) (source : Module)
    (type : TypeDef) : (binding.plan config source type).Bounded := by
  have constructors : ∀ (site : ClassSite) backing effects,
      (site.planConstructors backing effects).Bounded := by
    intro site backing effects
    have each : ∀ item : Nat × Method,
        (site.planConstructor backing effects item.1 item.2).Bounded := fun item =>
      ClassSite.bounded_planConstructor effects item.1
    unfold ClassSite.planConstructors
    infer_instance
  have members : ∀ site : ClassSite, site.planMembers.Bounded := by
    intro site
    unfold ClassSite.planMembers
    infer_instance
  unfold plan
  infer_instance

end NativeWeave
