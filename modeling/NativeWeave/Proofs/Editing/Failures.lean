import NativeWeave.Proofs.Editing.Collaborators
import NativeWeave.Proofs.Editing.Coverage
import NativeWeave.Proofs.Marshalling.Failures

namespace NativeWeave

/-!
# Why planning fails

A binding fits its type if every exposed member has the declaration that its origin names, with
accessors in range, and if nothing is handed over by value that has no value.  For such a binding
planning is safe: the slots that code asks for have been made, no fixed array is written, and each
accessor is where its property says.
-/

open Emit

variable {config : Config} {name : String}

/-! ## Slots -/

instance safe_staticSlot (owner type : Signature) : (staticSlot owner name type).Safe := by
  unfold staticSlot
  infer_instance

instance safe_optionalSlot (wanted : Bool) (owner type : Signature) :
    (optionalSlot wanted owner name type).Safe := by
  unfold optionalSlot
  infer_instance

instance safe_memberSlots (owner : Signature) (category : Category) :
    (memberSlots owner name category).Safe := by
  unfold memberSlots
  infer_instance

theorem yieldsPresent_optionalSlot {wanted : Bool} {owner type : Signature} :
    (optionalSlot wanted owner name type).Yields fun slot =>
      wanted = true → slot.value.isSome = true := by
  unfold optionalSlot
  split
  · exact .after fun slot => .pure fun _ => rfl
  · next unwanted => exact .pure fun wanted => absurd wanted unwanted

/-- The slots of a member are those that its category asks for. -/
theorem yieldsFit_memberSlots {owner : Signature} {category : Category} :
    (memberSlots owner name category).Yields fun slots => slots.value.Fit category := by
  unfold memberSlots
  refine .after fun offset => .bind yieldsPresent_optionalSlot fun handle first => ?_
  refine .bind yieldsPresent_optionalSlot fun elementSize second => ?_
  exact .bind yieldsPresent_optionalSlot fun width third => .pure ⟨first, second, third⟩

namespace Prelude

instance safe_query (query : LayoutQuery) (handle slot : UInt32) :
    (Prelude.query config query handle name slot).Safe := by
  unfold Prelude.query
  infer_instance

instance safe_queryHandle (query : LayoutQuery) (handle slot : UInt32) :
    (queryHandle config query handle slot).Safe := by
  unfold queryHandle
  infer_instance

instance safe_nativeType (slot : UInt32) : (nativeType config name slot).Safe := by
  unfold nativeType
  infer_instance

instance safe_booleanWidth (slot : UInt32) : (booleanWidth config slot).Safe := by
  unfold booleanWidth
  infer_instance

instance safe_filled (slot : Option UInt32) (fill : UInt32 → Emit Fragment)
    [∀ token, (fill token).Safe] : (filled slot fill).Safe := by
  unfold filled
  split <;> infer_instance

instance safe_member (owner : UInt32) (slots : MemberSlots) :
    (Prelude.member config owner name slots).Safe := by
  unfold Prelude.member
  infer_instance

end Prelude

/-! ## Structs -/

/-- The member exposes a field of the type. -/
def MemberBinding.ExposesField (member : MemberBinding) (type : TypeDef) : Prop :=
  ∃ index field, member.origin = .field index ∧ type.fields[index]? = some field

namespace StructBinding

variable {type : TypeDef} {binding : StructBinding}

theorem safe_fieldCode (classPtr : UInt32) {member : MemberBinding}
    (exposes : member.ExposesField type) : (fieldCode config type classPtr member).Safe := by
  have found : (liftM (exposedField type member) : Emit Field).Safe := by
    rcases exposes with ⟨index, field, origin, here⟩
    refine .lift ?_
    simp only [exposedField, origin, here]
    exact .ok field
  unfold fieldCode
  refine @Safe.bind _ _ _ _ found fun field => .bindYields yieldsFit_memberSlots fun slots fit => ?_
  have read : ∀ type address,
      (member.category.fromNative config type slots.value address).Safe :=
    fun _ _ => Category.safe_fromNative fit
  cases whole : member.category.isArray with
  | true =>
    simp only [if_true]
    infer_instance
  | false =>
    have write : ∀ type address value,
        (member.category.toNative config type slots.value address value).Safe :=
      fun _ _ _ => Category.safe_toNative fit whole
    simp only [Bool.false_eq_true, if_false]
    infer_instance

theorem safe_plan? (exposes : ∀ member ∈ binding.members, member.ExposesField type) :
    (binding.plan? config type).Safe := by
  have fields : ∀ classPtr : UInt32,
      (binding.members.mapM (fieldCode config type classPtr)).Safe :=
    fun classPtr => .forallMapM fun member listed => safe_fieldCode classPtr (exposes member listed)
  have marshal : (binding.marshalPlan config type).Safe := by
    unfold marshalPlan
    infer_instance
  unfold plan?
  infer_instance

end StructBinding

/-! ## Properties and constructors -/

/-- The member exposes a property of the type, which has a getter, and the accessors of the property
are methods of the type. -/
def MemberBinding.ExposesProperty (member : MemberBinding) (type : TypeDef) : Prop :=
  ∃ index property getter, member.origin = .property index ∧
    type.properties[index]? = some property ∧ property.getter = some getter ∧
    getter.toNat < type.methods.length ∧
    ∀ setter ∈ property.setter, setter.toNat < type.methods.length

namespace ClassSite

variable {site : ClassSite} {member : MemberBinding} {slots : MemberSlots}
  {address : NativeAddress} {property : Property} {tokens : List UInt32} {backing : Backing}
  {effects : List ConstructionEffect}

theorem safe_method {index : Nat} (inside : index < site.type.methods.length) :
    Weave.Safe (site.method index) :=
  .ofOption (by rw [List.getElem?_eq_getElem inside]; rfl) _

theorem safe_storesTo (method : Method) : Weave.Safe (storesTo tokens method) := by
  unfold storesTo
  split
  · exact .ok false
  · exact .bind (.ofDecode _) fun code _ => .ok _

theorem safe_isStored : Weave.Safe (site.isStored tokens) := by
  unfold isStored
  split
  · exact .ok false
  · exact .anyM safe_storesTo

theorem safe_setterCalls (setter : Method) : Weave.Safe (site.setterCalls name setter) := by
  have calls : ∀ type method, Weave.Safe (site.callsIn name (site.methodTokens setter.name) type
      method) := by
    intro type method
    unfold callsIn
    split
    · exact .ok []
    · exact .bind (.ofDecode _) fun code _ => .ok _
  unfold setterCalls
  dsimp only
  split
  · exact .ok []
  · exact .bind (.mapM fun caller _ => calls caller.1 caller.2) fun found _ => .ok _

instance safe_wrapperSlot (category : Category) : (site.wrapperSlot name category).Safe := by
  unfold wrapperSlot
  split <;> infer_instance

/-- A category that keeps a wrapper has a field for it. -/
theorem yieldsPresent_wrapperSlot {category : Category} :
    (site.wrapperSlot name category).Yields fun slot =>
      category.needsWrapperField = true → slot.value.isSome = true := by
  unfold wrapperSlot
  split
  · next absent =>
    refine .pure fun wrapped => ?_
    cases category <;> first | exact absurd absent (Option.some_ne_none _) | cases wrapped
  · exact .after fun token => .pure fun _ => rfl

theorem safe_planGetter {index : Nat} (inside : index < site.type.methods.length)
    (fit : slots.Fit member.category)
    (wrapper : member.category.needsWrapperField = true → slots.wrapper.isSome = true) :
    (site.planGetter member index slots address).Safe := by
  have getter : (liftM (site.method index) : Emit Method).Safe := .lift (safe_method inside)
  have load : (member.category.load site.config member.valueType slots address).Safe :=
    Category.safe_load fit wrapper
  unfold planGetter
  infer_instance

theorem safe_planSetter (fit : slots.Fit member.category)
    (settable : member.category.suppressesSetter = false)
    (inside : ∀ setter ∈ property.setter, setter.toNat < site.type.methods.length) :
    (site.planSetter member property slots address tokens).Safe := by
  have store : ∀ value, (member.category.store site.config member.valueType slots address
      value).Safe :=
    fun _ => Category.safe_store fit settable
  have code : (site.setterCode member slots address).Safe := by
    unfold setterCode
    infer_instance
  have stored : (liftM (site.isStored tokens) : Emit Bool).Safe := .lift safe_isStored
  have body : (site.planSetterBody member property slots address tokens).Safe := by
    unfold planSetterBody
    cases declared : property.setter with
    | none => infer_instance
    | some index =>
      have setter : (liftM (site.method index.toNat) : Emit Method).Safe :=
        .lift (safe_method (inside index declared))
      infer_instance
  unfold planSetter
  refine @Safe.bind _ _ _ _ body fun body => ?_
  split <;> infer_instance

theorem safe_planRemoval
    (inside : ∀ setter ∈ property.setter, setter.toNat < site.type.methods.length) :
    Weave.Safe (site.planRemoval member property) := by
  unfold planRemoval
  cases declared : property.setter with
  | none => exact .ok _
  | some index =>
    refine .bind (safe_method (inside index declared)) fun setter _ => ?_
    exact .bind (safe_setterCalls setter) fun diagnostics _ => .ok _

theorem safe_planAccessors {getter : Nat} (reads : getter < site.type.methods.length)
    (writes : ∀ setter ∈ property.setter, setter.toNat < site.type.methods.length) :
    (site.planAccessors member property getter).Safe := by
  unfold planAccessors
  refine .bindYields yieldsFit_memberSlots fun slots fit => ?_
  refine .bindYields yieldsPresent_wrapperSlot fun wrapper present => ?_
  have reading : ∀ address, (site.planGetter member getter
      { slots.value with wrapper := wrapper.value } address).Safe :=
    fun _ => safe_planGetter reads ⟨fit.handle, fit.elementSize, fit.width⟩ present
  have removal : (liftM (site.planRemoval member property) : Emit _).Safe :=
    .lift (safe_planRemoval writes)
  cases settable : member.category.suppressesSetter with
  | true =>
    simp only [if_true]
    infer_instance
  | false =>
    have setter : ∀ address tokens, (site.planSetter member property
        { slots.value with wrapper := wrapper.value } address tokens).Safe :=
      fun _ _ => safe_planSetter ⟨fit.handle, fit.elementSize, fit.width⟩ settable writes
    simp only [Bool.false_eq_true, if_false]
    infer_instance

theorem safe_planProperty (exposes : member.ExposesProperty site.type) :
    (site.planProperty member).Safe := by
  rcases exposes with ⟨index, property, getter, origin, here, reads, inside, writes⟩
  have found : ∀ reason, (liftM (Weave.ofOption site.type.properties[index]? reason) :
      Emit Property) = pure property := by
    intro reason
    rw [here]
    rfl
  have known : ∀ reason, (liftM (Weave.ofOption property.getter reason) : Emit UInt32) =
      pure getter := by
    intro reason
    rw [reads]
    rfl
  unfold planProperty
  simp only [origin, found, known, pure_bind]
  exact safe_planAccessors inside writes

instance safe_emitEffect (effect : ConstructionEffect) : (site.emitEffect effect).Safe := by
  unfold emitEffect
  cases effect <;> infer_instance

theorem safe_relocate (method : Method) (access : BackingAccess) (index : Nat)
    (relocation : Relocation) : Weave.Safe (site.relocate method access index relocation) := by
  unfold relocate
  dsimp only
  split
  · exact .ok _
  · split
    · exact .ok _
    · split
      · exact .error rfl
      · exact .ok _

theorem safe_relocateAll (method : Method) (code : Code) (early : List (Nat × UInt32)) :
    Weave.Safe (site.relocateAll backing method code early) := by
  induction early with
  | nil => exact .ok _
  | cons store more ih =>
    unfold relocateAll at ih ⊢
    rw [List.foldrM_cons]
    refine .bind ih fun relocation _ => ?_
    dsimp only
    split
    · exact .ok relocation
    · exact safe_relocate method _ _ relocation

instance safe_planConstruction (method : Method) (index : Nat) (locals : List Signature)
    (code : Code) (baseCall : Nat) :
    (site.planConstruction backing effects method index locals code baseCall).Safe := by
  have moved : ∀ early, (liftM (site.relocateAll backing method code early) :
      Emit Relocation).Safe :=
    fun early => .lift (safe_relocateAll method code early)
  unfold planConstruction
  refine @Safe.bind _ _ _ _ (moved _) fun relocation => ?_
  dsimp only
  split
  · infer_instance
  · split
    · exact .throwBind rfl _
    · refine @Safe.bind _ _ _ _ _ fun emitted => ?_
      split <;> infer_instance

instance safe_planConstructor (index : Nat) (method : Method) :
    (site.planConstructor backing effects index method).Safe := by
  unfold planConstructor
  split
  · infer_instance
  · refine @Safe.bind _ _ _ _ _ fun code => ?_
    dsimp only
    cases site.baseCall? code <;> infer_instance

instance safe_planConstructors : (site.planConstructors backing effects).Safe := by
  unfold planConstructors
  infer_instance

end ClassSite

theorem Backing.safe_methodPlans (backing : Backing) (type : TypeDef) (plan : TypePlan) :
    Weave.Safe (backing.methodPlans type plan) := by
  have each : ∀ method index, Weave.Safe (backing.methodPlan type method index) := by
    intro method index
    unfold methodPlan
    split
    · exact .ok _
    · exact .bind (.ofDecode _) fun code _ => .ok _
  unfold methodPlans
  split
  · exact .ok _
  · exact .bind (.mapM fun item _ => each item.1 item.2) fun results _ => .ok _

/-! ## Functions -/

/-- The value can be handed over: it is no fixed array, and there is a place for its argument. -/
structure MemberBinding.Passes (value : MemberBinding) : Prop where
  whole : value.category.isArray = false
  argument : ∀ index, value.origin = .parameter index → index + 1 < 65536

/-- Code for the value finds the slots that it asks for. -/
structure CallValue.Fits (value : CallValue) : Prop where
  slots : value.slots.Fit value.binding.category
  whole : value.binding.category.isArray = false

namespace FunctionSite

variable {site : FunctionSite} {value : CallValue} {address : NativeAddress}
  {source : ValueSource}

theorem safe_forAll {Value : Type} {values : List Value} {emit : Value → Emit Fragment}
    (each : ∀ value ∈ values, (emit value).Safe) : (forAll values emit).Safe := by
  have := Safe.forallMapM each
  unfold forAll
  infer_instance

theorem safe_read (fits : value.Fits) : (value.read config address).Safe :=
  Category.safe_fromNative fits.slots

theorem safe_write (fits : value.Fits) : (value.write config address source).Safe :=
  Category.safe_toNative fits.slots fits.whole

variable (fits : ∀ value ∈ site.values, value.Fits)
include fits

theorem safe_callerBody : site.callerBody.Safe := by
  have passed : (forAll (site.arguments.filter (·.1.binding.isInput)) fun item =>
      site.passArgument item.1 item.2).Safe := by
    refine safe_forAll fun item listed => ?_
    have inside := mem_values_of_mem_arguments (List.mem_filter.mp listed).1
    have write : ∀ source, (item.1.write site.config (item.1.place buffer) source).Safe :=
      fun _ => safe_write (fits item.1 inside)
    unfold passArgument
    infer_instance
  have returned : (forAll (site.arguments.filter (·.1.binding.isByRef)) fun item =>
      site.returnArgument item.1 item.2).Safe := by
    refine safe_forAll fun item listed => ?_
    have inside := mem_values_of_mem_arguments (List.mem_filter.mp listed).1
    have read : (item.1.read site.config (item.1.place buffer)).Safe :=
      safe_read (fits item.1 inside)
    unfold returnArgument
    infer_instance
  have kept : site.keepResult.Safe := by
    unfold keepResult
    split
    · infer_instance
    · next value found =>
      have read : (value.read site.config (value.place buffer)).Safe :=
        safe_read (fits value (mem_values_of_result? found))
      infer_instance
  have released : (forAll (site.values.filter (·.binding.category.needsCleanup)) fun value =>
      value.binding.category.cleanup site.config value.slots (value.place buffer)).Safe :=
    safe_forAll fun value listed =>
      Category.safe_cleanup (fits value (List.mem_filter.mp listed).1).slots
  have receiver : site.receiver.Safe := by
    unfold receiver
    infer_instance
  have callee : site.callee.Safe := by
    unfold FunctionSite.callee
    infer_instance
  unfold callerBody
  split
  case' isTrue => refine @Safe.bind _ _ _ _ (safe_liveness _) fun live => ?_
  case' isFalse => refine @Safe.bind _ _ _ _ (.pure []) fun live => ?_
  all_goals
    refine @Safe.bind _ _ _ _ passed fun _ => @Safe.bind _ _ _ _ receiver fun _ => ?_
    refine @Safe.bind _ _ _ _ callee fun _ => @Safe.bind _ _ _ _ (safe_call _) fun _ => ?_
    refine @Safe.bind _ _ _ _ returned fun _ => @Safe.bind _ _ _ _ kept fun _ => ?_
    exact @Safe.bind _ _ _ _ released fun _ => .pure _

theorem safe_invokerBody : site.invokerBody.Safe := by
  have unpacked : (forAll (site.unpacked.filter (·.1.binding.isInput)) fun item =>
      site.unpackArgument item.1 item.2).Safe := by
    refine safe_forAll fun item listed => ?_
    have inside := mem_values_of_mem_unpacked (List.mem_filter.mp listed).1
    have read : ∀ address, (item.1.read site.config address).Safe :=
      fun _ => safe_read (fits item.1 inside)
    unfold unpackArgument
    infer_instance
  have returned : (forAll (site.unpacked.filter (·.1.binding.isByRef)) fun item =>
      item.1.write site.config (item.1.place (.argument site.bufferArgument))
        (.localVariable item.2)).Safe :=
    safe_forAll fun item listed =>
      safe_write (fits item.1 (mem_values_of_mem_unpacked (List.mem_filter.mp listed).1))
  have result : site.passResult.Safe := by
    unfold passResult
    split
    · infer_instance
    · next value found =>
      have write : ∀ address source, (value.write site.config address source).Safe :=
        fun _ _ => safe_write (fits value (mem_values_of_result? found))
      infer_instance
  have validated : site.validate.Safe := by
    unfold validate
    infer_instance
  have called : site.callImplementation.Safe := by
    unfold callImplementation
    infer_instance
  unfold invokerBody
  split
  · exact .throwBind rfl _
  · refine @Safe.bind _ _ _ _ unpacked fun _ => @Safe.bind _ _ _ _ validated fun _ => ?_
    refine @Safe.bind _ _ _ _ called fun _ => @Safe.bind _ _ _ _ result fun _ => ?_
    exact @Safe.bind _ _ _ _ returned fun _ => .pure _

end FunctionSite

/-! ## Classes -/

/-- The function is made from a method of the type, and all its values can be handed over. -/
structure FunctionBinding.Fits (function : FunctionBinding) (type : TypeDef) : Prop where
  method : ∃ method, type.methods[function.method]? = some method
  values : ∀ value ∈ function.values, value.Passes

namespace ClassSite

variable {site : ClassSite}

theorem safe_planValue {function : FunctionBinding} {handle : UInt32} {hasThis : Bool}
    {value : MemberBinding} (passes : value.Passes) :
    (site.planValue function handle hasThis value).Safe := by
  have argument : ∀ index, value.origin = .parameter index →
      (liftM (argumentIndex index hasThis) : Emit UInt16).Safe := by
    intro index origin
    have place := passes.argument index origin
    refine .lift ?_
    unfold argumentIndex
    dsimp only
    rw [if_pos (by split <;> omega)]
    exact .ok _
  unfold planValue
  cases origin : value.origin with
  | parameter index =>
    have := argument index origin
    infer_instance
  | _ => infer_instance

theorem yieldsFits_planValue {function : FunctionBinding} {handle : UInt32} {hasThis : Bool}
    {value : MemberBinding} (passes : value.Passes) :
    (site.planValue function handle hasThis value).Yields fun planned => planned.value.Fits := by
  unfold planValue
  refine .bind yieldsFit_memberSlots fun slots fit => .after fun fill => ?_
  dsimp only
  split
  · exact .after fun argument => .pure ⟨fit, passes.whole⟩
  · exact .after fun argument => .pure ⟨fit, passes.whole⟩

theorem safe_planFunction (earlier : TypePlan) {function : FunctionBinding}
    (fits : function.Fits site.type) : (site.planFunction earlier function).Safe := by
  rcases fits.method with ⟨method, here⟩
  have found : ∀ reason, (liftM (Weave.ofOption site.type.methods[function.method]? reason) :
      Emit Method) = pure method := by
    intro reason
    rw [here]
    rfl
  unfold planFunction
  simp only [found, pure_bind]
  refine @Safe.bind _ _ _ _ _ fun handle => @Safe.bind _ _ _ _ _ fun size => ?_
  refine @Safe.bind _ _ _ _ _ fun findHandle => @Safe.bind _ _ _ _ _ fun findSize => ?_
  have planned : (function.values.mapM
      (site.planValue function handle.value (!method.isStatic))).Safe :=
    .forallMapM fun value listed => safe_planValue (fits.values value listed)
  refine .bindYields (.mapM fun value listed => yieldsFits_planValue (fits.values value listed))
    fun values hold => ?_
  have all : ∀ value ∈ values.map (·.value), value.Fits :=
    List.forall_mem_map.mpr fun planned listed => hold planned listed
  exact @Safe.bind _ _ _ _ (FunctionSite.safe_callerBody all) fun callerBody =>
    @Safe.bind _ _ _ _ (FunctionSite.safe_invokerBody all) fun invokerBody => .pure _

end ClassSite

/-- What has to hold of the binding of a class for its plan. -/
structure ClassBinding.Fits (binding : ClassBinding) (type : TypeDef) : Prop where
  members : ∀ member ∈ binding.members, member.ExposesProperty type
  functions : ∀ function ∈ binding.functions, function.Fits type

theorem ClassBinding.safe_plan {source : Module} {type : TypeDef} {binding : ClassBinding}
    (fits : binding.Fits type) : (binding.plan config source type).Safe := by
  have members : ∀ site : ClassSite, site.binding = binding → site.type = type →
      site.planMembers.Safe := by
    rintro site rfl rfl
    have properties : (site.binding.members.mapM site.planProperty).Safe :=
      .forallMapM fun member listed => ClassSite.safe_planProperty (fits.members member listed)
    have others : ∀ backing : Backing, ∀ plan, (liftM (backing.methodPlans site.type plan) :
        Emit (TypePlan × List Diagnostic)).Safe :=
      fun backing plan => .lift (backing.safe_methodPlans site.type plan)
    have functions : ∀ earlier, (site.binding.functions.mapM (site.planFunction earlier)).Safe :=
      fun earlier => .forallMapM fun function listed =>
        ClassSite.safe_planFunction earlier (fits.functions function listed)
    unfold ClassSite.planMembers
    infer_instance
  unfold plan
  refine @Safe.bind _ _ _ _ _ fun classPtr => ?_
  have := members ⟨config, source, type, binding, classPtr.value⟩ rfl rfl
  infer_instance

end NativeWeave
