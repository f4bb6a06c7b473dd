import NativeWeave.Proofs.Editing.Accessors
import NativeWeave.Proofs.Editing.Additions
import NativeWeave.Proofs.Extraction.Answers
import NativeWeave.Proofs.Marshalling.Mentions

namespace NativeWeave

/-!
# What plans refer to

The code that a plan adds refers to members of the edited type itself, of the native root and the
layout service, and of the types that code for the values of the binding relies on.  Before anything
is planned, all of these that are not user code have been found; the others are found because the
categories say so.  So every reference that weaving adds has an owner within reach.
-/

open Emit

/-- The condition allows what all generated code of a type relies on. -/
structure Config.AllowsType (config : Config) (allowed : QualifiedName → Prop) (type : TypeDef) :
    Prop where
  own : allowed type.qualifiedName
  root : allowed config.root
  layout : allowed (config.runtime .nativeLayout)

/-- The condition allows what code for a value relies on, and the category of the value fits. -/
structure Scope.AllowsValue (scope : Scope) (config : Config) (allowed : QualifiedName → Prop)
    (member : MemberBinding) : Prop where
  category : config.Allows allowed member.category
  fits : member.Explained scope

variable {scope : Scope} {config : Config} {allowed : QualifiedName → Prop} {type : TypeDef}

/-! ## Slots -/

theorem mentions_staticSlot (own : allowed type.qualifiedName) (name : String)
    (kind : Signature) :
    (staticSlot type.signature name kind).Mentions (MemberRef.IsOf allowed) := by
  exact .bind (mentions_member ⟨⟨_, rfl, own⟩, .staticField⟩) fun token => .pure

theorem mentions_optionalSlot (own : allowed type.qualifiedName) (wanted : Bool) (name : String)
    (kind : Signature) :
    (optionalSlot wanted type.signature name kind).Mentions (MemberRef.IsOf allowed) := by
  unfold optionalSlot
  split
  · exact .bind (mentions_staticSlot own _ _) fun slot => .pure
  · exact .pure

theorem mentions_memberSlots (own : allowed type.qualifiedName) (base : String)
    (category : Category) :
    (memberSlots type.signature base category).Mentions (MemberRef.IsOf allowed) := by
  refine .bind (mentions_staticSlot own _ _) fun offset => ?_
  refine .bind (mentions_optionalSlot own _ _ _) fun handle => ?_
  refine .bind (mentions_optionalSlot own _ _ _) fun elementSize => ?_
  exact .bind (mentions_optionalSlot own _ _ _) fun width => .pure

namespace Prelude

theorem mentions_filled (slot : Option UInt32) {fill : UInt32 → Emit Fragment}
    (each : ∀ token, (fill token).Mentions (MemberRef.IsOf allowed)) :
    (filled slot fill).Mentions (MemberRef.IsOf allowed) := by
  cases slot with
  | some token => exact each token
  | none => exact .pure

variable (layout : allowed (config.runtime .nativeLayout))
include layout

theorem mentions_query (query : LayoutQuery) (handle : UInt32) (name : String) (slot : UInt32) :
    (Prelude.query config query handle name slot).Mentions (MemberRef.IsOf allowed) := by
  refine .bind (mentions_member ⟨⟨_, rfl, layout⟩, .method⟩) fun token => ?_
  exact .bind (mentions_loadString _) fun text => .pure

theorem mentions_queryHandle (query : LayoutQuery) (handle slot : UInt32) :
    (queryHandle config query handle slot).Mentions (MemberRef.IsOf allowed) := by
  exact .bind (mentions_member ⟨⟨_, rfl, layout⟩, .method⟩) fun token => .pure

theorem mentions_nativeType (name : String) (slot : UInt32) :
    (nativeType config name slot).Mentions (MemberRef.IsOf allowed) := by
  refine .bind (mentions_member ⟨⟨_, rfl, layout⟩, .method⟩) fun token => ?_
  exact .bind (mentions_loadString _) fun text => .pure

theorem mentions_booleanWidth (slot : UInt32) :
    (booleanWidth config slot).Mentions (MemberRef.IsOf allowed) := by
  exact .bind (mentions_member ⟨⟨_, rfl, layout⟩, .method⟩) fun token => .pure

theorem mentions_member (owner : UInt32) (name : String) (slots : MemberSlots) :
    (Prelude.member config owner name slots).Mentions (MemberRef.IsOf allowed) := by
  refine .bind (mentions_query layout _ _ _ _) fun offset => ?_
  refine .bind (mentions_filled _ fun token => mentions_query layout _ _ _ _) fun handle => ?_
  refine .bind (mentions_filled _ fun token => mentions_query layout _ _ _ _) fun elementSize => ?_
  exact .bind (mentions_filled _ fun token => mentions_booleanWidth layout _) fun width => .pure

end Prelude

/-! ## Structs -/

namespace StructBinding

/-- The reference means a visible member of an allowed type, or an own member of a struct. -/
def Refers (allowed : QualifiedName → Prop) (type : TypeDef) (reference : MemberRef) : Prop :=
  reference.IsOf allowed ∨ reference.owner = type.signature

/-- Fields of the struct are read and written whatever they are called. -/
theorem mentions_fieldCode (allows : config.AllowsType allowed type) {member : MemberBinding}
    (value : scope.AllowsValue config allowed member) (classPtr : UInt32) :
    (fieldCode config type classPtr member).Mentions (Refers allowed type) := by
  have inner : ∀ {Result : Type} {step : Emit Result}, step.Mentions (MemberRef.IsOf allowed) →
      step.Mentions (Refers allowed type) := fun mentions => mentions.mono fun _ => .inl
  unfold fieldCode
  refine .bind .lift fun field => .bind (inner (mentions_memberSlots allows.own _ _)) fun slots => ?_
  refine .bind (inner (Prelude.mentions_member allows.layout _ _ _)) fun fill => ?_
  refine .bind (mentions_member (.inr rfl)) fun token => ?_
  refine .bind (inner (Category.mentions_fromNative value.category value.fits)) fun read => ?_
  dsimp only
  split
  · exact .bind .pure fun write => .pure
  · exact .bind (inner (Category.mentions_toNative value.category value.fits)) fun write => .pure

theorem mentions_marshalPlan {binding : StructBinding} (allows : config.AllowsType allowed type)
    (values : ∀ member ∈ binding.members, scope.AllowsValue config allowed member) :
    (binding.marshalPlan config type).Mentions (Refers allowed type) := by
  have inner : ∀ {Result : Type} {step : Emit Result}, step.Mentions (MemberRef.IsOf allowed) →
      step.Mentions (Refers allowed type) := fun mentions => mentions.mono fun _ => .inl
  refine .bind (inner (mentions_staticSlot allows.own _ _)) fun classPtr => ?_
  refine .bind (inner (mentions_staticSlot allows.own _ _)) fun size => ?_
  refine .bind (inner (Prelude.mentions_nativeType allows.layout _ _)) fun findType => ?_
  refine .bind (inner (Prelude.mentions_queryHandle allows.layout _ _ _)) fun findSize => ?_
  exact .bind (.mapM fun member inside =>
    mentions_fieldCode allows (values member inside) classPtr.value) fun fields => .pure

end StructBinding

/-! ## Properties -/

namespace ClassSite

variable {site : ClassSite} {member : MemberBinding} {slots : MemberSlots}
  {address : NativeAddress}

theorem mentions_wrapperSlot (own : allowed site.type.qualifiedName) (property : String)
    (category : Category) :
    (site.wrapperSlot property category).Mentions (MemberRef.IsOf allowed) := by
  unfold wrapperSlot
  split
  · exact .pure
  · exact .bind (mentions_member ⟨⟨_, rfl, own⟩, MemberRef.visible_wrapper _ _ _⟩) fun token => .pure

variable (allows : site.config.AllowsType allowed site.type)
include allows

theorem mentions_planGetter (value : scope.AllowsValue site.config allowed member) (index : Nat) :
    (site.planGetter member index slots address).Mentions (MemberRef.IsOf allowed) := by
  refine .bind .lift fun getter => .bind (mentions_liveness allows.root) fun live => ?_
  refine .bind (Category.mentions_load value.category value.fits) fun load => ?_
  exact .bind (mentions_member ⟨⟨_, rfl, allows.own⟩, .method⟩) fun token => .pure

theorem mentions_planSetter (value : scope.AllowsValue site.config allowed member)
    (property : Property) (tokens : List UInt32) :
    (site.planSetter member property slots address tokens).Mentions (MemberRef.IsOf allowed) := by
  have code : (site.setterCode member slots address).Mentions (MemberRef.IsOf allowed) := by
    refine .bind (mentions_liveness allows.root) fun live => ?_
    exact .bind (Category.mentions_store value.category value.fits) fun store => .pure
  have body : (site.planSetterBody member property slots address tokens).Mentions
      (MemberRef.IsOf allowed) := by
    unfold planSetterBody
    refine .bind code fun code => ?_
    split
    · exact .bind .lift fun setter => .pure
    · refine .bind .lift fun isStored => ?_
      split
      · exact .pure
      · exact .pure
  refine .bind body fun body => ?_
  split
  · exact .pure
  · exact .bind (mentions_member ⟨⟨_, rfl, allows.own⟩, .method⟩) fun token => .pure

theorem mentions_planAccessors (value : scope.AllowsValue site.config allowed member)
    (property : Property) (getter : Nat) :
    (site.planAccessors member property getter).Mentions (MemberRef.IsOf allowed) := by
  unfold planAccessors
  refine .bind (mentions_memberSlots allows.own _ _) fun slots => ?_
  refine .bind (mentions_wrapperSlot allows.own _ _) fun wrapper => ?_
  refine .bind (Prelude.mentions_member allows.layout _ _ _) fun fill => ?_
  refine .bind (mentions_thisNative allows.root) fun base => ?_
  refine .bind (mentions_planGetter allows value getter) fun reading => ?_
  dsimp only
  split
  · exact .bind .lift fun removal => .bind .pure fun setting => .pure
  · exact .bind (mentions_planSetter allows value property _) fun setter =>
      .bind .pure fun setting => .pure

theorem mentions_planProperty (value : scope.AllowsValue site.config allowed member) :
    (site.planProperty member).Mentions (MemberRef.IsOf allowed) := by
  unfold planProperty
  split
  · refine .bind .lift fun property => .bind .lift fun getter => ?_
    exact mentions_planAccessors allows value property _
  · exact .pure

end ClassSite

/-! ## Constructors -/

/-- The condition allows what the code of an effect relies on. -/
def ConstructionEffect.Allowed (scope : Scope) (config : Config)
    (allowed : QualifiedName → Prop) : ConstructionEffect → Prop
  | .defaultInit category _ _ => config.Allows allowed category
  | .subobject target _ _ => config.Allows allowed (.subobject target) ∧
      ∃ type, scope.Explains type (.subobject target)

namespace ClassSite

variable {site : ClassSite} {member : MemberBinding}

theorem allowed_of_mem_effectsOf {offset : UInt32} {tokens : List UInt32}
    (value : scope.AllowsValue config allowed member) :
    ∀ effect ∈ effectsOf member offset tokens, effect.Allowed scope config allowed := by
  have allows := value.category
  have fits : scope.Explains member.valueType member.category := value.fits
  intro effect listed
  unfold effectsOf at listed
  cases named : member.category with
  | text =>
    rw [named] at listed allows
    cases List.mem_singleton.mp listed
    exact allows
  | subobject target =>
    rw [named] at listed allows fits
    cases List.mem_singleton.mp listed
    exact ⟨allows, _, fits⟩
  | _ =>
    rw [named] at listed
    cases listed

/-- The effects that a property asks for are those of its category. -/
theorem yieldsAllowed_planProperty (value : scope.AllowsValue config allowed member) :
    (site.planProperty member).Yields fun planned =>
      ∀ effect ∈ planned.effects, effect.Allowed scope config allowed := by
  unfold planProperty
  split
  · refine .after fun property => .after fun getter => ?_
    unfold planAccessors
    refine .after fun slots => .after fun wrapper => .after fun fill => .after fun base => ?_
    refine .after fun reading => ?_
    dsimp only
    split
    · exact .after fun removal => .after fun setting => .pure (allowed_of_mem_effectsOf value)
    · exact .after fun setter => .after fun setting => .pure (allowed_of_mem_effectsOf value)
  · exact .pure (List.forall_mem_nil _)

theorem mentions_emitEffect (root : allowed site.config.root) {effect : ConstructionEffect}
    (allows : effect.Allowed scope site.config allowed) :
    (site.emitEffect effect).Mentions (MemberRef.IsOf allowed) := by
  refine .bind (mentions_thisNative root) fun base => ?_
  cases effect with
  | defaultInit category offset tokens => exact Category.mentions_defaultInit allows
  | subobject target nativeName offset =>
    rcases allows with ⟨category, type, fits⟩
    exact mentions_subobject category fits _ _

theorem mentions_planConstruction (root : allowed site.config.root) {backing : Backing}
    {effects : List ConstructionEffect} {method : Method} {index : Nat} {locals : List Signature}
    {code : Code} {baseCall : Nat}
    (allows : ∀ effect ∈ effects, effect.Allowed scope site.config allowed) :
    (site.planConstruction backing effects method index locals code baseCall).Mentions
      (MemberRef.IsOf allowed) := by
  unfold planConstruction
  refine .bind .lift fun relocation => ?_
  dsimp only
  split
  · exact .pure
  · split
    · exact .throw_bind
    · refine .bind (.mapM fun effect listed => mentions_emitEffect root (allows effect listed))
        fun emitted => ?_
      split
      · exact .throw
      · exact .pure

theorem mentions_planConstructors (root : allowed site.config.root) {backing : Backing}
    {effects : List ConstructionEffect}
    (allows : ∀ effect ∈ effects, effect.Allowed scope site.config allowed) :
    (site.planConstructors backing effects).Mentions (MemberRef.IsOf allowed) := by
  refine .bind (.mapM ?_) fun planned => .pure
  rintro ⟨index, method⟩ _
  unfold planConstructor
  dsimp only
  split
  · exact .pure
  · refine .bind .lift fun code => ?_
    have wanted : ∀ stores isConstruction, ∀ effect ∈ wantedEffects effects stores isConstruction,
        effect.Allowed scope site.config allowed := by
      intro stores isConstruction effect listed
      unfold wantedEffects at listed
      split at listed
      · exact allows effect (List.mem_filter.mp listed).1
      · cases listed
    split
    · exact .pure
    · split
      · exact .pure
      · exact mentions_planConstruction root (wanted _ _)

end ClassSite

/-! ## Functions -/

namespace FunctionSite

variable {site : FunctionSite} {value : CallValue}

theorem mentions_forAll {condition : MemberRef → Prop} {Value : Type} {values : List Value}
    {emit : Value → Emit Fragment} (each : ∀ value ∈ values, (emit value).Mentions condition) :
    (forAll values emit).Mentions condition :=
  .bind (.mapM each) fun _ => .pure

/-- What code reads or writes for the values of a function is allowed. -/
structure Allows (site : FunctionSite) (scope : Scope) (allowed : QualifiedName → Prop) : Prop where
  type : site.config.AllowsType allowed site.site.type
  values : ∀ value ∈ site.values, scope.AllowsValue site.config allowed value.binding

variable (allows : site.Allows scope allowed)
include allows

theorem mentions_read (listed : value ∈ site.values) (address : NativeAddress) :
    (value.read site.config address).Mentions (MemberRef.IsOf allowed) :=
  Category.mentions_fromNative (allows.values value listed).category (allows.values value listed).fits

theorem mentions_write (listed : value ∈ site.values) (address : NativeAddress)
    (source : ValueSource) :
    (value.write site.config address source).Mentions (MemberRef.IsOf allowed) :=
  Category.mentions_toNative (allows.values value listed).category (allows.values value listed).fits

omit allows in
theorem mem_values_of_mem_arguments {argument : UInt16}
    (listed : (value, argument) ∈ site.arguments) : value ∈ site.values := by
  rcases List.mem_filterMap.mp listed with ⟨other, inside, same⟩
  rcases Option.map_eq_some_iff.mp same with ⟨_, _, pair⟩
  cases pair
  exact inside

omit allows in
theorem mem_values_of_mem_unpacked {place : UInt16} (listed : (value, place) ∈ site.unpacked) :
    value ∈ site.values := by
  rcases List.mem_map.mp listed with ⟨⟨⟨other, argument⟩, index⟩, inside, pair⟩
  cases pair
  exact mem_values_of_mem_arguments (List.fst_mem_of_mem_zipIdx inside)

omit allows in
theorem mem_values_of_result? (found : site.result? = some value) : value ∈ site.values :=
  List.mem_of_find?_eq_some found

theorem mentions_callerBody : site.callerBody.Mentions (MemberRef.IsOf allowed) := by
  have passed : ∀ item ∈ site.arguments.filter (·.1.binding.isInput),
      (site.passArgument item.1 item.2).Mentions (MemberRef.IsOf allowed) := by
    intro ⟨value, argument⟩ listed
    have inside := mem_values_of_mem_arguments (List.mem_filter.mp listed).1
    unfold passArgument
    dsimp only
    split
    · exact .bind (mentions_type _) fun token => .bind .pure fun source =>
        mentions_write allows inside _ _
    · exact .bind .pure fun source => mentions_write allows inside _ _
  have receiver : site.receiver.Mentions (MemberRef.IsOf allowed) := by
    unfold receiver
    split
    · exact .bind (mentions_thisNative allows.type.root) fun base => .pure
    · exact .bind (mentions_call ⟨⟨_, rfl, allows.type.root⟩, .method⟩) fun call => .pure
  have callee : site.callee.Mentions (MemberRef.IsOf allowed) := by
    unfold callee
    split
    · exact .bind (mentions_member ⟨⟨_, rfl, allows.type.root⟩, .method⟩) fun resolve =>
        .bind (mentions_loadString _) fun name => .pure
    · exact .pure
  have returned : ∀ item ∈ site.arguments.filter (·.1.binding.isByRef),
      (site.returnArgument item.1 item.2).Mentions (MemberRef.IsOf allowed) := by
    intro ⟨value, argument⟩ listed
    have inside := mem_values_of_mem_arguments (List.mem_filter.mp listed).1
    exact .bind (mentions_type _) fun token => .bind (mentions_read allows inside _) fun read => .pure
  have kept : site.keepResult.Mentions (MemberRef.IsOf allowed) := by
    unfold keepResult
    split
    · exact .pure
    · next value found =>
      exact .bind (mentions_read allows (mem_values_of_result? found) _) fun read => .pure
  have released : ∀ value ∈ site.values.filter (·.binding.category.needsCleanup),
      (value.binding.category.cleanup site.config value.slots (value.place buffer)).Mentions
        (MemberRef.IsOf allowed) := fun value listed =>
    Category.mentions_cleanup (allows.values value (List.mem_filter.mp listed).1).category
  unfold callerBody
  split
  case' isTrue => refine .bind (mentions_liveness allows.type.root) fun live => ?_
  case' isFalse => refine .bind .pure fun live => ?_
  all_goals
    refine .bind (mentions_forAll passed) fun passed => .bind receiver fun receiver => ?_
    have invocation : (call site.config.invokeNativeFunction).Mentions (MemberRef.IsOf allowed) :=
      mentions_call ⟨⟨_, rfl, allows.type.root⟩, .method⟩
    refine .bind callee fun callee => .bind invocation fun invoke => ?_
    refine .bind (mentions_forAll returned) fun returned => .bind kept fun kept => ?_
    exact .bind (mentions_forAll released) fun released => .pure

theorem mentions_invokerBody : site.invokerBody.Mentions (MemberRef.IsOf allowed) := by
  have unpacked : ∀ item ∈ site.unpacked.filter (·.1.binding.isInput),
      (site.unpackArgument item.1 item.2).Mentions (MemberRef.IsOf allowed) := by
    intro ⟨value, index⟩ listed
    have inside := mem_values_of_mem_unpacked (List.mem_filter.mp listed).1
    exact .bind (mentions_read allows inside _) fun read => .pure
  have validated : site.validate.Mentions (MemberRef.IsOf allowed) := by
    unfold validate
    split
    · refine .bind (mentions_call ⟨⟨_, rfl, allows.type.own⟩, .method⟩) fun check => ?_
      refine .bind (mentions_member ⟨⟨_, rfl, allows.type.root⟩, .method⟩) fun report => ?_
      exact .bind (mentions_loadString _) fun text => .pure
    · exact .pure
  have called : site.callImplementation.Mentions (MemberRef.IsOf allowed) := by
    exact .bind (mentions_member ⟨⟨_, rfl, allows.type.own⟩, .method⟩) fun token => .pure
  have result : site.passResult.Mentions (MemberRef.IsOf allowed) := by
    unfold passResult
    split
    · exact .pure
    · next value found =>
      exact .bind (mentions_write allows (mem_values_of_result? found) _ _) fun write => .pure
  have returned : ∀ item ∈ site.unpacked.filter (·.1.binding.isByRef),
      (item.1.write site.config (item.1.place (.argument site.bufferArgument))
        (.localVariable item.2)).Mentions (MemberRef.IsOf allowed) := by
    intro ⟨value, index⟩ listed
    exact mentions_write allows (mem_values_of_mem_unpacked (List.mem_filter.mp listed).1) _ _
  unfold invokerBody
  split
  · exact .throw_bind
  · refine .bind (mentions_forAll unpacked) fun unpacked => .bind validated fun validated => ?_
    refine .bind called fun called => .bind result fun result => ?_
    exact .bind (mentions_forAll returned) fun returned => .pure

end FunctionSite

/-! ## Classes -/

namespace ClassSite

variable {site : ClassSite}

theorem yieldsBinding_planValue {function : FunctionBinding} {handle : UInt32} {hasThis : Bool}
    {value : MemberBinding} :
    (site.planValue function handle hasThis value).Yields fun planned =>
      planned.value.binding = value := by
  unfold planValue
  refine .after fun slots => .after fun fill => ?_
  dsimp only
  split
  · exact .after fun argument => .pure rfl
  · exact .after fun argument => .pure rfl

variable (allows : site.config.AllowsType allowed site.type)
include allows

theorem mentions_planValue (function : FunctionBinding) (handle : UInt32) (hasThis : Bool)
    (value : MemberBinding) :
    (site.planValue function handle hasThis value).Mentions (MemberRef.IsOf allowed) := by
  unfold planValue
  refine .bind (mentions_memberSlots allows.own _ _) fun slots => ?_
  refine .bind (Prelude.mentions_member allows.layout _ _ _) fun fill => ?_
  dsimp only
  split
  · exact .bind (.map .lift) fun argument => .pure
  · exact .bind .pure fun argument => .pure

theorem mentions_planFunction {earlier : TypePlan} {function : FunctionBinding}
    (values : ∀ value ∈ function.values, scope.AllowsValue site.config allowed value) :
    (site.planFunction earlier function).Mentions (MemberRef.IsOf allowed) := by
  unfold planFunction
  refine .bind .lift fun method => .bind (mentions_staticSlot allows.own _ _) fun handle => ?_
  refine .bind (mentions_staticSlot allows.own _ _) fun size => ?_
  refine .bind (Prelude.mentions_query allows.layout _ _ _ _) fun findHandle => ?_
  refine .bind (Prelude.mentions_queryHandle allows.layout _ _ _) fun findSize => ?_
  refine .bindYields (.mapM fun value _ => mentions_planValue allows function _ _ value)
    (Yields.forall₂ fun value _ => yieldsBinding_planValue) fun planned bound => ?_
  have all : ∀ value ∈ planned.map (·.value),
      scope.AllowsValue site.config allowed value.binding := by
    refine List.forall_mem_map.mpr fun part listed => ?_
    rcases (exists_of_mem_forall₂ bound).2 part listed with ⟨value, member, same⟩
    exact same ▸ values value member
  dsimp only
  exact .bind (FunctionSite.mentions_callerBody ⟨allows, all⟩) fun callerBody =>
    .bind (FunctionSite.mentions_invokerBody ⟨allows, all⟩) fun invokerBody => .pure

theorem mentions_planMembers
    (values : ∀ value ∈ (TypeBinding.ofClass site.binding).values,
      scope.AllowsValue site.config allowed value) :
    site.planMembers.Mentions (MemberRef.IsOf allowed) := by
  have members := fun member listed => values member (List.mem_append_left _ listed)
  unfold planMembers
  refine .bind (Prelude.mentions_nativeType allows.layout _ _) fun findType => ?_
  refine .bindYields (.mapM fun member listed => mentions_planProperty allows (members member listed))
    (.mapM fun member listed => yieldsAllowed_planProperty (members member listed))
    fun properties effects => ?_
  have asked : ∀ effect ∈ properties.flatMap (·.effects),
      effect.Allowed scope site.config allowed := by
    intro effect listed
    rcases List.mem_flatMap.mp listed with ⟨planned, inside, wanted⟩
    exact effects planned inside effect wanted
  dsimp only
  refine .bind (mentions_planConstructors allows.root asked) fun constructed => ?_
  have functions : ∀ function ∈ site.binding.functions, ∀ value ∈ function.values,
      scope.AllowsValue site.config allowed value := fun function listed value member =>
    values value (List.mem_append_right _ (List.mem_flatMap.mpr ⟨function, listed, member⟩))
  refine .bind .lift fun redirected => .bind (.mapM fun function listed => ?_) fun planned => .pure
  exact mentions_planFunction allows (functions function listed)

end ClassSite

theorem ClassBinding.mentions_plan {source : Module} {binding : ClassBinding}
    (allows : config.AllowsType allowed type)
    (values : ∀ value ∈ (TypeBinding.ofClass binding).values,
      scope.AllowsValue config allowed value) :
    (binding.plan config source type).Mentions (MemberRef.IsOf allowed) := by
  refine .bind (mentions_staticSlot allows.own _ _) fun classPtr => ?_
  exact .bind (ClassSite.mentions_planMembers allows values) fun members => .pure

end NativeWeave
