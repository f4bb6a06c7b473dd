import NativeWeave.Editing.Constructor
import NativeWeave.Editing.Function
import NativeWeave.Proofs.Editing.Accessors
import NativeWeave.Proofs.Format.Body
import NativeWeave.Proofs.Marshalling.Fields
import NativeWeave.Proofs.Marshalling.Mentions

namespace NativeWeave

/-!
# What the generated parts of a class spare

Code that is generated for a class reaches the native instance and the wrappers of properties through
fields of their own, and the slots are static fields.  So none of it uses a field in which a property
keeps its value, and the prelude does nothing but fill slots of the class.
-/

/-- The code that is read from the body uses no such field. -/
def Body.Spares (hidden : UInt32 → Prop) (body : Body) : Prop :=
  ∀ code, body.toCode = .ok code → Fragment.Uses (¬ hidden ·) code.instrs

theorem Body.spares_toBody {hidden : UInt32 → Prop} {code : Code} {locals : List Signature}
    (uses : Fragment.Uses (¬ hidden ·) code.instrs) : (code.toBody locals).Spares hidden := by
  intro read found instr member token own
  have acts := Code.map_act_of_toCode_toBody found
  have listed : instr.act ∈ code.instrs.map Instr.act := acts ▸ List.mem_map_of_mem member
  rcases List.mem_map.mp listed with ⟨written, inside, same⟩
  have field : written.fieldToken? = instr.fieldToken? := by
    rw [← Instruction.fieldToken?_mapTarget (fun _ => ()) written,
      ← Instruction.fieldToken?_mapTarget (fun _ => ()) instr]
    exact congrArg Instruction.fieldToken? same
  exact uses written inside token (field.trans own)

/-- The token refers to a static field of the type. -/
def TypeDef.IsSlot (type : TypeDef) (tables : Tables) (token : UInt32) : Prop :=
  ∃ name kind, tables.member? token = some (.staticField type.signature name kind)

/-- An instruction of code that fills slots of a type: it pushes a name or a handle, asks about the
layout of the native side, or keeps the answer. -/
inductive Instr.Populates (config : Config) (tables : Tables) (type : TypeDef) : Instr → Prop
  | name (text : UInt32) : Populates config tables type (.constString text)
  | handle {token : UInt32} (slot : type.IsSlot tables token) :
      Populates config tables type (.loadStatic token)
  | ask {token : UInt32} {query : LayoutQuery}
      (asks : tables.member? token = some (config.layout query)) :
      Populates config tables type (.call token)
  | keep {token : UInt32} (slot : type.IsSlot tables token) :
      Populates config tables type (.storeStatic token)

/-- The code fills slots of the type and does nothing else. -/
def Fragment.Populates (config : Config) (tables : Tables) (type : TypeDef)
    (fragment : Fragment) : Prop :=
  ∀ instr ∈ fragment, Instr.Populates config tables type instr

variable {config : Config} {tables : Tables} {type : TypeDef}

theorem Instr.Populates.leadsNowhere {instr : Instr}
    (populates : Instr.Populates config tables type instr) : instr.target? = none := by
  cases populates <;> rfl

theorem Instr.Populates.fieldToken?_eq {instr : Instr}
    (populates : Instr.Populates config tables type instr) : instr.fieldToken? = none := by
  cases populates <;> rfl

namespace Fragment

variable {first second : Fragment}

theorem populates_nil : Populates config tables type [] :=
  List.forall_mem_nil _

theorem Populates.append (front : first.Populates config tables type)
    (back : second.Populates config tables type) :
    Populates config tables type (first ++ second) :=
  List.forall_mem_append.mpr ⟨front, back⟩

theorem Populates.join (front : first.Populates config tables type)
    (back : second.Populates config tables type) :
    (first.append second).Populates config tables type := by
  refine Populates.append front (List.forall_mem_map.mpr fun instr member => ?_)
  have populates := back instr member
  rwa [Instr.mapTarget_eq populates.leadsNowhere]

end Fragment

/-! ## Plans -/

/-- The token refers to no field in which an exposed property of the class keeps its value. -/
def ClassSite.Shows (site : ClassSite) (tables : Tables) (token : UInt32) : Prop :=
  ¬ site.binding.Hides tables site.type token

/-- The bodies that the plan has use no hidden field of the class, and its prelude fills slots. -/
structure ClassSite.Spares (site : ClassSite) (tables : Tables) (plan : TypePlan) : Prop where
  bodies : ∀ edit ∈ plan.bodies, edit.2.Spares (site.binding.Hides tables site.type)
  methods : ∀ method ∈ plan.methods, ∀ body ∈ method.body,
    body.Spares (site.binding.Hides tables site.type)
  prelude : plan.prelude.Populates site.config tables site.type

namespace ClassSite

variable {site : ClassSite}

theorem shows_of_visible {token : UInt32} {reference : MemberRef}
    (found : tables.member? token = some reference) (visible : reference.Visible) :
    site.Shows tables token := by
  rintro ⟨member, _, _, _, kind, hidden⟩
  cases found.symm.trans hidden
  exact visible kind rfl member.name rfl

theorem spares_of_nil {plan : TypePlan} (bodies : plan.bodies = []) (methods : plan.methods = [])
    (prelude : plan.prelude = []) : site.Spares tables plan where
  bodies := by
    rw [bodies]
    exact List.forall_mem_nil _
  methods := by
    rw [methods]
    exact List.forall_mem_nil _
  prelude := by
    rw [prelude]
    exact Fragment.populates_nil

theorem spares_empty : site.Spares tables {} :=
  spares_of_nil rfl rfl rfl

theorem spares_prelude {prelude : Fragment}
    (populates : prelude.Populates site.config tables site.type) :
    site.Spares tables { prelude } where
  bodies := List.forall_mem_nil _
  methods := List.forall_mem_nil _
  prelude := populates

theorem spares_replaceBody {body : Body} (spares : body.Spares (site.binding.Hides tables site.type))
    (index : Nat) (name : String) : site.Spares tables (.replaceBody index name body) where
  bodies := List.forall_mem_singleton.mpr spares
  methods := List.forall_mem_nil _
  prelude := Fragment.populates_nil

theorem spares_addMethod {method : Method} {body : Body} (bodied : method.body = some body)
    (spares : body.Spares (site.binding.Hides tables site.type)) :
    site.Spares tables (.addMethod method) where
  bodies := List.forall_mem_nil _
  methods := List.forall_mem_singleton.mpr fun other found => by
    cases bodied.symm.trans found
    exact spares
  prelude := Fragment.populates_nil

theorem Spares.append {first second : TypePlan} (front : site.Spares tables first)
    (back : site.Spares tables second) : site.Spares tables (first ++ second) where
  bodies := List.forall_mem_append.mpr ⟨front.bodies, back.bodies⟩
  methods := List.forall_mem_append.mpr ⟨front.methods, back.methods⟩
  prelude := Fragment.Populates.join front.prelude back.prelude

theorem spares_concat {plans : List TypePlan} (each : ∀ plan ∈ plans, site.Spares tables plan) :
    site.Spares tables (TypePlan.concat plans) := by
  induction plans with
  | nil => exact spares_empty
  | cons plan more ih =>
    rw [List.forall_mem_cons] at each
    exact each.1.append (ih each.2)

end ClassSite

/-- Code made of fragments that use no hidden field of the class. -/
theorem ClassSite.spares_concat_code {site : ClassSite} {fragments : List Fragment}
    (each : ∀ fragment ∈ fragments, fragment.Uses (site.Shows tables)) (locals : List Signature) :
    Body.Spares (site.binding.Hides tables site.type)
      (({ instrs := Fragment.concat fragments } : Code).toBody locals) :=
  Body.spares_toBody (Fragment.uses_concat each)

/-! ## Steps -/

open Emit Fragment

namespace ClassSite

/-- The code that the step gives uses no hidden field of the class. -/
def Emits (site : ClassSite) (step : Emit Fragment) : Prop :=
  step.Leaves fun tables fragment => fragment.Uses (site.Shows tables)

variable {site : ClassSite} {slots : MemberSlots} {address : NativeAddress} {member : MemberBinding}
  {property : Property} {tokens : List UInt32}

theorem emits_of_yields {step : Emit Fragment}
    (yields : ∀ allowed, step.Yields (Fragment.Uses allowed)) : site.Emits step :=
  .ofYields fun _ => yields _

theorem leaves_thisNative (site : ClassSite) : (thisNative site.config).Leaves fun tables base =>
    ∀ token ∈ base.fields, site.Shows tables token := by
  unfold thisNative
  refine .bind (leaves_member _) fun token => .pure fun tables found other uses => ?_
  cases List.mem_singleton.mp uses
  exact shows_of_visible found site.config.visible_nativePtr

end ClassSite

/-! ## Slots -/

/-- The tokens refer to static fields of the type. -/
structure MemberSlots.OfType (slots : MemberSlots) (tables : Tables) (type : TypeDef) : Prop where
  offset : type.IsSlot tables slots.offset
  handle : ∀ token ∈ slots.handle, type.IsSlot tables token
  elementSize : ∀ token ∈ slots.elementSize, type.IsSlot tables token
  width : ∀ token ∈ slots.width, type.IsSlot tables token

theorem MemberSlots.OfType.withWrapper {slots : MemberSlots} {tables : Tables} {type : TypeDef}
    (ofType : slots.OfType tables type) (wrapper : Option UInt32) :
    { slots with wrapper }.OfType tables type :=
  ⟨ofType.offset, ofType.handle, ofType.elementSize, ofType.width⟩

theorem leaves_slot (type : TypeDef) (name : String) (kind : Signature) :
    (staticSlot type.signature name kind).Leaves fun tables slot =>
      type.IsSlot tables slot.value :=
  (ClassSite.leaves_staticSlot _ _ _).mono fun _ _ found => ⟨name, kind, found⟩

theorem leaves_optionalSlot (type : TypeDef) (wanted : Bool) (name : String) (kind : Signature) :
    (optionalSlot wanted type.signature name kind).Leaves fun tables slot =>
      ∀ token ∈ slot.value, type.IsSlot tables token :=
  (ClassSite.leaves_optionalSlot _ _ _ _).mono fun _ _ found token given =>
    ⟨name, kind, (found token given).2⟩

theorem leaves_slotsOfType (type : TypeDef) (base : String) (category : Category) :
    (memberSlots type.signature base category).Leaves fun tables slots =>
      slots.value.OfType tables type := by
  unfold memberSlots
  refine .bind (leaves_slot type _ _) fun offset => .bind (leaves_optionalSlot type _ _ _)
    fun handle => .bind (leaves_optionalSlot type _ _ _) fun elementSize =>
      .bind (leaves_optionalSlot type _ _ _) fun width => .pure ?_
  exact fun tables width elementSize handle offset => ⟨offset, handle, elementSize, width⟩

namespace Prelude

/-- The code fills slots of the type. -/
def Fills (step : Emit Fragment) (config : Config) (type : TypeDef)
    (slots : Tables → Prop) : Prop :=
  step.Leaves fun tables fragment => slots tables → fragment.Populates config tables type

variable (type)

theorem fills_query (query : LayoutQuery) (handle : UInt32) (name : String) (slot : UInt32) :
    Fills (Prelude.query config query handle name slot) config type fun tables =>
      type.IsSlot tables handle ∧ type.IsSlot tables slot := by
  unfold Prelude.query Emit.loadString
  refine .bind (leaves_member _) fun token => ?_
  rw [bind_assoc]
  refine .after fun text => ?_
  rw [pure_bind]
  refine .pure fun tables asks slots => ?_
  exact List.forall_mem_cons.mpr ⟨.handle slots.1, List.forall_mem_cons.mpr ⟨.name text,
    List.forall_mem_cons.mpr ⟨.ask asks, List.forall_mem_singleton.mpr (.keep slots.2)⟩⟩⟩

theorem fills_queryHandle (query : LayoutQuery) (handle slot : UInt32) :
    Fills (Prelude.queryHandle config query handle slot) config type fun tables =>
      type.IsSlot tables handle ∧ type.IsSlot tables slot := by
  unfold Prelude.queryHandle
  refine .bind (leaves_member _) fun token => .pure fun tables asks slots => ?_
  exact List.forall_mem_cons.mpr ⟨.handle slots.1, List.forall_mem_cons.mpr ⟨.ask asks,
    List.forall_mem_singleton.mpr (.keep slots.2)⟩⟩

theorem fills_nativeType (name : String) (slot : UInt32) :
    Fills (Prelude.nativeType config name slot) config type fun tables =>
      type.IsSlot tables slot := by
  unfold Prelude.nativeType Emit.loadString
  refine .bind (leaves_member _) fun token => ?_
  rw [bind_assoc]
  refine .after fun text => ?_
  rw [pure_bind]
  refine .pure fun tables asks slot => ?_
  exact List.forall_mem_cons.mpr ⟨.name text, List.forall_mem_cons.mpr ⟨.ask asks,
    List.forall_mem_singleton.mpr (.keep slot)⟩⟩

theorem fills_booleanWidth (slot : UInt32) :
    Fills (Prelude.booleanWidth config slot) config type fun tables =>
      type.IsSlot tables slot := by
  unfold Prelude.booleanWidth
  refine .bind (leaves_member _) fun token => .pure fun tables asks slot => ?_
  exact List.forall_mem_cons.mpr ⟨.ask asks, List.forall_mem_singleton.mpr (.keep slot)⟩

theorem fills_filled {slot : Option UInt32} {fill : UInt32 → Emit Fragment} {slots : Tables → Prop}
    (each : ∀ token, Fills (fill token) config type fun tables =>
      slots tables ∧ type.IsSlot tables token) :
    Fills (filled slot fill) config type fun tables =>
      slots tables ∧ ∀ token ∈ slot, type.IsSlot tables token := by
  unfold filled
  split
  · next token =>
    exact (each token).mono fun tables fragment populates known =>
      populates ⟨known.1, known.2 token rfl⟩
  · exact .pure fun tables known => populates_nil

theorem fills_member (owner : UInt32) (name : String) (slots : MemberSlots) :
    Fills (Prelude.member config owner name slots) config type fun tables =>
      type.IsSlot tables owner ∧ slots.OfType tables type := by
  have width : ∀ token, Fills (booleanWidth config token) config type fun tables =>
      True ∧ type.IsSlot tables token := fun token =>
    (fills_booleanWidth type token).mono fun tables fragment populates known => populates known.2
  unfold Prelude.member
  refine .bind (fills_query type _ _ _ _) fun offset =>
    .bind (fills_filled type fun _ => fills_query type _ _ _ _) fun handle =>
      .bind (fills_filled type fun _ => fills_query type _ _ _ _) fun elementSize =>
        .bind (fills_filled type width) fun width => .pure ?_
  intro tables width elementSize handle offset known
  have own := known.1
  have kinds := known.2
  exact (((offset ⟨own, kinds.offset⟩).append (handle ⟨own, kinds.handle⟩)).append
    (elementSize ⟨own, kinds.elementSize⟩)).append (width ⟨trivial, kinds.width⟩)

end Prelude

/-! ## Properties -/

namespace ClassSite

theorem spares_staticSlot (site : ClassSite) (tables : Tables) {owner kind : Signature}
    {name : String} : (staticSlot owner name kind).Yields fun slot =>
      site.Spares tables slot.plan := by
  unfold staticSlot
  exact .after fun token => .pure (spares_of_nil rfl rfl rfl)

theorem spares_optionalSlot (site : ClassSite) (tables : Tables) {wanted : Bool}
    {owner kind : Signature} {name : String} :
    (optionalSlot wanted owner name kind).Yields fun slot => site.Spares tables slot.plan := by
  unfold optionalSlot
  split
  · exact .bind (site.spares_staticSlot tables) fun slot spares => .pure spares
  · exact .pure spares_empty

theorem spares_memberSlots (site : ClassSite) (tables : Tables) {owner : Signature}
    {base : String} {category : Category} : (memberSlots owner base category).Yields fun slots =>
      site.Spares tables slots.plan := by
  unfold memberSlots
  refine .bind (site.spares_staticSlot tables) fun offset first => ?_
  refine .bind (site.spares_optionalSlot tables) fun handle second => ?_
  refine .bind (site.spares_optionalSlot tables) fun elementSize third => ?_
  refine .bind (site.spares_optionalSlot tables) fun width fourth => ?_
  exact .pure (((first.append second).append third).append fourth)

variable {site : ClassSite} {slots : MemberSlots} {address : NativeAddress} {member : MemberBinding}
  {property : Property} {tokens : List UInt32}

theorem leaves_wrapperSlot (site : ClassSite) (property : String) (category : Category) :
    (site.wrapperSlot property category).Leaves fun tables slot =>
      site.Spares tables slot.plan ∧ ∀ token ∈ slot.value, site.Shows tables token := by
  unfold wrapperSlot
  split
  · refine .pure fun tables => ⟨spares_empty, fun token impossible => ?_⟩
    cases impossible
  · refine .bind (leaves_member _) fun token => .pure fun tables found => ?_
    refine ⟨spares_of_nil rfl rfl rfl, fun other same => ?_⟩
    cases same
    exact shows_of_visible found (MemberRef.visible_wrapper _ _ _)

theorem spares_planGetter {index : Nat}
    (place : ∀ token ∈ address.base.fields, site.Shows tables token)
    (wrapper : ∀ token ∈ slots.wrapper, site.Shows tables token) :
    (site.planGetter member index slots address).Yields fun reading =>
      site.Spares tables reading.plan := by
  have checks : (liveness site.config).Yields (Fragment.Uses (site.Shows tables)) :=
    yieldsUses_liveness _
  unfold planGetter
  refine .after fun getter => .bind checks fun live first => ?_
  refine .bind (Category.yieldsUses_load place wrapper) fun load second => ?_
  have all : ∀ fragment ∈ [live, load, [.ret]], fragment.Uses (site.Shows tables) :=
    List.forall_mem_cons.mpr ⟨first, List.forall_mem_cons.mpr ⟨second,
      List.forall_mem_singleton.mpr (uses_of_none rfl)⟩⟩
  exact .after fun token => .pure (spares_replaceBody (spares_concat_code all []) _ _)

theorem spares_planSetter (place : ∀ token ∈ address.base.fields, site.Shows tables token) :
    (site.planSetter member property slots address tokens).Yields fun setter =>
      site.Spares tables setter.plan := by
  have made : (site.setterCode member slots address).Yields fun code => Body.Spares
      (site.binding.Hides tables site.type) (({ instrs := code } : Code).toBody []) := by
    have checks : (liveness site.config).Yields (Fragment.Uses (site.Shows tables)) :=
      yieldsUses_liveness _
    unfold setterCode
    refine .bind checks fun live first => ?_
    refine .bind (Category.yieldsUses_store place (List.forall_mem_nil _)) fun store second => ?_
    have all : ∀ fragment ∈ [live, store, [.ret]], fragment.Uses (site.Shows tables) :=
      List.forall_mem_cons.mpr ⟨first, List.forall_mem_cons.mpr ⟨second,
        List.forall_mem_singleton.mpr (uses_of_none rfl)⟩⟩
    exact .pure (spares_concat_code all [])
  have bodied : (site.planSetterBody member property slots address tokens).Yields fun body =>
      site.Spares tables body.plan := by
    unfold planSetterBody
    refine .bind made fun code spares => ?_
    split
    · exact .after fun setter => .pure (spares_replaceBody spares _ _)
    · refine .after fun isStored => ?_
      split
      · exact .pure (spares_addMethod rfl spares)
      · exact .pure spares_empty
  unfold planSetter
  refine .bind bodied fun body spares => ?_
  split
  · exact .pure spares
  · exact .after fun token => .pure spares

theorem spares_of_planRemoval (tables : Tables) {result : TypePlan × List Diagnostic}
    (planned : site.planRemoval member property = .ok result) : site.Spares tables result.1 := by
  unfold planRemoval at planned
  split at planned
  · cases planned
    exact spares_empty
  · rcases bind_eq_ok_iff.mp planned with ⟨setter, _, planned⟩
    rcases bind_eq_ok_iff.mp planned with ⟨diagnostics, _, final⟩
    cases final
    exact spares_of_nil rfl rfl rfl

/-- The plan of a property spares the hidden fields, its own among them. -/
theorem leavesSpares_planAccessors {getter : Nat} :
    (site.planAccessors member property getter).Leaves fun tables planned =>
      site.type.IsSlot tables site.classPtr → site.Spares tables planned.plan := by
  have emptied : ∀ (tables : Tables) (hidden : String), site.Spares tables
      (if (site.type.findField? hidden).isSome then ({ removedFields := [hidden] } : TypePlan)
        else {}) := by
    intro tables hidden
    split
    · exact spares_of_nil rfl rfl rfl
    · exact spares_empty
  unfold planAccessors
  have slotted := (leaves_slotsOfType site.type member.name member.category).and
    (.ofYields fun tables => site.spares_memberSlots tables)
  refine .bind slotted fun slots => .bind (site.leaves_wrapperSlot _ _) fun wrapper => ?_
  refine .bind (Prelude.fills_member site.type _ _ _) fun fill => ?_
  refine .bind site.leaves_thisNative fun base => ?_
  have read : ∀ (all : MemberSlots) (address : NativeAddress), (site.planGetter member getter all
      address).Leaves fun tables reading => (∀ token ∈ address.base.fields, site.Shows tables token) ∧
        (∀ token ∈ all.wrapper, site.Shows tables token) → site.Spares tables reading.plan :=
    fun all address => .given fun tables known => spares_planGetter known.1 known.2
  refine .bind (read _ _) fun reading => ?_
  dsimp only
  split
  · refine .bind (.lift fun planned tables => spares_of_planRemoval tables planned) fun removal => ?_
    rw [pure_bind]
    refine .pure fun tables removed reading base fill wrapper slots classPtr => ?_
    have filled := spares_prelude (fill ⟨classPtr, slots.1.withWrapper _⟩)
    exact (((((slots.2.append wrapper.1).append filled).append (reading ⟨base, wrapper.2⟩)).append
      spares_empty).append removed).append (emptied _ _)
  · have written : ∀ (all : MemberSlots) (address : NativeAddress) (tokens : List UInt32),
        (site.planSetter member property all address tokens).Leaves fun tables setter =>
          (∀ token ∈ address.base.fields, site.Shows tables token) →
            site.Spares tables setter.plan :=
      fun all address tokens => .given fun tables known => spares_planSetter known
    refine .bind (written _ _ _) fun setter => ?_
    rw [pure_bind]
    refine .pure fun tables setter reading base fill wrapper slots classPtr => ?_
    have filled := spares_prelude (fill ⟨classPtr, slots.1.withWrapper _⟩)
    exact (((((slots.2.append wrapper.1).append filled).append (reading ⟨base, wrapper.2⟩)).append
      (setter base)).append spares_empty).append (emptied _ _)

theorem leavesSpares_planProperty (member : MemberBinding) :
    (site.planProperty member).Leaves fun tables planned =>
      site.type.IsSlot tables site.classPtr → site.Spares tables planned.plan := by
  unfold planProperty
  split
  · exact .after fun property => .after fun getter => leavesSpares_planAccessors
  · exact .pure fun tables classPtr => spares_empty

theorem emits_emitEffect (site : ClassSite) (effect : ConstructionEffect) :
    site.Emits (site.emitEffect effect) := by
  unfold emitEffect
  cases effect
  all_goals refine .bind site.leaves_thisNative fun base => ?_
  · exact .given fun tables known => Category.yieldsUses_defaultInit known
  · exact .given fun tables known => yieldsUses_subobject known _ _ _

end ClassSite

/-! ## Functions -/

namespace FunctionSite

variable {site : FunctionSite} {value : CallValue} {allowed : UInt32 → Prop}

theorem yieldsUses_forAll {Value : Type} {values : List Value} {emit : Value → Emit Fragment}
    (each : ∀ value ∈ values, (emit value).Yields (Fragment.Uses allowed)) :
    (forAll values emit).Yields (Fragment.Uses allowed) :=
  .bind (.mapM each) fun _ uses => .pure (uses_concat uses)

/-- Buffers are found through local variables and arguments. -/
theorem yieldsUses_passArgument (argument : UInt16) :
    (site.passArgument value argument).Yields (Fragment.Uses allowed) := by
  unfold passArgument
  split
  · refine .after fun token => ?_
    rw [pure_bind]
    exact Category.yieldsUses_toNative (List.forall_mem_nil _) (List.forall_mem_nil _)
  · rw [pure_bind]
    exact Category.yieldsUses_toNative (List.forall_mem_nil _) (List.forall_mem_nil _)

theorem yieldsUses_callee : site.callee.Yields (Fragment.Uses allowed) := by
  unfold callee
  split
  · exact .after fun resolve => .bind (yieldsUses_loadString _) fun name uses =>
      .pure ((uses.other rfl).append (uses_of_none rfl))
  · exact .pure (uses_of_none rfl)

theorem yieldsUses_returnArgument (argument : UInt16) :
    (site.returnArgument value argument).Yields (Fragment.Uses allowed) := by
  have read : (value.read site.config (value.place buffer)).Yields (Fragment.Uses allowed) :=
    Category.yieldsUses_fromNative (List.forall_mem_nil _)
  unfold returnArgument
  refine .after fun type => .bind read fun code uses => .pure (uses_concat ?_)
  exact List.forall_mem_cons.mpr ⟨uses_of_none rfl, List.forall_mem_cons.mpr ⟨uses,
    List.forall_mem_singleton.mpr (uses_of_none rfl)⟩⟩

theorem yieldsUses_keepResult : site.keepResult.Yields (Fragment.Uses allowed) := by
  unfold keepResult
  split
  · exact .pure uses_nil
  · next value _ =>
    have read : (value.read site.config (value.place buffer)).Yields (Fragment.Uses allowed) :=
      Category.yieldsUses_fromNative (List.forall_mem_nil _)
    refine .bind read fun code uses => .pure (uses_concat ?_)
    exact List.forall_mem_cons.mpr ⟨uses, List.forall_mem_singleton.mpr (uses_of_none rfl)⟩

theorem uses_allocate (site : FunctionSite) : site.allocate.Uses allowed :=
  .other rfl (.other rfl (.other rfl (.other rfl (.other rfl (.other rfl (uses_of_none rfl))))))

/-- Only for the receiver a field is loaded: the one with the native address. -/
theorem emits_receiver (site : FunctionSite) : site.site.Emits site.receiver := by
  unfold receiver
  split
  · exact .bind site.site.leaves_thisNative fun base => .pure fun tables known =>
      ValueSource.uses_push known
  · have found : site.site.Emits (call site.config.getDefaultObject) :=
      ClassSite.emits_of_yields fun _ => yieldsUses_call _
    exact .bind found fun call => .pure fun tables uses => uses.other rfl

theorem leavesSpares_callerBody (site : FunctionSite) : site.callerBody.Leaves fun tables body =>
    body.Spares (site.site.binding.Hides tables site.site.type) := by
  have checks : site.site.Emits (liveness site.config) :=
    ClassSite.emits_of_yields fun _ => yieldsUses_liveness _
  have nothing : site.site.Emits (pure []) := .pure fun tables => uses_nil
  have passes : site.site.Emits (forAll (site.arguments.filter (·.1.binding.isInput))
      fun item => site.passArgument item.1 item.2) :=
    ClassSite.emits_of_yields fun _ => yieldsUses_forAll fun item _ => yieldsUses_passArgument _
  have calls : site.site.Emits site.callee :=
    ClassSite.emits_of_yields fun _ => yieldsUses_callee
  have invokes : site.site.Emits (call site.config.invokeNativeFunction) :=
    ClassSite.emits_of_yields fun _ => yieldsUses_call _
  have returns : site.site.Emits (forAll (site.arguments.filter (·.1.binding.isByRef))
      fun item => site.returnArgument item.1 item.2) :=
    ClassSite.emits_of_yields fun _ => yieldsUses_forAll fun item _ => yieldsUses_returnArgument _
  have keeps : site.site.Emits site.keepResult :=
    ClassSite.emits_of_yields fun _ => yieldsUses_keepResult
  have releases : site.site.Emits (forAll (site.values.filter (·.binding.category.needsCleanup))
      fun value => value.binding.category.cleanup site.config value.slots (value.place buffer)) :=
    ClassSite.emits_of_yields fun _ => yieldsUses_forAll fun value _ =>
      Category.yieldsUses_cleanup (List.forall_mem_nil _)
  have result : ∀ tables, Fragment.Uses (site.site.Shows tables)
      (site.result?.map fun _ => Instr.loadLocal 1).toList := by
    intro tables
    cases site.result? with
    | none => exact uses_nil
    | some _ => exact uses_of_none rfl
  unfold callerBody
  split
  case' isTrue => refine .bind checks fun live => ?_
  case' isFalse => refine .bind nothing fun live => ?_
  all_goals
    refine .bind passes fun passed => .bind site.emits_receiver fun receiver => ?_
    refine .bind calls fun callee => .bind invokes fun invoke => .bind returns fun returned => ?_
    refine .bind keeps fun kept => .bind releases fun released => .pure ?_
    intro tables released kept returned invoke callee receiver passed live
    refine ClassSite.spares_concat_code ?_ _
    simp only [List.forall_mem_cons]
    exact ⟨live, site.uses_allocate, passed, receiver, callee, uses_of_none rfl, invoke, returned,
      kept, released, result tables, uses_of_none rfl, List.forall_mem_nil _⟩

theorem uses_pushArguments (site : FunctionSite) : site.pushArguments.Uses allowed := by
  unfold pushArguments
  refine .append ?_ (List.forall_mem_map.mpr fun item _ => ?_)
  · split
    · exact uses_of_none rfl
    · exact uses_nil
  · have none : (if item.1.binding.isByRef then Instr.loadLocalAddress item.2
        else Instr.loadLocal item.2).fieldToken? = none := by
      split <;> rfl
    rw [none]
    intro token impossible
    cases impossible

theorem yieldsUses_validate : site.validate.Yields (Fragment.Uses allowed) := by
  unfold validate
  split
  · refine .bind (yieldsUses_call _ : (call _).Yields (Fragment.Uses allowed)) fun check first => ?_
    refine .after fun report => .bind (yieldsUses_loadString _ :
      (loadString _).Yields (Fragment.Uses allowed)) fun text second => .pure (uses_concat ?_)
    have failing : Fragment.Uses allowed (Fragment.skip .ifTrue (text ++ [.call report, .ret])) :=
      (second.append (.other rfl (uses_of_none rfl))).skip
    simp only [List.forall_mem_cons]
    exact ⟨site.uses_pushArguments, first, failing, List.forall_mem_nil _⟩
  · exact .pure uses_nil

theorem yieldsUses_callImplementation :
    site.callImplementation.Yields (Fragment.Uses allowed) := by
  unfold callImplementation
  refine .after fun token => .pure (site.uses_pushArguments.append ?_)
  split <;> exact uses_of_none rfl

theorem yieldsUses_passResult : site.passResult.Yields (Fragment.Uses allowed) := by
  unfold passResult
  split
  · exact .pure uses_nil
  · refine .bind (Category.yieldsUses_toNative (List.forall_mem_nil allowed)
      (List.forall_mem_nil allowed)) fun write uses => .pure (uses_concat ?_)
    exact List.forall_mem_cons.mpr ⟨uses_of_none rfl, List.forall_mem_singleton.mpr uses⟩

/-- Native code passes the receiver itself. -/
theorem yieldsSpares_invokerBody {hidden : UInt32 → Prop} :
    site.invokerBody.Yields (Body.Spares hidden) := by
  have unpacks : (forAll (site.unpacked.filter (·.1.binding.isInput)) fun item =>
      site.unpackArgument item.1 item.2).Yields (Fragment.Uses (¬ hidden ·)) := by
    refine yieldsUses_forAll fun item _ => ?_
    refine .bind (Category.yieldsUses_fromNative (List.forall_mem_nil (¬ hidden ·)))
      fun read uses => .pure (uses_concat ?_)
    exact List.forall_mem_cons.mpr ⟨uses, List.forall_mem_singleton.mpr (uses_of_none rfl)⟩
  have validates : site.validate.Yields (Fragment.Uses (¬ hidden ·)) := yieldsUses_validate
  have calls : site.callImplementation.Yields (Fragment.Uses (¬ hidden ·)) :=
    yieldsUses_callImplementation
  have passes : site.passResult.Yields (Fragment.Uses (¬ hidden ·)) := yieldsUses_passResult
  have returns : (forAll (site.unpacked.filter (·.1.binding.isByRef)) fun item =>
      item.1.write site.config (item.1.place (.argument site.bufferArgument))
        (.localVariable item.2)).Yields (Fragment.Uses (¬ hidden ·)) :=
    yieldsUses_forAll fun item _ =>
      Category.yieldsUses_toNative (List.forall_mem_nil _) (List.forall_mem_nil _)
  unfold invokerBody
  split
  · exact .bind .throw fun _ (impossible : False) => impossible.elim
  · refine .bind unpacks fun unpacked first => .bind validates fun validated second => ?_
    refine .bind calls fun called third => .bind passes fun result fourth => ?_
    refine .bind returns fun returned fifth => .pure (Body.spares_toBody (uses_concat ?_))
    simp only [List.forall_mem_cons]
    exact ⟨first, second, third, fourth, fifth, uses_of_none rfl, List.forall_mem_nil _⟩

end FunctionSite

namespace ClassSite

variable {site : ClassSite}

theorem leavesSpares_planValue {function : FunctionBinding} {handle : UInt32} {hasThis : Bool}
    {value : MemberBinding} :
    (site.planValue function handle hasThis value).Leaves fun tables planned =>
      site.type.IsSlot tables handle → site.Spares tables planned.plan := by
  unfold planValue
  have slotted := (leaves_slotsOfType site.type (Naming.parameterSlots function.name value.name)
    value.category).and (.ofYields fun tables => site.spares_memberSlots tables)
  have whole : ∀ (tables : Tables) (slots : Planned MemberSlots) (fill : Fragment),
      (site.type.IsSlot tables handle ∧ slots.value.OfType tables site.type →
        fill.Populates site.config tables site.type) →
        slots.value.OfType tables site.type ∧ site.Spares tables slots.plan →
          site.type.IsSlot tables handle →
            site.Spares tables (slots.plan ++ ({ prelude := fill } : TypePlan)) :=
    fun tables slots fill fills slotted handle =>
      slotted.2.append (spares_prelude (fills ⟨handle, slotted.1⟩))
  cases value.origin
  all_goals
    refine .bind slotted fun slots => .bind (Prelude.fills_member site.type _ _ _) fun fill => ?_
    exact .after fun argument => .pure fun tables => whole tables slots fill

/-- The plan of a function spares the hidden fields. -/
theorem leavesSpares_planFunction (earlier : TypePlan) (function : FunctionBinding) :
    (site.planFunction earlier function).Leaves fun tables plan =>
      site.type.IsSlot tables site.classPtr → site.Spares tables plan := by
  unfold planFunction
  have slotted : ∀ name kind, (staticSlot site.owner name kind).Leaves fun tables slot =>
      site.type.IsSlot tables slot.value ∧ site.Spares tables slot.plan := fun name kind =>
    (leaves_slot site.type name kind).and (.ofYields fun tables => site.spares_staticSlot tables)
  refine .after fun method => .bind (slotted _ _) fun handle => .bind (slotted _ _) fun size => ?_
  refine .bind (Prelude.fills_query site.type _ _ _ _) fun findHandle => ?_
  refine .bind (Prelude.fills_queryHandle site.type _ _ _) fun findSize => ?_
  refine .bind (.mapM fun value _ => leavesSpares_planValue) fun values => ?_
  refine .bind (FunctionSite.leavesSpares_callerBody _) fun callerBody => ?_
  have invokes : ∀ call : FunctionSite, call.invokerBody.Leaves fun tables body =>
      body.Spares (site.binding.Hides tables site.type) :=
    fun call => .ofYields fun tables => FunctionSite.yieldsSpares_invokerBody
  refine .bind (invokes _) fun invokerBody => .pure ?_
  intro tables invoker caller values findSize findHandle size handle classPtr
  have found : site.Spares tables { prelude := _ } :=
    spares_prelude ((findHandle ⟨classPtr, handle.1⟩).append (findSize ⟨handle.1, size.1⟩))
  have slots := ((handle.2.append size.2).append found).append (spares_concat
    (List.forall_mem_map.mpr fun value member => values value member handle.1))
  exact ((slots.append (spares_of_nil rfl rfl rfl)).append (spares_addMethod rfl caller)).append
    (spares_addMethod rfl invoker)

end ClassSite

end NativeWeave
