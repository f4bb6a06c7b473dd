import NativeWeave.Proofs.Editing.Bodies
import NativeWeave.Proofs.Machine.Moving

namespace NativeWeave

/-!
# Running accessors

The accessors of an exposed property work on the native memory of the receiver, at the offset that a
static field holds.  A getter gives the value that lies there.  A setter puts a value there and writes
no other byte.
-/

/-! ## Objects with native memory -/

namespace MachineState

/-- An argument of the new frame is the one that is handed over. -/
theorem enter_argument (state : MachineState) (arguments locals : List Value) (index : Nat) :
    (state.enter arguments locals).cells (.argument state.frames index) =
      arguments.getD index .null :=
  if_pos rfl

/-- The static fields for a member say how far from the start its values lie, and how many bytes a
truth value takes. -/
structure Lays (state : MachineState) (owner : Signature) (base : String) (category : Category)
    (distance width : Address) : Prop where
  offset : state.statics (.staticField owner (Naming.offsetSlot base) .i32) = .integer distance
  width : category.needsWidth = true →
    state.statics (.staticField owner (Naming.widthSlot base) .i32) = .integer width

end MachineState

namespace Machine

/-- The object is alive, and its native memory begins at an address. -/
structure Backs (machine : Machine) (config : Config) (state : MachineState) (object : Nat)
    (base : Address) : Prop where
  lives : ∀ later, machine.answer config.checkLiveness [.object object] later = .returns none later
  native : state.cells (.field object config.nativePtr) = .integer base

variable {machine : Machine} {config : Config} {frame object : Nat} {state : MachineState}
  {owner : Signature} {base : String} {category : Category} {slots : MemberSlots}
  {start distance width : Address}

theorem holdsStatic_width (names : slots.Names machine.tables owner base category)
    (lays : state.Lays owner base category distance width) :
    ∀ token ∈ slots.width, machine.HoldsStatic state token (.integer width) := by
  intro token found
  rcases names.width token found with ⟨needed, means⟩
  exact ⟨_, means, lays.width needed⟩

/-- A place in native memory is the given one if it begins where its base says. -/
theorem locates_of_lays (names : slots.Names machine.tables owner base category)
    (lays : state.Lays owner base category distance width) {source : ValueSource}
    (finds : machine.Finds frame state source (.integer start)) :
    machine.Locates frame state ⟨source, some slots.offset⟩ (start + distance) :=
  ⟨start, distance, finds, ⟨_, names.offset, lays.offset⟩, rfl⟩

/-- The receiver knows where its native memory begins. -/
theorem finds_native {token : UInt32} (means : machine.tables.member? token = some config.nativePtr)
    (backs : machine.Backs config state object start)
    (receiver : state.cells (.argument frame 0) = .object object) :
    machine.Finds frame state (.thisField token) (.integer start) :=
  ⟨object, _, receiver, means, backs.native⟩

/-- Joined fragments that the machine passes through make a body that it runs. -/
theorem runs_of_passes_concat (fragments : List Fragment) (locals : List Signature)
    {passed final : List Value} {ended : MachineState}
    (passes : machine.Passes state.frames fragments.flatten []
      (state.enter passed (locals.map machine.initial)) final ended) :
    machine.Runs (({ instrs := Fragment.concat (fragments ++ [[.ret]]) } : Code).toBody locals) passed
      state final.head? ended := by
  have still : ∀ instr ∈ (fragments ++ [[Instr.ret]]).flatten, instr.target? = none := by
    rw [List.flatten_append, List.forall_mem_append]
    exact ⟨fun instr member => (passes.straight instr member).leadsNowhere,
      List.forall_mem_singleton.mpr rfl⟩
  rw [Fragment.concat_eq_flatten still, List.flatten_append]
  exact runs_of_passes passes

end Machine

open Machine Emit TypePlan

theorem Emit.leaves_thisNative (config : Config) : (thisNative config).Leaves fun tables source =>
    ∃ token, source = .thisField token ∧ tables.member? token = some config.nativePtr := by
  unfold thisNative
  exact .bind (leaves_member _) fun token => .pure fun tables means => ⟨token, rfl, means⟩

/-- Code that finds its receiver alive changes nothing. -/
theorem Emit.leaves_liveness (config : Config) : (liveness config).Leaves fun tables fragment =>
    ∀ machine : Machine, machine.tables = tables → ∀ frame state object,
      state.cells (.argument frame 0) = .object object →
        (∀ later, machine.answer config.checkLiveness [.object object] later = .returns none later) →
          ∀ stack, machine.Passes frame fragment stack state stack state := by
  unfold liveness
  refine .bind (leaves_callOf config.checkLiveness) fun call => .pure fun tables called => ?_
  rintro machine rfl frame state object receiver lives stack
  rcases called with ⟨token, rfl, means⟩
  have first : machine.Passes frame [.loadArg 0] stack state (.object object :: stack) state :=
    passes_loadArg receiver
  have second : machine.Passes frame [.call token] (.object object :: stack) state stack state :=
    passes_call [.object object] means rfl rfl (calls_of_returns (lives state))
  exact first.append second

/-! ## Bodies -/

/-- How the values of a member lie in native memory. -/
def MemberBinding.form (member : MemberBinding) (machine : Machine) (width : Address) : Form :=
  member.category.form (machine.shape member.valueType) width

namespace Body

/-- Run for a live object, the body gives the value of a member and changes no byte. -/
def Gets (body : Body) (tables : Tables) (config : Config) (owner : Signature)
    (member : MemberBinding) : Prop :=
  ∀ machine : Machine, machine.tables = tables → ∀ state object base distance width value,
    machine.Backs config state object base →
      state.Lays owner member.name member.category distance width →
        machine.Keeps config (member.form machine width) (base + distance) value state.memory →
          ∃ later : MachineState, machine.Runs body [.object object] state (some value) later ∧
            later.memory = state.memory

/-- Run for a live object and a value, the body puts the value where that of a member lies, and writes
no other byte. -/
def Sets (body : Body) (tables : Tables) (config : Config) (owner : Signature)
    (member : MemberBinding) : Prop :=
  ∀ machine : Machine, machine.tables = tables → ∀ state object base distance width value,
    machine.Backs config state object base →
      state.Lays owner member.name member.category distance width →
        (member.category.needsWidth = true → machine.MarshalsTruths config width) →
          (member.form machine width).Holds value →
            ∃ later : MachineState, machine.Runs body [.object object, value] state none later ∧
              later.memory.AgreesOn state.memory (fun place =>
                ¬ (base + distance).Covers (member.form machine width).size place) ∧
              machine.Keeps config (member.form machine width) (base + distance) value
                later.memory ∧
              later.statics = state.statics ∧ ∀ object member,
                later.cells (.field object member) = state.cells (.field object member)

end Body

namespace Category

variable {config : Config} {category : Category} {type : Signature} {slots : MemberSlots}
  {address : NativeAddress} {value : ValueSource}

/-- Properties with plain values are read without a wrapper. -/
theorem load_of_isPlain (plain : category.isPlain = true) :
    category.load config type slots address = category.fromNative config type slots address := by
  unfold load
  rw [if_neg]
  cases category <;> first | exact Bool.false_ne_true | cases plain

theorem suppressesSetter_of_isPlain (plain : category.isPlain = true) :
    category.suppressesSetter = false := by
  cases category <;> first | rfl | cases plain

theorem store_of_isPlain (plain : category.isPlain = true) :
    category.store config type slots address value =
      category.toNative config type slots address value := by
  unfold store
  rw [suppressesSetter_of_isPlain plain, if_neg Bool.false_ne_true]

end Category

namespace ClassSite

variable {site : ClassSite} {member : MemberBinding} {property : Property} {source : ValueSource}
  {tokens : List UInt32} {index : Nat}

/-- The getter of a plain property gets a body that gives its value. -/
theorem leaves_planGetter_body (slots : MemberSlots) (plain : member.category.isPlain = true) :
    (site.planGetter member index slots ⟨source, some slots.offset⟩).Leaves fun tables reading =>
      ∃ name body, reading.plan = .replaceBody index name body ∧
        (slots.Names tables site.owner member.name member.category → tables.Addressable →
          (∃ token, source = .thisField token ∧
            tables.member? token = some site.config.nativePtr) →
              body.Gets tables site.config site.owner member) := by
  unfold planGetter
  rw [Category.load_of_isPlain plain]
  refine .bind (leaves_method index) fun getter => ?_
  refine .bind (Emit.leaves_liveness site.config) fun live => ?_
  refine .bind (leaves_reading plain) fun load => .after fun token => ?_
  refine .pure fun tables reads lives _ => ⟨getter.name, _, rfl, fun names addressable native => ?_⟩
  rintro machine rfl state object base distance width value backs lays keeps
  rcases native with ⟨token, rfl, means⟩
  let entered := state.enter [.object object] []
  have receiver : entered.cells (.argument state.frames 0) = .object object :=
    state.enter_argument _ _ 0
  have backed : machine.Backs site.config entered object base := ⟨backs.lives, backs.native⟩
  have laid : entered.Lays site.owner member.name member.category distance width :=
    ⟨lays.offset, lays.width⟩
  have checked := lives machine rfl state.frames entered object receiver backs.lives []
  have read := reads addressable machine rfl state.frames entered (base + distance) width
    (locates_of_lays names laid (finds_native means backed receiver))
    (holdsStatic_width names laid) value (keeps entered fun _ _ => rfl) []
  have passes := checked.append read
  rw [← List.append_nil load] at passes
  exact ⟨entered, runs_of_passes_concat [live, load] [] passes, rfl⟩

/-- The setter of a plain property gets a body that sets its value. -/
theorem leaves_planSetterBody_body (slots : MemberSlots) (plain : member.category.isPlain = true) {setter : UInt32}
    (declared : property.setter = some setter) :
    (site.planSetterBody member property slots ⟨source, some slots.offset⟩ tokens).Leaves
      fun tables writing => ∃ name body, writing.plan = .replaceBody setter.toNat name body ∧
        (slots.Names tables site.owner member.name member.category → tables.Addressable →
          (∃ token, source = .thisField token ∧
            tables.member? token = some site.config.nativePtr) →
              body.Sets tables site.config site.owner member) := by
  unfold planSetterBody setterCode
  rw [Category.store_of_isPlain plain, declared]
  simp only [bind_assoc, pure_bind]
  refine .bind (Emit.leaves_liveness site.config) fun live => ?_
  refine .bind (leaves_writing plain) fun store => .bind (leaves_method _) fun method => ?_
  refine .pure fun tables _ writes lives => ⟨method.name, _, rfl, fun names addressable native => ?_⟩
  rintro machine rfl state object base distance width value backs lays marshals holds
  rcases native with ⟨token, rfl, means⟩
  let entered := state.enter [.object object, value] []
  have receiver : entered.cells (.argument state.frames 0) = .object object :=
    state.enter_argument _ _ 0
  have backed : machine.Backs site.config entered object base := ⟨backs.lives, backs.native⟩
  have laid : entered.Lays site.owner member.name member.category distance width :=
    ⟨lays.offset, lays.width⟩
  have checked := lives machine rfl state.frames entered object receiver backs.lives []
  rcases writes addressable machine rfl state.frames entered (base + distance) width value
      (locates_of_lays names laid (finds_native means backed receiver))
      (holdsStatic_width names laid) marshals (state.enter_argument _ _ 1) holds with
    ⟨memory, agrees, keeps, written⟩
  have passes := checked.append (written [])
  rw [← List.append_nil store] at passes
  exact ⟨{ entered with memory }, runs_of_passes_concat [live, store] []
    passes, agrees, keeps, rfl, fun _ _ => rfl⟩

theorem leaves_planSetter_body (slots : MemberSlots) (plain : member.category.isPlain = true) {setter : UInt32}
    (declared : property.setter = some setter) :
    (site.planSetter member property slots ⟨source, some slots.offset⟩ tokens).Leaves
      fun tables writing => ∃ name body, writing.plan = .replaceBody setter.toNat name body ∧
        (slots.Names tables site.owner member.name member.category → tables.Addressable →
          (∃ token, source = .thisField token ∧
            tables.member? token = some site.config.nativePtr) →
              body.Sets tables site.config site.owner member) := by
  intro before after writing run tables grows indexed
  rcases exists_of_bind run with ⟨body, middle, begun, ended⟩
  have made : writing.plan = body.plan ∧ middle.Grows after := by
    cases given : body.value with
    | none =>
      rw [given] at ended
      cases ended
      exact ⟨rfl, .refl _⟩
    | some name =>
      rw [given] at ended
      rcases exists_of_bind ended with ⟨token, last, interned, final⟩
      cases final
      exact ⟨rfl, Grows.grows interned⟩
  rw [made.1]
  exact leaves_planSetterBody_body slots plain declared _ _ _ begun tables (made.2.trans grows) indexed

/-- The accessors of a plain property that can be set get bodies that get and set its value. -/
theorem leaves_planAccessors_bodies (plain : member.category.isPlain = true) {setter : UInt32}
    (declared : property.setter = some setter) (apart : index ≠ setter.toNat) :
    (site.planAccessors member property index).Leaves fun tables planned => tables.Addressable →
      ∃ reading writing, planned.plan.Gives index (some reading) ∧
        planned.plan.Gives setter.toNat (some writing) ∧
        reading.Gets tables site.config site.owner member ∧
        writing.Sets tables site.config site.owner member := by
  unfold planAccessors
  have slotted := (leaves_memberSlots site.owner member.name member.category).and
    (.ofYields fun _ before after slots run index =>
      yieldsGives_memberSlots index before after slots run)
  have wrapped : (site.wrapperSlot member.name member.category).Leaves fun _ wrapper =>
      ∀ index, wrapper.plan.Gives index none :=
    .ofYields fun _ before after wrapper run index =>
      yieldsGives_wrapperSlot index before after wrapper run
  refine .bind slotted fun slots => .bind wrapped fun wrapper => .after fun fill => ?_
  refine .bind (Emit.leaves_thisNative site.config) fun native => ?_
  refine .bind (leaves_planGetter_body { slots.value with wrapper := wrapper.value }
    plain) fun reading => ?_
  dsimp only
  rw [Category.suppressesSetter_of_isPlain plain, if_neg Bool.false_ne_true]
  refine .bind (leaves_planSetter_body { slots.value with wrapper := wrapper.value } plain
    declared) fun writing => ?_
  rw [pure_bind]
  refine .pure fun tables written read found bare slotted addressable => ?_
  rcases written with ⟨setterName, set, writes, sets⟩
  rcases read with ⟨getterName, get, reads, gets⟩
  have names : MemberSlots.Names { slots.value with wrapper := wrapper.value } tables site.owner
      member.name member.category := ⟨slotted.1.offset, slotted.1.width⟩
  have gives : ∀ place (rest : TypePlan), rest.Gives place none →
      (slots.plan ++ wrapper.plan ++ ({ prelude := fill } : TypePlan) ++ reading.plan ++ writing.plan
        ++ ({} : TypePlan) ++ rest).Gives place
          ((if setter.toNat = place then some set else none).or
            (if index = place then some get else none)) := by
    intro place rest last
    have filled : ({ prelude := fill } : TypePlan).Gives place none := gives_of_nil rfl rfl
    have start := ((slotted.2 place).append (bare place)).append filled
    have accessors := (start.append (gives_replaceBody index getterName get)).append
      (gives_replaceBody setter.toNat setterName set)
    rw [reads, writes]
    simpa only [Option.none_or, Option.or_none] using (accessors.append gives_empty).append last
  have hidden : ∀ place, _ := fun place => @gives_removedFields place
    ((site.type.findField? (Naming.backingField member.name)).isSome = true) _
      [Naming.backingField member.name]
  refine ⟨get, set, ?_, ?_, gets names addressable found, sets names addressable found⟩
  · have own := gives index _ (hidden index)
    rwa [if_pos rfl, if_neg apart.symm] at own
  · have own := gives setter.toNat _ (hidden setter.toNat)
    rwa [if_pos rfl] at own

/-- What holds of the plan of the accessors holds of the plan of the property. -/
theorem leaves_planProperty_of_planAccessors {holds : Tables → PropertyPlan → Prop}
    (exposes : site.type.Exposes member property) {getter : UInt32}
    (reads : property.getter = some getter)
    (each : (site.planAccessors member property getter.toNat).Leaves holds) :
    (site.planProperty member).Leaves holds := by
  rcases exposes with ⟨place, bound, found⟩
  intro before after planned run
  unfold planProperty at run
  rw [bound] at run
  rcases exists_of_bind run with ⟨loaded, middle, load, run⟩
  rcases exists_of_bind run with ⟨read, last, given, run⟩
  rcases eq_of_lift load with ⟨here, rfl⟩
  rcases eq_of_lift given with ⟨there, rfl⟩
  cases found.symm.trans (Weave.ofOption_eq_ok here)
  cases reads.symm.trans (Weave.ofOption_eq_ok there)
  exact each before after planned run

theorem leaves_planProperty_bodies (plain : member.category.isPlain = true)
    (exposes : site.type.Exposes member property) {getter setter : UInt32}
    (reads : property.getter = some getter) (writes : property.setter = some setter)
    (apart : getter.toNat ≠ setter.toNat) :
    (site.planProperty member).Leaves fun tables planned => tables.Addressable →
      ∃ reading writing, planned.plan.Gives getter.toNat (some reading) ∧
        planned.plan.Gives setter.toNat (some writing) ∧
        reading.Gets tables site.config site.owner member ∧
        writing.Sets tables site.config site.owner member :=
  leaves_planProperty_of_planAccessors exposes reads
    (leaves_planAccessors_bodies plain writes apart)

end ClassSite

end NativeWeave
