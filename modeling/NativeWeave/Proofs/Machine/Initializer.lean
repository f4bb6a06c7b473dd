import NativeWeave.Proofs.Editing.Added
import NativeWeave.Proofs.Editing.Initializers
import NativeWeave.Proofs.Machine.Call
import NativeWeave.Proofs.Machine.StructCode

namespace NativeWeave

/-!
# Running initializers

The layout service can answer anything.  Whatever it answers, the code that fills the slots of a type
leaves in each slot the answer to the question of that slot, for the handles that it asks with are
answers themselves, which it takes from slots that it has filled.
-/

/-! ## Answers -/

/-- What a layout service answers to a query about some handle and name. -/
abbrev LayoutService := LayoutQuery → List Value → Value

namespace Question

variable {service : LayoutService}

/-- The answer to a question, with the answers to those that it builds on. -/
def answer (service : LayoutService) : Question → Value
  | type name => service .nativeType [.text name]
  | about query _ handle => service query [handle.answer service]
  | named query _ owner name => service query [owner.answer service, .text name]
  | width => service .booleanStorageWidth []

/-- What the service is handed with the question. -/
def arguments (service : LayoutService) : Question → List Value
  | type name => [.text name]
  | about _ _ handle => [handle.answer service]
  | named _ _ owner name => [owner.answer service, .text name]
  | width => []

theorem answer_eq (question : Question) :
    question.answer service = service question.query (question.arguments service) := by
  cases question <;> rfl

theorem length_arguments (question : Question) :
    (question.arguments service).length = question.query.parameters.length := by
  cases question with
  | type | width => rfl
  | about _ takes | named _ takes => exact (congrArg List.length takes).symm

end Question

theorem LayoutQuery.isVoid_result (query : LayoutQuery) : query.result.isVoid = false := by
  cases query <;> rfl

/-- The machine has the layout service answer, which does nothing else. -/
def Machine.Consults (machine : Machine) (config : Config) (service : LayoutService) : Prop :=
  ∀ query arguments state, machine.answer (config.layout query) arguments state =
    .returns (some (service query arguments)) state

/-- The slots of inquiries hold the answers. -/
def MachineState.Knows (state : MachineState) (owner : Signature) (service : LayoutService)
    (inquiries : List Inquiry) : Prop :=
  ∀ inquiry ∈ inquiries,
    state.statics (inquiry.field owner) = inquiry.question.answer service

/-- Only static fields of a list have got other values. -/
structure MachineState.SameExcept (state final : MachineState) (fields : List MemberRef) : Prop where
  statics : ∀ member ∉ fields, final.statics member = state.statics member
  rest : final = { state with statics := final.statics }

/-! ## Passing through the code -/

namespace Machine

variable {machine : Machine} {config : Config} {service : LayoutService} {owner : Signature}
  {known asked : List Inquiry} {frame : Nat} {state : MachineState} {fragment : Fragment}

theorem passes_pushedBy {question : Question}
    (pushed : question.PushedBy machine.tables owner known fragment)
    (knows : state.Knows owner service known) (stack : List Value) :
    machine.Passes frame fragment stack state ((question.arguments service).reverse ++ stack)
      state := by
  cases pushed with
  | type spells => exact passes_constString spells
  | about listed loads => exact passes_loadStatic ⟨_, loads, knows _ listed⟩
  | named listed loads spells =>
    exact (passes_loadStatic ⟨_, loads, knows _ listed⟩).append (passes_constString spells)
  | width => exact .nil

/-- Making an inquiry puts the answer into its slot and changes nothing else. -/
theorem passes_madeBy (consults : machine.Consults config service) {inquiry : Inquiry}
    (made : inquiry.MadeBy config machine.tables owner known fragment)
    (knows : state.Knows owner service known) (stack : List Value) :
    machine.Passes frame fragment stack state stack
      (state.setStatic (inquiry.field owner) (inquiry.question.answer service)) := by
  cases made with
  | @intro pushes call token pushed asks keeps =>
    have answered : machine.Calls (config.layout inquiry.question.query)
        (inquiry.question.arguments service) state (some (inquiry.question.answer service))
        state := by
      rw [Question.answer_eq]
      exact calls_of_returns (consults _ _ state)
    have called : machine.Passes frame [.call call]
        ((inquiry.question.arguments service).reverse ++ stack) state
        ((if inquiry.question.query.result.isVoid then [] else [inquiry.question.answer service])
          ++ stack) state :=
      passes_call _ asks rfl inquiry.question.length_arguments.symm answered
    rw [LayoutQuery.isVoid_result] at called
    exact (passes_pushedBy pushed knows stack).append (called.append (passes_storeStatic keeps))

end Machine

namespace MachineState

variable {state final last : MachineState} {owner : Signature} {service : LayoutService}
  {known : List Inquiry} {fields more : List MemberRef}

theorem SameExcept.refl (state : MachineState) : state.SameExcept state [] :=
  ⟨fun _ _ => rfl, rfl⟩

theorem SameExcept.trans (first : state.SameExcept final fields)
    (second : final.SameExcept last more) : state.SameExcept last (fields ++ more) where
  statics member outside := by
    rw [List.mem_append, not_or] at outside
    rw [second.statics member outside.2, first.statics member outside.1]
  rest := by
    rw [second.rest, first.rest]

theorem sameExcept_setStatic (state : MachineState) (member : MemberRef) (value : Value) :
    state.SameExcept (state.setStatic member value) [member] :=
  ⟨fun _ outside => Function.update_of_ne (List.mem_singleton.not.mp outside) _ _, rfl⟩

/-- An answer is kept along with those in other slots. -/
theorem Knows.setStatic (knows : state.Knows owner service known) (inquiry : Inquiry)
    (apart : inquiry.slot ∉ known.map (·.slot)) :
    (state.setStatic (inquiry.field owner) (inquiry.question.answer service)).Knows owner service
      (known ++ [inquiry]) := by
  intro other listed
  rcases List.mem_append.mp listed with old | new
  · have different : other.field owner ≠ inquiry.field owner := fun same =>
      apart (List.mem_map.mpr ⟨other, old, congrArg MemberRef.name same⟩)
    exact (Function.update_of_ne different _ _).trans (knows other old)
  · cases List.mem_singleton.mp new
    exact Function.update_self _ _ _

end MachineState

/-- Code that makes inquiries with slots of their own leaves all answers in the slots, beside those
that are known before. -/
theorem Machine.exists_passes_of_inquires {machine : Machine} {config : Config}
    {service : LayoutService} {owner : Signature} {known asked : List Inquiry} {fragment : Fragment}
    (consults : machine.Consults config service)
    (inquires : fragment.Inquires config machine.tables owner known asked)
    (distinct : ((known ++ asked).map (·.slot)).Nodup) (frame : Nat) (stack : List Value)
    {state : MachineState} (knows : state.Knows owner service known) :
    ∃ final, machine.Passes frame fragment stack state stack final ∧
      final.Knows owner service (known ++ asked) ∧
      state.SameExcept final (asked.map (·.field owner)) := by
  induction inquires generalizing state with
  | nil => exact ⟨state, .nil, by rwa [List.append_nil], .refl state⟩
  | @cons known asked inquiry front back made _ ih =>
    have apart : inquiry.slot ∉ known.map (·.slot) := by
      rw [List.map_append, List.map_cons] at distinct
      intro before
      exact (List.nodup_append.mp distinct).2.2 _ before _ List.mem_cons_self rfl
    rw [List.append_cons] at distinct
    rcases ih distinct (knows.setStatic inquiry apart) with ⟨final, passes, answers, same⟩
    refine ⟨final, (passes_madeBy consults made knows stack).append passes, ?_, ?_⟩
    · rwa [List.append_cons]
    · exact (state.sameExcept_setStatic _ _).trans same

/-! ## Initializers of edited types -/

/-- The method initializes its type, and begins with the code. -/
structure Method.StartsWith (method : Method) (prelude : Fragment) : Prop where
  initializes : method.isTypeInitializer = true
  begins : ∃ body, method.body = some body ∧ ∃ code rest, body.toCode = .ok code ∧
    code.instrs = prelude ++ rest

namespace TypePlan

variable {plan : TypePlan} {type now extended : TypeDef} {prelude : Fragment}

theorem exists_toCode_of_behind {code : Code} (storable : code.Storable)
    (straight : ∀ instr ∈ prelude, instr.target? = none) (locals : List Signature) :
    ∃ read rest, ((code.behind prelude).toBody locals).toCode = .ok read ∧
      read.instrs = prelude ++ rest := by
  rcases Code.exists_toCode_toBody (storable.behind straight) locals with ⟨read, found, same⟩
  exact ⟨read, _, found, same⟩

/-- The code is put in front of the first initializer, or into a new one behind all other methods. -/
theorem startsWith_of_installPrelude (installed : installPrelude prelude type = .ok extended)
    (something : prelude ≠ []) (straight : ∀ instr ∈ prelude, instr.target? = none) :
    ∃ index initializer, extended.methods[index]? = some initializer ∧
      initializer.StartsWith prelude ∧
      (FirstInitializer type.methods index ∨ type.methods.length ≤ index) := by
  cases installs_of_installPrelude installed with
  | idle empty => exact absurd empty something
  | added =>
    have storable : ({ instrs := [.ret] } : Code).Storable := by
      intro index instr here target leads
      cases List.mem_singleton.mp (List.mem_of_getElem? here)
      cases leads
    have initializes : (newInitializer prelude).isTypeInitializer = true := by
      rw [Method.isTypeInitializer, isStatic_newInitializer, Bool.and_true]
      exact beq_self_eq_true Method.initializerName
    refine ⟨type.methods.length, newInitializer prelude, List.getElem?_concat_length,
      ⟨initializes, _, rfl, ?_⟩, .inr (Nat.le_refl _)⟩
    exact exists_toCode_of_behind storable straight []
  | @extended _ place _ _ here initializes first prepended =>
    rcases bind_eq_ok_iff.mp prepended with ⟨code, loaded, prepended⟩
    rw [Code.insert?_zero] at prepended
    cases prepended
    have storable := Code.storable_of_toCode (eq_ok_of_mapError loaded)
    exact ⟨place, _, List.getElem?_set_self (List.getElem?_eq_some_iff.mp here).1,
      ⟨initializes, _, rfl, exists_toCode_of_behind storable straight _⟩, .inl first⟩

/-- An edited type runs the code of its plan first, unless the plan takes the initializer out. -/
theorem startsWith_of_apply (applied : plan.apply type = .ok now)
    (something : plan.prelude ≠ []) (straight : ∀ instr ∈ plan.prelude, instr.target? = none)
    (inside : ∀ index ∈ plan.removedMethods, index < type.methods.length)
    (stays : ∀ index ∈ plan.removedMethods, ¬ plan.Initializes type index) :
    ∃ initializer ∈ now.methods, initializer.StartsWith plan.prelude := by
  rcases exists_stages_of_apply applied with
    ⟨bodied, initialized, rest, ⟨bodies, installed, removed⟩, rfl⟩
  rcases startsWith_of_installPrelude installed something straight with
    ⟨index, initializer, here, starts, place⟩
  refine ⟨initializer, (mem_iff_of_applyRemovals removed).mpr ⟨index, fun taken => ?_, here⟩,
    starts⟩
  have within := inside index taken
  rcases place with first | behind
  · exact stays index taken ((firstInitializer_iff bodies within).mp first)
  · rw [List.length_append, length_of_applyBodies bodies] at behind
    exact Nat.not_lt_of_le (Nat.le_trans (Nat.le_add_right _ _) behind) within

end TypePlan

/-- Plans take out only methods that the type has. -/
theorem TypeBinding.Plans.removed_inside {config : Config} {source : Module} {type : TypeDef}
    {binding : TypeBinding} {plan : TypePlan} {after : Tables}
    (plans : binding.Plans config source type plan after) :
    ∀ index ∈ plan.removedMethods, index < type.methods.length := by
  cases plans with
  | @ofStruct binding _ _ _ _ made =>
    rw [binding.yieldsKept_plan? _ _ _ made plan rfl]
    exact List.forall_mem_nil _
  | ofClass _ made _ =>
    rcases ClassBinding.exists_planning made with ⟨planning, same⟩
    cases same
    exact planning.removed_inside

/-- The slots that a plan adds to a type are filled when the type is initialized. -/
structure TypePlan.Populates (plan : TypePlan) (config : Config) (tables : Tables)
    (owner : Signature) (inquiries : List Inquiry) : Prop where
  /-- There is one slot for each inquiry, in order. -/
  slots : plan.slots = inquiries.map (·.declaration)
  /-- Handles are kept before they are used. -/
  order : plan.prelude.StoresFirst tables
  /-- If the slots have different names, then each of them holds the answer to its question in the
  end, whatever the layout service answers and from wherever the code is started. -/
  answers : (plan.slots.map (·.name)).Nodup → ∀ machine : Machine, machine.tables = tables →
    ∀ service, machine.Consults config service → ∀ frame stack state,
      ∃ final, machine.Passes frame plan.prelude stack state stack final ∧
        final.Knows owner service inquiries ∧
        state.SameExcept final (inquiries.map (·.field owner))

theorem TypePlan.Inquires.populates {plan : TypePlan} {config : Config} {tables : Tables}
    {owner : Signature} {inquiries : List Inquiry}
    (inquires : plan.Inquires config tables owner [] inquiries inquiries) :
    plan.Populates config tables owner inquiries where
  slots := inquires.slots
  order := inquires.prelude.storesFirst
  answers distinct := by
    rintro machine rfl service consults frame stack state
    rw [inquires.slots, List.map_map] at distinct
    exact machine.exists_passes_of_inquires consults inquires.prelude distinct frame stack
      (List.forall_mem_nil _)

namespace Scope

/-- Every class and every struct of a woven module has its slots filled by its initializer, provided
that nothing takes the initializer out. -/
theorem populates_of_weave (scope : Scope) (result : WovenModule)
    (woven : scope.weave = .ok (.woven result)) (indexed : result.module.tables.Indexed)
    (strings : result.module.tables.strings.length ≤ 2 ^ 32) (binding : TypeBinding)
    (picks : scope.extract.bindings.Picks binding) (needed : binding.NeedsEdit scope.config)
    (type : TypeDef) (present : scope.module.types[binding.place]? = some type) :
    ∃ now plan after, result.module.types[binding.place]? = some now ∧
      binding.Plans scope.config scope.module type plan after ∧ plan.apply type = .ok now ∧
      plan.Populates scope.config result.module.tables now.signature binding.inquiries ∧
      (plan.prelude ≠ [] → (∀ index ∈ plan.removedMethods, ¬ plan.Initializes type index) →
        ∃ initializer ∈ now.methods, initializer.StartsWith plan.prelude) := by
  rcases types_of_weave woven with ⟨_, _, _, edited⟩
  rcases edited picks needed present with ⟨now, there, plan, after, plans, within, applied⟩
  have inquires := plans.inquires within indexed strings
  have owner : now.signature = type.signature :=
    congrArg Signature.named (TypePlan.sameOutside_of_apply applied).qualifiedName
  refine ⟨now, plan, after, there, plans, applied, owner ▸ inquires.populates, fun something => ?_⟩
  exact TypePlan.startsWith_of_apply applied something inquires.prelude.straight plans.removed_inside

end Scope

/-! ## A function with two parameters -/

/-- The machine with all calls answered by a layout service. -/
def Machine.consulting (machine : Machine) (service : LayoutService) : Machine :=
  { machine with
    answer := fun member arguments state =>
      match LayoutQuery.ofMethodName? member.name with
      | some query => .returns (some (service query arguments)) state
      | none => .fails }

theorem Machine.consults_consulting (machine : Machine) (config : Config) (service : LayoutService) :
    (machine.consulting service).Consults config service := by
  intro query arguments state
  have asked : LayoutQuery.ofMethodName? (config.layout query).name = some query := by
    cases query <;> rfl
  simp only [consulting, asked]

namespace Relay

/-- The layout of the native class and its function. -/
def service : LayoutService
  | .nativeType, [.text "Relay"] => .integer 64
  | .functionHandle, [.integer 64, .text "Put"] => .integer 96
  | .functionArgumentsSize, [.integer 96] => .integer 8
  | .propertyOffset, [.integer 96, .text "first"] => .integer 0
  | .propertyOffset, [.integer 96, .text "second"] => .integer 4
  | _, _ => .null

/-- A slot of the class. -/
def slot (name : String) (kind : Signature) : MemberRef :=
  .staticField type.signature name kind

/-- The handle of the class is asked for first, then that of its function, and with this one
everything else. -/
theorem inquiries_binding :
    let handle := Question.named .functionHandle rfl (.type "Relay") "Put"
    binding.inquiries = [
      ⟨"NativeClassPtr", .type "Relay"⟩,
      ⟨"Put_NativeFunction", handle⟩,
      ⟨"Put_ParamsSize", .about .functionArgumentsSize rfl handle⟩,
      ⟨"Put_first_Offset", .named .propertyOffset rfl handle "first"⟩,
      ⟨"Put_second_Offset", .named .propertyOffset rfl handle "second"⟩] := by
  decide

end Relay

/-- The slots of the class are filled with the layout of the native function. -/
theorem Scope.populates_of_weave_relay :
    ∃ result, Relay.scope.weave = .ok (.woven result) ∧ result.module.tables.Indexed ∧
      result.module.tables.strings.length ≤ 2 ^ 32 ∧
      Relay.scope.extract.bindings.Picks (.ofClass Relay.binding) ∧
      (TypeBinding.ofClass Relay.binding).NeedsEdit Relay.scope.config ∧
      Relay.scope.module.types[(TypeBinding.ofClass Relay.binding).place]? = some Relay.type ∧
      ∃ now, ∃ plan : TypePlan, result.module.types[0]? = some now ∧
        plan.apply Relay.type = .ok now ∧
        (plan.slots.map (·.name)).Nodup ∧
        ∃ (machine : Machine) (final : MachineState), machine.tables = result.module.tables ∧
          machine.Consults Relay.scope.config Relay.service ∧
          machine.Passes 0 plan.prelude [] Relay.state [] final ∧
          final.statics (Relay.slot "NativeClassPtr" .intPtr) = .integer 64 ∧
          final.statics (Relay.slot "Put_NativeFunction" .intPtr) = .integer 96 ∧
          final.statics (Relay.slot "Put_ParamsSize" .i32) = .integer 8 ∧
          final.statics (Relay.slot "Put_first_Offset" .i32) = .integer 0 ∧
          final.statics (Relay.slot "Put_second_Offset" .i32) = .integer 4 := by
  rcases Relay.soleClass.exists_woven with ⟨result, woven, types, tables⟩
  have indexed : result.module.tables.Indexed := tables ▸ Relay.addressable_tables.members
  have strings : result.module.tables.strings.length ≤ 2 ^ 32 := by
    rw [tables]
    decide
  rcases Scope.populates_of_weave Relay.scope result woven indexed strings (.ofClass Relay.binding)
      Relay.findClass?_binding trivial Relay.type rfl with
    ⟨now, plan, _, there, _, applied, populates, _⟩
  have same : now.signature = Relay.type.signature := by
    rw [types] at there
    cases there
    exact Relay.signature_edited
  rw [same] at populates
  have distinct : (plan.slots.map (·.name)).Nodup := by
    rw [populates.slots]
    decide
  let machine : Machine := { (Relay.machine {}).consulting Relay.service with
    tables := result.module.tables }
  have consults : machine.Consults Relay.scope.config Relay.service :=
    (Relay.machine {}).consults_consulting Relay.scope.config Relay.service
  rcases populates.answers distinct machine rfl Relay.service consults 0 [] Relay.state with
    ⟨final, passes, knows, _⟩
  refine ⟨result, woven, indexed, strings, Relay.findClass?_binding, trivial, rfl, now, plan, there,
    applied, distinct, machine, final, rfl, consults, passes, ?_⟩
  rw [TypeBinding.inquiries, Relay.inquiries_binding] at knows
  simp only [MachineState.Knows, List.forall_mem_cons] at knows
  exact ⟨knows.1, knows.2.1, knows.2.2.1, knows.2.2.2.1, knows.2.2.2.2.1⟩

end NativeWeave
