import NativeWeave.Proofs.Editing.Collaborators
import NativeWeave.Proofs.Machine.Crossing

namespace NativeWeave

/-!
# Running the invoker

The invoker of a function reads what a call hands over from a buffer into variables of its own, calls
the code of the function with them, and writes what comes out back to the buffer.
-/

namespace Crossing

/-- Run on a buffer that holds what the call hands over, the body leaves in it what comes out. -/
def InvokedBy (call : Crossing) (machine : Machine) (config : Config) (owner : Signature)
    (body : Body) : Prop :=
  ∀ (later : MachineState) (buffer returned : Address),
    buffer.toNat + call.size.toNat ≤ 2 ^ 64 →
    (∀ value ∈ call.function.result, returned = buffer + call.distance value) →
    call.before.Extends later → call.Lays owner later →
    (∀ parameter ∈ call.function.parameters, parameter.isInput = true →
      machine.Keeps config (call.form machine parameter) (buffer + call.distance parameter)
        (call.incoming parameter) later.memory) →
    ∃ final : MachineState,
      machine.Runs body (call.receivers ++ [.integer buffer, .integer returned]) later none final ∧
      (∀ value ∈ call.outputs, machine.Keeps config (call.form machine value)
        (buffer + call.distance value) (call.outcome value) final.memory) ∧
      (∀ cell : Cell, ¬ cell.Before call.before.frames → cell.Before later.frames →
        final.cells cell = later.cells cell) ∧
      call.Lays owner final

end Crossing

open Machine Emit

namespace FunctionSite

/-- The function is the binding of its method, has plain values, and is not validated. -/
structure Plain (site : FunctionSite) : Prop where
  values : ∀ value ∈ site.values, value.binding.category.isPlain = true
  directed : site.function.Directed
  unchecked : site.function.hasValidation = false
  count : site.method.parameters.length = site.function.parameters.length
  returns : site.method.result.isVoid = site.function.result.isNone

variable {site : FunctionSite} {value : CallValue} {index : UInt16} {machine : Machine}
  {call : Crossing} {frame : Nat} {state : MachineState} {buffer returned : Address}

theorem Means.mem_of_unpacked {tables : Tables} (means : site.Means tables)
    (short : site.arguments.length ≤ 65536) (listed : (value, index) ∈ site.unpacked) :
    value.binding ∈ site.function.parameters :=
  List.mem_of_getElem? (means.unpackedParameter short listed)

/-- Every parameter has a local variable. -/
theorem Means.exists_unpacked {tables : Tables} (means : site.Means tables)
    (short : site.arguments.length ≤ 65536) {place : Nat} {parameter : MemberBinding}
    (here : site.function.parameters[place]? = some parameter) :
    ∃ item ∈ site.unpacked, item.1.binding = parameter ∧ item.2.toNat = place := by
  have listed : (parameter, place) ∈ site.function.parameters.zipIdx :=
    List.mk_mem_zipIdx_iff_getElem?.mpr here
  rw [← means.unpacked short] at listed
  rcases List.mem_map.mp listed with ⟨item, inside, same⟩
  exact ⟨item, inside, congrArg Prod.fst same, congrArg Prod.snd same⟩

/-- The invoker gets the two addresses behind the receiver. -/
theorem Carries.getD_bufferArgument (carries : site.Carries machine call) :
    (call.receivers ++ [Value.integer buffer, .integer returned]).getD site.bufferArgument.toNat
        .null = .integer buffer ∧
      (call.receivers ++ [Value.integer buffer, .integer returned]).getD
        (site.bufferArgument + 1).toNat .null = .integer returned := by
  have kind := carries.receiver
  unfold bufferArgument
  rw [← kind, Crossing.receivers]
  cases call.receiver with
  | none => exact ⟨rfl, rfl⟩
  | some object => exact ⟨rfl, rfl⟩

/-- The code reads a value from the buffer into its variable. -/
def Unpacks (site : FunctionSite) (tables : Tables) (item : CallValue × UInt16)
    (fragment : Fragment) : Prop :=
  ∀ machine : Machine, machine.tables = tables → ∀ call, site.Carries machine call →
    item.1.binding ∈ call.function.values → ∀ frame state buffer content,
      state.cells (.argument frame site.bufferArgument.toNat) = .integer buffer →
      call.Lays site.site.owner state →
        machine.Keeps site.config (call.form machine item.1.binding)
          (buffer + call.distance item.1.binding) content state.memory →
          fragment.Assigns machine frame state (fun cell => ∃ index, cell = .localVariable frame index)
            (.localVariable frame item.2.toNat, content)

theorem leaves_unpackArgument (listed : value ∈ site.values)
    (plain : value.binding.category.isPlain = true) :
    (site.unpackArgument value index).Leaves fun tables fragment =>
      site.Unpacks tables (value, index) fragment := by
  unfold unpackArgument
  refine .bind (leaves_read listed plain) fun read => .pure fun tables reads => ?_
  rintro machine rfl call carries inside frame state buffer content finds lays keeps cells still stack
  have found : machine.Finds frame { state with cells } (.argument site.bufferArgument)
      (.integer buffer) := (still _ (by rintro ⟨_, impossible⟩; cases impossible)).trans finds
  have pushed := reads machine rfl call carries inside frame { state with cells } buffer content found
    (lays.congr rfl) keeps stack
  exact (pushed.append (passes_of_perform fun _ => rfl)).concat

/-- Pushing the receiver, what is passed by value, and the variables that stand in for others. -/
theorem passes_pushArguments (plain : site.Plain) (carries : site.Carries machine call)
    (short : site.arguments.length ≤ 65536)
    (receiver : ∀ object ∈ call.receiver, state.cells (.argument frame 0) = .object object)
    (values : ∀ index parameter, site.function.parameters[index]? = some parameter →
      parameter.type.isByRef = false →
        state.cells (.localVariable frame index) = call.given parameter) (stack : List Value) :
    machine.Passes frame site.pushArguments stack state
      ((call.receivers ++ call.standIns frame).reverse ++ stack) state := by
  refine passes_pushing (List.rel_append ?_ ?_) stack
  · have kind := carries.receiver
    rw [← kind, Crossing.receivers]
    cases given : call.receiver with
    | none => exact .nil
    | some object =>
      refine .cons (fun stack => ?_) .nil
      exact passes_loadArg (receiver object given)
  · rw [Crossing.standIns, carries.function, ← carries.means.unpacked short, List.map_map,
      List.forall₂_map_left_iff, List.forall₂_map_right_iff, List.forall₂_same]
    rintro ⟨value, index⟩ listed stack
    have here := carries.means.unpackedParameter short listed
    dsimp only [Function.comp]
    rw [plain.directed.byRef _ (List.mem_of_getElem? here)]
    cases kind : value.binding.type.isByRef with
    | true => exact passes_of_perform fun _ => rfl
    | false =>
      rw [if_neg Bool.false_ne_true, if_neg Bool.false_ne_true, ← values _ _ here kind]
      exact passes_of_perform fun _ => rfl

/-- The code calls the code of the function. -/
def CallsCode (site : FunctionSite) (tables : Tables) (code : Fragment) : Prop :=
  ∀ machine : Machine, machine.tables = tables → ∀ call, site.Carries machine call →
    site.arguments.length ≤ 65536 → ∀ frame state final,
      (∀ object ∈ call.receiver, state.cells (.argument frame 0) = .object object) →
      (∀ index parameter, site.function.parameters[index]? = some parameter →
        parameter.type.isByRef = false →
          state.cells (.localVariable frame index) = call.given parameter) →
      machine.Calls site.implementation (call.receivers ++ call.standIns frame) state call.result
        final → ∀ stack,
          machine.Passes frame code stack state (call.result.toList ++ stack) final

theorem leaves_callImplementation (plain : site.Plain) :
    site.callImplementation.Leaves site.CallsCode := by
  unfold callImplementation
  refine .bind (leaves_member _) fun token => .pure fun tables means => ?_
  rintro machine rfl call carries short frame state final receiver values calls stack
  have pushed := passes_pushArguments plain carries short receiver values stack
  have count : site.method.signature.argumentCount =
      (call.receivers ++ call.standIns frame).length := by
    have kind := carries.receiver
    have one : call.receivers.length = if site.method.signature.hasThis then 1 else 0 := by
      change _ = if site.hasThis then 1 else 0
      rw [← kind, Crossing.receivers, List.length_map]
      cases call.receiver <;> rfl
    rw [MethodSignature.argumentCount, List.length_append, one, Crossing.standIns, List.length_map,
      List.length_zipIdx, carries.function, ← plain.count, Nat.add_comm]
    change _ + (site.method.parameters.map _).length = _
    rw [List.length_map]
  have left : (if site.method.signature.result.isVoid then [] else call.result.toList) =
      call.result.toList := by
    change (if site.method.result.isVoid then [] else _) = _
    rw [plain.returns, Crossing.result, carries.function]
    cases site.function.result <;> rfl
  rw [← left]
  refine pushed.append ?_
  split
  · exact passes_callVirtual _ means rfl count (carries.suits.actual _) calls
  · exact passes_call _ means rfl count calls

/-- Without validation there is no code for it. -/
theorem leaves_validate (plain : site.Plain) : site.validate.Leaves fun _ code => code = [] := by
  unfold validate
  rw [plain.unchecked, if_neg Bool.false_ne_true]
  exact .pure fun _ => rfl

/-- The code keeps what is returned, and writes it to the address that is given for it. -/
def PassesResult (site : FunctionSite) (tables : Tables) (code : Fragment) : Prop :=
  ∀ machine : Machine, machine.tables = tables → ∀ call, site.Carries machine call →
    ∀ frame state (returned : Address), call.Lays site.site.owner state →
      state.cells (.argument frame (site.bufferArgument + 1).toNat) = .integer returned →
      ∃ final : MachineState,
        (∀ stack, machine.Passes frame code (call.result.toList ++ stack) state stack final) ∧
        final.statics = state.statics ∧
        (∀ cell, cell ≠ .localVariable frame (UInt16.ofNat site.arguments.length).toNat →
          final.cells cell = state.cells cell) ∧
        final.memory.AgreesOn state.memory (fun place => ∀ value ∈ call.function.result,
          ¬ returned.Covers (call.form machine value).size place) ∧
        ∀ value ∈ call.function.result, machine.Keeps site.config (call.form machine value)
          returned (call.outcome value) final.memory

theorem leaves_passResult (plain : site.Plain) : site.passResult.Leaves site.PassesResult := by
  unfold passResult
  split
  · next nothing =>
    refine .pure fun tables => ?_
    rintro machine rfl call carries frame state returned lays finds
    have none : call.function.result = none := by
      rw [carries.function, ← carries.means.result, nothing]
      rfl
    refine ⟨state, fun stack => ?_, rfl, fun _ _ => rfl, fun _ _ => rfl, fun value listed => ?_⟩
    · rw [Crossing.result, none]
      exact .nil
    · rw [none] at listed
      cases listed
  · next value found =>
    have listed := mem_values_of_result? found
    refine .bind (leaves_write listed (plain.values value listed)) fun write => .pure ?_
    rintro tables writes machine rfl call carries frame state returned lays finds
    have some' : call.function.result = some value.binding := by
      rw [carries.function, ← carries.means.result, found]
      rfl
    have inside : value.binding ∈ call.function.values :=
      List.mem_append_right _ (by rw [some']; exact List.mem_singleton_self _)
    let kept := state.setVariable
      (.localVariable frame (UInt16.ofNat site.arguments.length).toNat) (call.outcome value.binding)
    have holds : (call.form machine value.binding).Holds (call.outcome value.binding) :=
      carries.suits.typed.outputs _ (List.mem_append_left _ (by rw [some']; exact List.mem_singleton_self _))
    have apart : Cell.argument frame (site.bufferArgument + 1).toNat ≠
        .localVariable frame (UInt16.ofNat site.arguments.length).toNat := by rintro ⟨⟩
    have argument : kept.cells (.argument frame (site.bufferArgument + 1).toNat) =
        .integer returned := (MachineState.setVariable_cells_of_ne apart).trans finds
    have held : machine.Finds frame kept (.localVariable (UInt16.ofNat site.arguments.length))
        (call.outcome value.binding) := state.setVariable_cells_self _ _
    rcases writes machine rfl call carries inside frame kept returned (call.outcome value.binding)
      argument (lays.congr rfl) held holds with ⟨memory, agrees, keeps, passes⟩
    refine ⟨{ kept with memory }, fun stack => ?_, rfl,
      fun cell other => MachineState.setVariable_cells_of_ne other, fun place outside => ?_, fun other same => ?_⟩
    · rw [Crossing.result, some']
      have stored : machine.Passes frame [.storeLocal (UInt16.ofNat site.arguments.length)]
          (call.outcome value.binding :: stack) state stack kept := passes_of_perform fun _ => rfl
      have whole := stored.append (passes stack)
      rw [← List.append_nil write] at whole
      exact whole.concat
    · exact agrees place (outside _ some')
    · cases some'.symm.trans same
      exact keeps

/-! ## The whole -/

/-- What the invoker puts into its variables. -/
def unpacking (site : FunctionSite) (call : Crossing) (frame : Nat) : List (Cell × Value) :=
  (site.unpacked.filter (·.1.binding.isInput)).map fun item =>
    (.localVariable frame item.2.toNat, call.incoming item.1.binding)

/-- The variable of a parameter that hands something over holds that. -/
theorem Carries.cells_unpacking (carries : site.Carries machine call)
    (short : site.arguments.length ≤ 65536) {place : Nat} {parameter : MemberBinding}
    (here : site.function.parameters[place]? = some parameter) (handed : parameter.isInput = true) :
    (state.assign (site.unpacking call frame)).cells (.localVariable frame place) =
      call.incoming parameter := by
  rcases carries.means.exists_unpacked short here with ⟨item, listed, rfl, rfl⟩
  refine MachineState.assign_cells_of_mem
    (List.mem_map.mpr ⟨item, List.mem_filter.mpr ⟨listed, handed⟩, rfl⟩) ?_
  refine List.forall_mem_map.mpr fun other inside same => ?_
  have there := carries.means.unpackedParameter short (List.mem_filter.mp inside).1
  rw [(Cell.localVariable.inj same).2, here] at there
  exact congrArg call.incoming (Option.some.inj there).symm

/-- The invoker writes back the parameters that are passed by reference. -/
theorem Carries.unpacked_outputs (carries : site.Carries machine call) (plain : site.Plain)
    (short : site.arguments.length ≤ 65536) :
    (site.unpacked.filter (·.1.binding.isByRef)).map (·.1.binding) =
      call.function.parameters.filter (·.type.isByRef) := by
  have bindings : site.unpacked.map (·.1.binding) = site.function.parameters := by
    have firsts := congrArg (List.map Prod.fst) (carries.means.unpacked short)
    rwa [List.map_map, List.zipIdx_map_fst] at firsts
  rw [carries.function, ← List.filter_congr plain.directed.byRef, ← bindings, List.filter_map]
  rfl

/-- What holds between the parts of the invoker: it knows its arguments, and nothing of what was there
before the frame has changed but what the caller had before the call. -/
structure Invoking (site : FunctionSite) (call : Crossing) (later : MachineState)
    (buffer target : Address) (state : MachineState) : Prop where
  buffer : state.cells (.argument later.frames site.bufferArgument.toNat) = .integer buffer
  target : state.cells (.argument later.frames (site.bufferArgument + 1).toNat) = .integer target
  lays : call.Lays site.site.owner state
  kept : ∀ cell : Cell, ¬ cell.Before call.before.frames → cell.Before later.frames →
    state.cells cell = later.cells cell

/-- The variables of the frame hold what comes out. -/
def Settled (site : FunctionSite) (call : Crossing) (frame : Nat) (state : MachineState) : Prop :=
  ∀ index parameter, site.function.parameters[index]? = some parameter →
    parameter.type.isByRef = true →
      state.cells (.localVariable frame index) = call.outcome parameter

variable {later next : MachineState} {target : Address}

/-- Local variables of the frame may change. -/
theorem Invoking.congr (invoking : site.Invoking call later buffer target state)
    (statics : next.statics = state.statics)
    (cells : ∀ cell, (∀ index, cell ≠ .localVariable later.frames index) →
      next.cells cell = state.cells cell) : site.Invoking call later buffer target next where
  buffer := (cells _ (Cell.argument_ne_localVariable _ _ _)).trans invoking.buffer
  target := (cells _ (Cell.argument_ne_localVariable _ _ _)).trans invoking.target
  lays := invoking.lays.congr statics
  kept cell new old := by
    refine (cells cell fun index same => ?_).trans (invoking.kept cell new old)
    exact Nat.lt_irrefl _ (same ▸ old : (Cell.localVariable later.frames index).Before later.frames)

theorem Carries.invoking_enter (carries : site.Carries machine call)
    (lays : call.Lays site.site.owner later) (locals : List Value) :
    site.Invoking call later buffer target
      (later.enter (call.receivers ++ [Value.integer buffer, .integer target]) locals) where
  buffer := (later.enter_argument _ _ _).trans carries.getD_bufferArgument.1
  target := (later.enter_argument _ _ _).trans carries.getD_bufferArgument.2
  lays := lays.congr rfl
  kept cell _ old := ((MachineState.Extends.refl later).enter _ locals).cells cell old

/-- Only local variables of the frame are unpacked into. -/
theorem unpacking_local (setting : Cell × Value) (listed : setting ∈ site.unpacking call frame) :
    ∃ index, setting.1 = .localVariable frame index := by
  rcases List.mem_map.mp listed with ⟨item, _, rfl⟩
  exact ⟨_, rfl⟩

theorem cells_unpacking_of_ne {cell : Cell} (other : ∀ index, cell ≠ .localVariable frame index) :
    (state.assign (site.unpacking call frame)).cells cell = state.cells cell := by
  refine MachineState.assign_cells_of_ne fun setting listed same => ?_
  rcases unpacking_local setting listed with ⟨index, there⟩
  exact other index (same.symm.trans there)

theorem Carries.passes_unpacking (carries : site.Carries machine call)
    (short : site.arguments.length ≤ 65536) {reads : List Fragment}
    (unpacks : List.Forall₂ (site.Unpacks machine.tables)
      (site.unpacked.filter (·.1.binding.isInput)) reads)
    (invoking : site.Invoking call later buffer target state)
    (keeps : ∀ parameter ∈ call.function.parameters, parameter.isInput = true →
      machine.Keeps site.config (call.form machine parameter) (buffer + call.distance parameter)
        (call.incoming parameter) state.memory) (stack : List Value) :
    machine.Passes later.frames reads.flatten stack state stack
      (state.assign (site.unpacking call later.frames)) := by
  refine passes_assigning (fun cell => ∃ index, cell = .localVariable later.frames index) ?_
    unpacking_local stack
  rw [unpacking, List.forall₂_map_left_iff]
  refine ((List.forall₂_and_left _ _).mpr ⟨fun _ inside => inside, unpacks⟩).imp ?_
  rintro item fragment ⟨inside, unpack⟩
  have handed := List.mem_filter.mp inside
  have parameter := carries.function ▸ carries.means.mem_of_unpacked short handed.1
  exact unpack machine rfl call carries (List.mem_append_left _ parameter) later.frames state buffer _
    invoking.buffer invoking.lays (keeps _ parameter handed.2)

/-- The code of the function works on the variables of the frame, and returns what it would return to
the caller. -/
theorem Carries.exists_called (carries : site.Carries machine call) (plain : site.Plain)
    (short : site.arguments.length ≤ 65536) {called : Fragment}
    (calls : site.CallsCode machine.tables called) (since : call.before.Extends state)
    (begun : call.before.frames ≤ later.frames) (frames : later.frames < state.frames)
    (invoking : site.Invoking call later buffer target state)
    (receiver : ∀ object ∈ call.receiver,
      state.cells (.argument later.frames 0) = .object object)
    (inputs : ∀ index parameter, site.function.parameters[index]? = some parameter →
      parameter.isInput = true →
        state.cells (.localVariable later.frames index) = call.incoming parameter) :
    ∃ done, (∀ stack, machine.Passes later.frames called stack state
        (call.result.toList ++ stack) done) ∧
      site.Invoking call later buffer target done ∧ site.Settled call later.frames done := by
  have same := carries.function
  rcases carries.suits.transparent state later.frames since begun frames
      (fun index parameter here _ => inputs index parameter (same ▸ here)) with
    ⟨done, ends, outcomes, kept, lays⟩
  have values : ∀ index parameter, site.function.parameters[index]? = some parameter →
      parameter.type.isByRef = false →
        state.cells (.localVariable later.frames index) = call.given parameter := by
    intro index parameter here byValue
    have handed := plain.directed.input _ (List.mem_of_getElem? here) byValue
    rw [inputs index parameter here handed, Crossing.incoming, byValue, if_neg Bool.false_ne_true]
  have argument : ∀ index, done.cells (.argument later.frames index) =
      state.cells (.argument later.frames index) := fun index =>
    kept _ (fun before => Nat.not_le_of_gt before begun) frames fun _ same => nomatch same
  refine ⟨done, calls machine rfl call carries short later.frames state done receiver values ends,
    ⟨(argument _).trans invoking.buffer, (argument _).trans invoking.target, lays, ?_⟩,
    fun index parameter here => outcomes index parameter (same ▸ here)⟩
  intro cell new old
  refine (kept cell new (old.mono (Nat.le_of_lt frames)) fun index same => ?_).trans
    (invoking.kept cell new old)
  exact Nat.lt_irrefl _ (same ▸ old : (Cell.localVariable later.frames index).Before later.frames)

/-- What the code of the function returns goes to its place. -/
theorem Carries.exists_passed (carries : site.Carries machine call)
    (count : site.arguments.length < 65536) {result : Fragment}
    (passes : site.PassesResult machine.tables result)
    (invoking : site.Invoking call later buffer target state)
    (settled : site.Settled call later.frames state) :
    ∃ passed, (∀ stack, machine.Passes later.frames result (call.result.toList ++ stack) state stack
        passed) ∧
      site.Invoking call later buffer target passed ∧ site.Settled call later.frames passed ∧
      ∀ value ∈ call.function.result, machine.Keeps site.config (call.form machine value) target
        (call.outcome value) passed.memory := by
  rcases passes machine rfl call carries later.frames state target invoking.lays invoking.target with
    ⟨passed, runs, statics, cells, _, keeps⟩
  refine ⟨passed, runs, invoking.congr statics fun cell other => cells cell (other _), ?_, keeps⟩
  -- The return value has a variable behind those of the parameters.
  intro index parameter here byRef
  have within : index < site.arguments.length := by
    rw [carries.means.length_arguments]
    exact (List.getElem?_eq_some_iff.mp here).1
  have other : Cell.localVariable later.frames index ≠
      .localVariable later.frames (UInt16.ofNat site.arguments.length).toNat := by
    rw [UInt16.toNat_ofNat_of_lt' count]
    exact fun same => Nat.ne_of_lt within (Cell.localVariable.inj same).2
  exact (cells _ other).trans (settled index parameter here byRef)

/-- What the variables of the frame hold goes back to the buffer. -/
theorem Carries.exists_returned (carries : site.Carries machine call) (plain : site.Plain)
    (short : site.arguments.length ≤ 65536) (room : buffer.toNat + call.size.toNat ≤ 2 ^ 64)
    (returned : ∀ value ∈ call.function.result, target = buffer + call.distance value)
    {writes : List Fragment}
    (written : List.Forall₂ (fun item => site.Writes machine.tables item.1
      (item.1.place (.argument site.bufferArgument)) (.localVariable item.2))
      (site.unpacked.filter (·.1.binding.isByRef)) writes)
    (invoking : site.Invoking call later buffer target state)
    (settled : site.Settled call later.frames state)
    (keeps : ∀ value ∈ call.function.result, machine.Keeps site.config (call.form machine value)
      target (call.outcome value) state.memory) :
    ∃ memory : NativeMemory,
      (∀ value ∈ call.outputs, machine.Keeps site.config (call.form machine value)
        (buffer + call.distance value) (call.outcome value) memory) ∧
      ∀ stack, machine.Passes later.frames writes.flatten stack state stack
        { state with memory } := by
  have suits := carries.suits
  have outputs := carries.unpacked_outputs plain short
  have parameter : ∀ item ∈ site.unpacked.filter (·.1.binding.isByRef),
      item.1.binding ∈ call.function.parameters.filter (·.type.isByRef) := fun item inside =>
    outputs ▸ List.mem_map_of_mem inside
  have found : List.Forall₂ (fun item fragment => ∃ origin,
      site.Writes machine.tables item.1 (item.1.place (.argument site.bufferArgument)) origin
        fragment ∧
      ∀ memory, machine.Finds later.frames { state with memory } origin
        (call.outcome item.1.binding))
      (site.unpacked.filter (·.1.binding.isByRef)) writes := by
    refine ((List.forall₂_and_left _ _).mpr ⟨fun _ inside => inside, written⟩).imp ?_
    rintro item fragment ⟨inside, write⟩
    have here := carries.means.unpackedParameter short (List.mem_filter.mp inside).1
    exact ⟨_, write, fun _ => settled _ _ here (List.mem_filter.mp (parameter item inside)).2⟩
  have apart := suits.spreads.inputs room call.outcome (·.type.isByRef)
  rw [← outputs, List.map_map] at apart
  rcases carries.exists_written found
      (fun item inside => ⟨mem_values_of_mem_unpacked (List.mem_filter.mp inside).1,
        List.mem_append_left _ (List.mem_filter.mp (parameter item inside)).1⟩)
      apart invoking.lays (fun _ => invoking.buffer)
      (fun item inside => suits.typed.outputs _ (List.mem_append_right _ (parameter item inside)))
    with ⟨memory, outside, stored, passes⟩
  refine ⟨memory, fun value listed => ?_, passes⟩
  rcases List.mem_append.mp listed with result | byRef
  · have given := Option.mem_toList.mp result
    have separate := suits.spreads.outputs room
    rw [Crossing.outputs, List.map_append, List.pairwise_append] at separate
    have kept := keeps value given
    rw [returned value given] at kept
    exact kept.congr fun place inside => outside place fun item there =>
      separate.2.2 _ (List.mem_map_of_mem result) _ (List.mem_map_of_mem (parameter item there))
        place inside
  · rw [← outputs] at byRef
    rcases List.mem_map.mp byRef with ⟨item, inside, rfl⟩
    exact stored item inside

/-- The parts of the invoker, run one after the other. -/
theorem Carries.invokes (carries : site.Carries machine call) (plain : site.Plain)
    (fits : ¬ 65535 < site.invokerLocals.length) {reads writes : List Fragment}
    {called result : Fragment}
    (unpacks : List.Forall₂ (site.Unpacks machine.tables)
      (site.unpacked.filter (·.1.binding.isInput)) reads)
    (calls : site.CallsCode machine.tables called) (passes : site.PassesResult machine.tables result)
    (written : List.Forall₂ (fun item => site.Writes machine.tables item.1
      (item.1.place (.argument site.bufferArgument)) (.localVariable item.2))
      (site.unpacked.filter (·.1.binding.isByRef)) writes) :
    call.InvokedBy machine site.config site.site.owner
      (({ instrs := Fragment.concat [Fragment.concat reads, [], called, result,
        Fragment.concat writes, [.ret]] } : Code).toBody site.invokerLocals) := by
  intro later buffer target room returned extends' lays keeps
  have count : site.arguments.length < 65536 := by
    rw [invokerLocals, List.length_append, List.length_map] at fits
    omega
  have short := Nat.le_of_lt count
  let locals := site.invokerLocals.map machine.initial
  let entered := later.enter (call.receivers ++ [Value.integer buffer, .integer target]) locals
  let unpacked := entered.assign (site.unpacking call later.frames)
  have start : site.Invoking call later buffer target entered := carries.invoking_enter lays locals
  have first := carries.passes_unpacking short unpacks start keeps []
  have fresh : ∀ setting ∈ site.unpacking call later.frames,
      ¬ setting.1.Before call.before.frames := by
    intro setting listed before
    rcases unpacking_local setting listed with ⟨index, there⟩
    rw [there] at before
    exact Nat.not_le_of_gt before extends'.frames
  have frames : later.frames < unpacked.frames :=
    congrArg MachineState.frames (entered.assign_eq _) ▸ Nat.lt_succ_self _
  have receiver : ∀ object ∈ call.receiver,
      unpacked.cells (.argument later.frames 0) = .object object := by
    intro object given
    refine (cells_unpacking_of_ne (Cell.argument_ne_localVariable _ _ _)).trans ?_
    refine (later.enter_argument _ _ _).trans ?_
    rw [Crossing.receivers, given]
    rfl
  rcases carries.exists_called plain short calls ((extends'.enter _ _).assign fresh) extends'.frames
      frames (start.congr (congrArg MachineState.statics (entered.assign_eq _) : unpacked.statics = _)
        fun _ => cells_unpacking_of_ne) receiver
      (fun _ _ here => carries.cells_unpacking short here) with ⟨done, second, invoking, settled⟩
  rcases carries.exists_passed count passes invoking settled with
    ⟨passed, third, invoking, settled, kept⟩
  rcases carries.exists_returned plain short room returned written invoking settled kept with
    ⟨memory, stored, fourth⟩
  have whole := ((first.concat.append (second [])).append (third [])).append (fourth []).concat
  have passes' : machine.Passes later.frames
      [Fragment.concat reads, [], called, result, Fragment.concat writes].flatten [] entered []
      { passed with memory } := by
    simpa only [List.flatten_cons, List.flatten_nil, List.append_nil, List.nil_append,
      List.append_assoc] using whole
  have runs := runs_of_passes_concat [Fragment.concat reads, [], called, result,
    Fragment.concat writes] site.invokerLocals passes'
  exact ⟨{ passed with memory }, runs, stored, invoking.kept, invoking.lays.congr rfl⟩

/-- The invoker of a function with plain values does what a call asks of it. -/
theorem leaves_invokerBody (plain : site.Plain) : site.invokerBody.Leaves fun tables body =>
    ∀ machine : Machine, machine.tables = tables → ∀ call, site.Carries machine call →
      call.InvokedBy machine site.config site.site.owner body := by
  unfold invokerBody
  split
  · intro before after body impossible
    cases impossible
  · next fits =>
    have listed : ∀ {chosen : CallValue × UInt16 → Bool}, ∀ item ∈ site.unpacked.filter chosen,
        item.1 ∈ site.values := fun item inside =>
      mem_values_of_mem_unpacked (List.mem_filter.mp inside).1
    refine .bind (leaves_forAll fun item inside => leaves_unpackArgument (listed item inside)
      (plain.values _ (listed item inside))) fun unpacked => ?_
    refine .bind (leaves_validate plain) fun validated => ?_
    refine .bind (leaves_callImplementation plain) fun called => ?_
    refine .bind (leaves_passResult plain) fun result => ?_
    refine .bind (leaves_forAll fun item inside => leaves_write (listed item inside)
      (plain.values _ (listed item inside))) fun returned => .pure ?_
    rintro tables ⟨writes, rfl, written⟩ passes calls rfl ⟨reads, rfl, unpacks⟩
    rintro machine rfl call carries
    exact carries.invokes plain fits unpacks calls passes written

end FunctionSite

end NativeWeave
