import NativeWeave.Proofs.Machine.Invoker

namespace NativeWeave

/-!
# Running the caller

What has become of an exposed function packs what it is passed into a buffer of its own, has native
code call the invoker on it, and takes what comes out from the buffer.
-/

namespace Crossing

/-- The caller gets the next memory for its buffer. -/
def buffer (call : Crossing) : Address :=
  BitVec.ofNat 64 call.before.extent

/-- The machine takes the call to native code and has the invoker answer it. -/
structure Served (call : Crossing) (machine : Machine) (config : Config) (owner : Signature)
    (invoker : Body) : Prop where
  /-- The object that the function is called on is alive and has a native instance. -/
  receiver : ∀ object ∈ call.receiver, machine.Backs config call.before object call.native
  /-- Static functions are called on the object that stands for the class. -/
  default : call.receiver = none → ∀ later, machine.answer config.getDefaultObject
    [call.before.statics (.staticField owner Naming.nativeClassPtr .intPtr)] later =
      .returns (some (.integer call.native)) later
  /-- The native function of an event belongs to the object. -/
  event : ∀ object ∈ call.receiver, call.function.isNativeEvent = true → ∀ later,
    machine.answer config.resolveFunctionOnInstance
      [.object object, .text call.function.nativeName] later = .returns (some call.handle) later
  handle : (call.receiver.isSome && call.function.isNativeEvent) = false →
    call.before.statics (.staticField owner (Naming.functionSlot call.function.name) .intPtr) =
      call.handle
  size : call.before.statics
    (.staticField owner (Naming.parametersSizeSlot call.function.name) .i32) = .integer call.size
  lays : call.Lays owner call.before
  /-- There is memory left for the buffer. -/
  room : call.before.extent + call.size.toNat ≤ 2 ^ 64
  /-- Native code calls the invoker on the buffer and the place for the return value in it. -/
  invokes : ∃ returned,
    (∀ value ∈ call.function.result, returned = call.buffer + call.distance value) ∧
    ∀ later, machine.answer config.invokeNativeFunction
      [.integer call.native, call.handle, .integer call.buffer] later =
        .runs invoker (call.receivers ++ [.integer call.buffer, .integer returned])

/-- Run on what the caller passes, the body returns what the function returns and leaves in the variables
that are passed by reference what the function leaves in them. -/
def CalledBy (call : Crossing) (machine : Machine) (body : Body) : Prop :=
  ∃ final : MachineState, machine.Runs body call.arguments call.before call.result final ∧
    ∀ parameter ∈ call.function.parameters, parameter.type.isByRef = true →
      (∀ other ∈ call.function.parameters, other.type.isByRef = true →
        call.target other = call.target parameter → call.outcome other = call.outcome parameter) →
      final.cells (call.target parameter) = call.outcome parameter

theorem getD_arguments_receiver {call : Crossing} {object : Nat}
    (given : call.receiver = some object) : call.arguments.getD 0 .null = .object object := by
  rw [arguments, receivers, given]
  rfl

end Crossing

open Machine Emit

namespace FunctionSite

variable {site : FunctionSite} {value : CallValue} {argument : UInt16} {machine : Machine}
  {call : Crossing} {state next : MachineState}

/-! ## What the caller knows -/

theorem Carries.length_receivers (carries : site.Carries machine call) :
    call.receivers.length = site.shift := by
  rw [Crossing.receivers, List.length_map, shift, ← carries.receiver]
  cases call.receiver <;> rfl

/-- The argument of a parameter is what is passed for it. -/
theorem Carries.getD_arguments (carries : site.Carries machine call)
    (listed : (value, argument) ∈ site.arguments) :
    call.arguments.getD argument.toNat .null =
      if value.binding.type.isByRef then .reference (call.target value.binding)
      else call.given value.binding := by
  rcases carries.means.parameter listed with ⟨index, place, here⟩
  rw [place, ← carries.length_receivers, List.getD_eq_getElem?_getD, Crossing.arguments,
    List.getElem?_append_right (Nat.le_add_right _ _), Nat.add_sub_cancel_left, List.getElem?_map,
    carries.function, here]
  rfl

theorem Carries.parameter (carries : site.Carries machine call)
    (listed : (value, argument) ∈ site.arguments) :
    value.binding ∈ call.function.parameters := by
  rcases carries.means.parameter listed with ⟨index, _, here⟩
  exact carries.function ▸ List.mem_of_getElem? here

/-- What holds between the parts of the caller: it has its arguments and its buffer, and it can find its
way around in the buffer. -/
structure Forwarding (site : FunctionSite) (call : Crossing) (state : MachineState) : Prop where
  arguments : ∀ index, state.cells (.argument call.before.frames index) =
    call.arguments.getD index .null
  buffer : state.cells (.localVariable call.before.frames 0) = .integer call.buffer
  lays : call.Lays site.site.owner state

/-- Variables of earlier frames and memory may change. -/
theorem Forwarding.congr (forwarding : site.Forwarding call state)
    (statics : next.statics = state.statics)
    (cells : ∀ cell : Cell, ¬ cell.Before call.before.frames → next.cells cell = state.cells cell) :
    site.Forwarding call next where
  arguments index := (cells _ (Nat.lt_irrefl _)).trans (forwarding.arguments index)
  buffer := (cells _ (Nat.lt_irrefl _)).trans forwarding.buffer
  lays := forwarding.lays.congr statics

/-! ## The buffer -/

end FunctionSite

namespace Crossing

variable {call : Crossing} {machine : Machine} {config : Config} {owner : Signature} {invoker : Body}
  {locals : List Value} {place : Address}

/-- The state in which the caller has memory for its buffer. -/
def reserved (call : Crossing) (locals : List Value) : MachineState :=
  let entered := call.before.enter call.arguments locals
  { entered with extent := entered.extent + call.size.toNat }

/-- The state in which the caller knows where its buffer is. -/
def kept (call : Crossing) (locals : List Value) : MachineState :=
  (call.reserved locals).setVariable (.localVariable call.before.frames 0) (.integer call.buffer)

/-- The state in which the caller has its buffer and has not passed anything yet. -/
def allocated (call : Crossing) (locals : List Value) : MachineState :=
  { call.kept locals with memory := (call.kept locals).memory.fill call.buffer call.size.toNat 0 }

theorem kept_argument (call : Crossing) (locals : List Value) (index : Nat) :
    (call.kept locals).cells (.argument call.before.frames index) =
      call.arguments.getD index .null :=
  (MachineState.setVariable_cells_of_ne (Cell.argument_ne_localVariable _ _ _ _)).trans
    (call.before.enter_argument _ locals _)

theorem kept_buffer (call : Crossing) (locals : List Value) :
    (call.kept locals).cells (.localVariable call.before.frames 0) = .integer call.buffer :=
  MachineState.setVariable_cells_self _ _ _

theorem Served.fits (served : call.Served machine config owner invoker) :
    call.buffer.toNat + call.size.toNat ≤ 2 ^ 64 := by
  have room := served.room
  have start : call.buffer.toNat = call.before.extent % 2 ^ 64 := BitVec.toNat_ofNat _ _
  omega

/-- The buffer lies behind all memory that was in use. -/
theorem Served.outside (served : call.Served machine config owner invoker)
    (low : call.buffer.toNat ≤ place.toNat)
    (high : place.toNat < call.buffer.toNat + call.size.toNat) :
    ¬ (place.toNat < call.before.extent ∨ call.before.extent + call.size.toNat ≤ place.toNat) := by
  have room := served.room
  have start : call.buffer.toNat = call.before.extent % 2 ^ 64 := BitVec.toNat_ofNat _ _
  omega

theorem Served.extends_allocated (served : call.Served machine config owner invoker) :
    call.before.Extends (call.allocated locals) := by
  have grown := ((MachineState.Extends.refl call.before).enter call.arguments locals).allocate
    call.size.toNat
  refine (grown.setVariable (.integer call.buffer) (Nat.lt_irrefl _)).write ?_
  refine fun place outside => NativeMemory.fill_agreesOn _ _ _ _ place fun inside => ?_
  have bounds := inside.bounds served.fits
  exact served.outside bounds.1 bounds.2 outside

end Crossing

namespace FunctionSite

variable {site : FunctionSite} {machine : Machine} {call : Crossing} {invoker : Body}
  {locals : List Value}

theorem forwarding_allocated (served : call.Served machine site.config site.site.owner invoker) :
    site.Forwarding call (call.allocated locals) where
  arguments index := call.kept_argument locals index
  buffer := call.kept_buffer locals
  lays := served.lays.congr rfl

theorem Carries.passes_allocate (carries : site.Carries machine call)
    (served : call.Served machine site.config site.site.owner invoker) (stack : List Value) :
    machine.Passes call.before.frames site.allocate stack
      (call.before.enter call.arguments locals) stack (call.allocated locals) := by
  let entered := call.before.enter call.arguments locals
  have sized : ∀ later : MachineState, later.statics = call.before.statics →
      machine.HoldsStatic later site.size (.integer call.size) := by
    intro later same
    refine ⟨_, carries.means.size, ?_⟩
    rw [same, ← carries.function]
    exact served.size
  have first : machine.Passes call.before.frames [.loadStatic site.size] stack entered
      (.integer call.size :: stack) entered := passes_loadStatic (sized _ rfl)
  have second : machine.Passes call.before.frames [.plain .localAlloc]
      (.integer call.size :: stack) entered (.integer call.buffer :: stack) (call.reserved locals) :=
    passes_of_perform fun _ => if_pos served.room
  have third : machine.Passes call.before.frames [.storeLocal 0] (.integer call.buffer :: stack)
      (call.reserved locals) stack (call.kept locals) := passes_of_perform fun _ => rfl
  have fourth : machine.Passes call.before.frames [.loadLocal 0] stack (call.kept locals)
      (.integer call.buffer :: stack) (call.kept locals) :=
    passes_of_perform fun _ => call.kept_buffer locals ▸ rfl
  have fifth : machine.Passes call.before.frames [.constI32 0] (.integer call.buffer :: stack)
      (call.kept locals) (.integer 0 :: .integer call.buffer :: stack) (call.kept locals) :=
    passes_of_perform fun _ => rfl
  have sixth : machine.Passes call.before.frames [.loadStatic site.size]
      (.integer 0 :: .integer call.buffer :: stack) (call.kept locals)
      (.integer call.size :: .integer 0 :: .integer call.buffer :: stack) (call.kept locals) :=
    passes_loadStatic (sized _ rfl)
  have seventh : machine.Passes call.before.frames [.plain .initBlock]
      (.integer call.size :: .integer 0 :: .integer call.buffer :: stack) (call.kept locals) stack
      (call.allocated locals) := passes_of_perform fun _ => rfl
  exact first.append (second.append (third.append (fourth.append (fifth.append
    (sixth.append seventh)))))

/-! ## What goes in -/

/-- The code writes what is passed for a parameter to its place in the buffer. -/
def Packs (site : FunctionSite) (tables : Tables) (item : CallValue × UInt16)
    (fragment : Fragment) : Prop :=
  ∃ origin, site.Writes tables item.1 (item.1.place buffer) origin fragment ∧
    if item.1.binding.isByRef then
      ∃ token, origin = .behind item.2 token ∧
        (tables.Addressable → tables.type? token = some item.1.type)
    else
      origin = .argument item.2

variable {value : CallValue} {argument : UInt16} {state : MachineState}

theorem leaves_passArgument (listed : value ∈ site.values)
    (plain : value.binding.category.isPlain = true) :
    (site.passArgument value argument).Leaves fun tables fragment =>
      site.Packs tables (value, argument) fragment := by
  unfold passArgument
  dsimp only
  split
  · next byRef =>
    refine .bind (leaves_typeToken value.type) fun token => ?_
    rw [pure_bind]
    refine (leaves_write listed plain).mono fun tables fragment writes means => ?_
    exact ⟨_, writes, by rw [if_pos byRef]; exact ⟨token, rfl, means⟩⟩
  · next byValue =>
    rw [pure_bind]
    refine (leaves_write listed plain).mono fun tables fragment writes => ?_
    exact ⟨_, writes, by rw [if_neg byValue]⟩

/-- What a parameter hands over is found where the code for it looks. -/
theorem Carries.finds_incoming (carries : site.Carries machine call) (plain : site.Plain)
    (forwarding : site.Forwarding call state)
    (since : ∀ cell : Cell, cell.Before call.before.frames →
      state.cells cell = call.before.cells cell)
    (listed : (value, argument) ∈ site.arguments) {origin : ValueSource}
    (sought : if value.binding.isByRef then
        ∃ token, origin = .behind argument token ∧
          (machine.tables.Addressable → machine.tables.type? token = some value.type)
      else origin = .argument argument) :
    machine.Finds call.before.frames state origin (call.incoming value.binding) := by
  have parameter := carries.parameter listed
  have passed := (forwarding.arguments argument.toNat).trans (carries.getD_arguments listed)
  rw [plain.directed.byRef _ (carries.function ▸ parameter)] at sought
  cases kind : value.binding.type.isByRef with
  | true =>
    rw [kind, if_pos rfl] at sought passed
    rcases sought with ⟨token, rfl, means⟩
    rw [Crossing.incoming, kind, if_pos rfl]
    exact ⟨_, _, passed, means carries.addressable,
      since _ (carries.suits.typed.targets _ parameter kind)⟩
  | false =>
    rw [kind, if_neg Bool.false_ne_true] at sought passed
    subst sought
    rw [Crossing.incoming, kind, if_neg Bool.false_ne_true]
    exact passed

/-- Everything that the call hands over lies in the buffer. -/
theorem Carries.exists_packed (carries : site.Carries machine call) (plain : site.Plain)
    (served : call.Served machine site.config site.site.owner invoker) (locals : List Value)
    {writes : List Fragment}
    (packs : List.Forall₂ (site.Packs machine.tables) (site.arguments.filter (·.1.binding.isInput))
      writes) :
    ∃ packed, call.before.Extends packed ∧ packed.frames = call.before.frames + 1 ∧
      site.Forwarding call packed ∧
      (∀ parameter ∈ call.function.parameters, parameter.isInput = true →
        machine.Keeps site.config (call.form machine parameter)
          (call.buffer + call.distance parameter) (call.incoming parameter) packed.memory) ∧
      ∀ stack, machine.Passes call.before.frames writes.flatten stack (call.allocated locals) stack
        packed := by
  have since : call.before.Extends (call.allocated locals) := served.extends_allocated
  have forwarding : site.Forwarding call (call.allocated locals) := forwarding_allocated served
  have inside : ∀ item ∈ site.arguments.filter (·.1.binding.isInput), item ∈ site.arguments ∧
      item.1.binding.isInput = true := fun item listed => List.mem_filter.mp listed
  have inputs : (site.arguments.filter (·.1.binding.isInput)).map (·.1.binding) =
      call.function.parameters.filter (·.isInput) := by
    rw [carries.function, ← carries.means.bindings, List.filter_map]
    rfl
  have found : List.Forall₂ (fun item fragment => ∃ origin,
      site.Writes machine.tables item.1 (item.1.place FunctionSite.buffer) origin fragment ∧
      ∀ memory, machine.Finds call.before.frames { call.allocated locals with memory } origin
        (call.incoming item.1.binding))
      (site.arguments.filter (·.1.binding.isInput)) writes := by
    refine ((List.forall₂_and_left _ _).mpr ⟨fun _ listed => listed, packs⟩).imp ?_
    rintro item fragment ⟨listed, origin, write, sought⟩
    refine ⟨origin, write, fun memory => ?_⟩
    have changed : site.Forwarding call { call.allocated locals with memory } :=
      forwarding.congr rfl fun _ _ => rfl
    exact carries.finds_incoming plain changed since.cells (inside item listed).1 sought
  have apart := carries.suits.spreads.inputs served.fits call.incoming (·.isInput)
  rw [← inputs, List.map_map] at apart
  rcases carries.exists_written found
      (fun item listed => ⟨mem_values_of_mem_arguments (inside item listed).1,
        List.mem_append_left _ (carries.parameter (inside item listed).1)⟩)
      apart forwarding.lays (fun _ => forwarding.buffer)
      (fun item listed => carries.suits.typed.inputs _ (carries.parameter (inside item listed).1)
        (inside item listed).2) with ⟨memory, outside, stored, passes⟩
  refine ⟨{ call.allocated locals with memory }, since.write ?_, rfl,
    forwarding.congr rfl fun _ _ => rfl, ?_, passes⟩
  · refine fun place free => outside place fun item listed covers => ?_
    have bounds := carries.suits.spreads.within served.fits
      (List.mem_append_left _ (carries.parameter (inside item listed).1)) covers
    exact served.outside bounds.1 bounds.2 free
  · intro parameter listed handed
    have member : parameter ∈ call.function.parameters.filter (·.isInput) :=
      List.mem_filter.mpr ⟨listed, handed⟩
    rw [← inputs] at member
    rcases List.mem_map.mp member with ⟨item, here, rfl⟩
    exact stored item here

/-! ## The native call -/

/-- The code pushes a value and changes nothing. -/
def Pushes (code : Fragment) (machine : Machine) (frame : Nat) (state : MachineState)
    (value : Value) : Prop :=
  ∀ stack, machine.Passes frame code stack state (value :: stack) state

/-- The code pushes the object that native code is called on. -/
def PushesReceiver (site : FunctionSite) (tables : Tables) (code : Fragment) : Prop :=
  ∀ machine : Machine, machine.tables = tables → ∀ call, site.Carries machine call →
    ∀ invoker, call.Served machine site.config site.site.owner invoker →
      ∀ state, call.before.Extends state → site.Forwarding call state →
        Pushes code machine call.before.frames state (.integer call.native)

theorem leaves_receiver : site.receiver.Leaves site.PushesReceiver := by
  unfold receiver
  split
  · next this =>
    refine .bind (leaves_thisNative site.config) fun source => .pure fun tables found => ?_
    rintro machine rfl call carries invoker served state since forwarding stack
    rcases found with ⟨token, rfl, means⟩
    rcases Option.isSome_iff_exists.mp (carries.receiver.trans this) with ⟨object, given⟩
    have backs := served.receiver object given
    have first : state.cells (.argument call.before.frames 0) = .object object :=
      (forwarding.arguments 0).trans (Crossing.getD_arguments_receiver given)
    have native : state.cells (.field object site.config.nativePtr) = .integer call.native :=
      (since.cells (.field _ _) trivial).trans backs.native
    exact passes_push (finds_native means ⟨backs.lives, native⟩ first)
  · next static =>
    refine .bind (leaves_callOf site.config.getDefaultObject) fun code => .pure fun tables called => ?_
    rintro machine rfl call carries invoker served state since forwarding stack
    rcases called with ⟨token, rfl, means⟩
    have none : call.receiver = none := by
      rw [← Option.not_isSome_iff_eq_none, carries.receiver]
      exact static
    have pushed : machine.Passes call.before.frames [.loadStatic site.site.classPtr] stack state
        (_ :: stack) state :=
      passes_loadStatic ⟨_, carries.means.classPtr, congrFun since.statics _⟩
    exact pushed.append (passes_call [_] means rfl rfl (calls_of_returns (served.default none state)))

/-- The code pushes the native function. -/
def PushesCallee (site : FunctionSite) (tables : Tables) (code : Fragment) : Prop :=
  tables.strings.length ≤ 2 ^ 32 → ∀ machine : Machine, machine.tables = tables →
    ∀ call, site.Carries machine call →
      ∀ invoker, call.Served machine site.config site.site.owner invoker →
        ∀ state, call.before.Extends state → site.Forwarding call state →
          Pushes code machine call.before.frames state call.handle

theorem leaves_callee : site.callee.Leaves site.PushesCallee := by
  unfold callee
  split
  · next event =>
    rw [Bool.and_eq_true] at event
    refine .bind (leaves_member site.config.resolveFunctionOnInstance) fun token => ?_
    refine .bind (leaves_text site.function.nativeName) fun name => .pure ?_
    rintro tables ⟨index, rfl, named⟩ means short machine rfl call carries invoker served state since
      forwarding stack
    rcases Option.isSome_iff_exists.mp (carries.receiver.trans event.1) with ⟨object, given⟩
    have first : machine.Passes call.before.frames [.loadArg 0] stack state (.object object :: stack)
        state := passes_loadArg
      ((forwarding.arguments 0).trans (Crossing.getD_arguments_receiver given))
    have second : machine.Passes call.before.frames [.constString index] (.object object :: stack)
        state (.text site.function.nativeName :: .object object :: stack) state :=
      passes_constString (named short)
    have resolved := served.event object given (carries.function ▸ event.2) state
    rw [carries.function] at resolved
    exact first.append (second.append (passes_call [.object object, .text _] means rfl rfl
      (calls_of_returns resolved)))
  · next direct =>
    refine .pure fun tables _ => ?_
    rintro machine rfl call carries invoker served state since forwarding stack
    rw [← carries.receiver, ← carries.function, Bool.not_eq_true] at direct
    have held := served.handle direct
    rw [carries.function] at held
    exact passes_loadStatic ⟨_, carries.means.handle, (congrFun since.statics _).trans held⟩

/-- Native code has the invoker work on the buffer, and leaves what the caller knows alone. -/
theorem exists_invoked {invoker : Body}
    (served : call.Served machine site.config site.site.owner invoker)
    (invoked : call.InvokedBy machine site.config site.site.owner invoker) {token : UInt32}
    (means : machine.tables.member? token = some site.config.invokeNativeFunction)
    (since : call.before.Extends state) (frames : state.frames = call.before.frames + 1)
    (forwarding : site.Forwarding call state)
    (packed : ∀ parameter ∈ call.function.parameters, parameter.isInput = true →
      machine.Keeps site.config (call.form machine parameter)
        (call.buffer + call.distance parameter) (call.incoming parameter) state.memory) :
    ∃ done, site.Forwarding call done ∧
      (∀ value ∈ call.outputs, machine.Keeps site.config (call.form machine value)
        (call.buffer + call.distance value) (call.outcome value) done.memory) ∧
      ∀ stack, machine.Passes call.before.frames [.call token]
        (.integer call.buffer :: call.handle :: .integer call.native :: stack) state stack done := by
  rcases served.invokes with ⟨returned, there, answered⟩
  rcases invoked state call.buffer returned served.fits there since forwarding.lays packed with
    ⟨done, runs, keeps, cells, lays⟩
  have own : ∀ cell : Cell, ¬ cell.Before call.before.frames → cell.Before state.frames →
      done.cells cell = state.cells cell := cells
  rw [frames] at own
  refine ⟨done, ⟨fun index => ?_, ?_, lays⟩, keeps, fun stack => ?_⟩
  · exact (own (.argument _ _) (Nat.lt_irrefl _) (Nat.lt_succ_self _)).trans
      (forwarding.arguments index)
  · exact (own (.localVariable _ _) (Nat.lt_irrefl _) (Nat.lt_succ_self _)).trans forwarding.buffer
  · exact passes_call [.integer call.native, call.handle, .integer call.buffer] means rfl rfl
      (calls_of_runs (answered state) runs)

/-! ## What comes out -/

/-- The code puts what has become of a parameter into the variable that was passed for it. -/
def Unloads (site : FunctionSite) (tables : Tables) (item : CallValue × UInt16)
    (fragment : Fragment) : Prop :=
  ∀ machine : Machine, machine.tables = tables → ∀ call, site.Carries machine call →
    item ∈ site.arguments → item.1.binding.type.isByRef = true →
      ∀ state, site.Forwarding call state →
        machine.Keeps site.config (call.form machine item.1.binding)
          (call.buffer + call.distance item.1.binding) (call.outcome item.1.binding) state.memory →
          fragment.Assigns machine call.before.frames state (·.Before call.before.frames)
            (call.target item.1.binding, call.outcome item.1.binding)

theorem leaves_returnArgument (listed : value ∈ site.values)
    (plain : value.binding.category.isPlain = true) :
    (site.returnArgument value argument).Leaves fun tables fragment =>
      site.Unloads tables (value, argument) fragment := by
  unfold returnArgument
  refine .bind (leaves_typeToken value.type) fun token => ?_
  refine .bind (leaves_read listed plain) fun read => .pure fun tables reads means => ?_
  rintro machine rfl call carries inside byRef state forwarding keeps cells still stack
  have changed : site.Forwarding call { state with cells } :=
    forwarding.congr rfl fun cell new => still cell new
  have passed := (changed.arguments argument.toNat).trans (carries.getD_arguments inside)
  rw [byRef, if_pos rfl] at passed
  have first : machine.Passes call.before.frames [.loadArg argument] stack { state with cells }
      (.reference (call.target value.binding) :: stack) { state with cells } := passes_loadArg passed
  have second := reads machine rfl call carries
    (List.mem_append_left _ (carries.parameter inside)) call.before.frames { state with cells }
    call.buffer (call.outcome value.binding) changed.buffer changed.lays keeps
    (.reference (call.target value.binding) :: stack)
  have third : machine.Passes call.before.frames [.storeObject token]
      (call.outcome value.binding :: .reference (call.target value.binding) :: stack)
      { state with cells } stack
      (({ state with cells } : MachineState).setVariable (call.target value.binding)
        (call.outcome value.binding)) := by
    refine passes_of_perform fun call => ?_
    simp only [perform, Instr.storeObject, means carries.addressable, performType,
      Option.bind_eq_bind, Option.bind_some]
  have whole := first.append (second.append third)
  exact Passes.concat (by simpa only [List.flatten_cons, List.flatten_nil, List.append_nil,
    List.append_assoc] using whole)

/-- What the caller puts into the variables that were passed by reference. -/
def unloading (site : FunctionSite) (call : Crossing) : List (Cell × Value) :=
  (site.arguments.filter (·.1.binding.isByRef)).map fun item =>
    (call.target item.1.binding, call.outcome item.1.binding)

/-- The parameters that are written back are those of reference types. -/
theorem Carries.outputs (carries : site.Carries machine call) (plain : site.Plain) :
    (site.arguments.filter (·.1.binding.isByRef)).map (·.1.binding) =
      call.function.parameters.filter (·.type.isByRef) := by
  rw [carries.function, ← List.filter_congr plain.directed.byRef, ← carries.means.bindings,
    List.filter_map]
  rfl

theorem Carries.mem_outputs (carries : site.Carries machine call) (plain : site.Plain)
    {item : CallValue × UInt16} (listed : item ∈ site.arguments.filter (·.1.binding.isByRef)) :
    item.1.binding ∈ call.function.parameters ∧ item.1.binding.type.isByRef = true := by
  have inside := List.mem_map_of_mem (f := fun item : CallValue × UInt16 => item.1.binding) listed
  rw [carries.outputs plain] at inside
  exact List.mem_filter.mp inside

/-- Only variables that there were before the call are written to. -/
theorem Carries.unloading_before (carries : site.Carries machine call) (plain : site.Plain)
    (setting : Cell × Value) (listed : setting ∈ site.unloading call) :
    setting.1.Before call.before.frames := by
  rcases List.mem_map.mp listed with ⟨item, inside, rfl⟩
  rcases carries.mem_outputs plain inside with ⟨parameter, byRef⟩
  exact carries.suits.typed.targets _ parameter byRef

theorem Carries.unloading_cells (carries : site.Carries machine call) (plain : site.Plain)
    {cell : Cell} (new : ¬ cell.Before call.before.frames) :
    (state.assign (site.unloading call)).cells cell = state.cells cell :=
  MachineState.assign_cells_of_ne fun setting listed same =>
    new (same ▸ carries.unloading_before plain setting listed)

/-- What a variable gets for one parameter stays there if others that refer to it leave the same. -/
theorem Carries.unloading_target (carries : site.Carries machine call) (plain : site.Plain)
    {parameter : MemberBinding} (listed : parameter ∈ call.function.parameters)
    (byRef : parameter.type.isByRef = true)
    (alike : ∀ other ∈ call.function.parameters, other.type.isByRef = true →
      call.target other = call.target parameter → call.outcome other = call.outcome parameter) :
    (state.assign (site.unloading call)).cells (call.target parameter) = call.outcome parameter := by
  have member : parameter ∈ call.function.parameters.filter (·.type.isByRef) :=
    List.mem_filter.mpr ⟨listed, byRef⟩
  rw [← carries.outputs plain] at member
  rcases List.mem_map.mp member with ⟨item, inside, rfl⟩
  refine MachineState.assign_cells_of_mem (List.mem_map_of_mem inside) ?_
  refine List.forall_mem_map.mpr fun other there same => ?_
  rcases carries.mem_outputs plain there with ⟨also, reference⟩
  exact alike _ also reference same

theorem Carries.passes_unloading (carries : site.Carries machine call) (plain : site.Plain)
    {fragments : List Fragment}
    (unloads : List.Forall₂ (site.Unloads machine.tables)
      (site.arguments.filter (·.1.binding.isByRef)) fragments)
    (forwarding : site.Forwarding call state)
    (keeps : ∀ value ∈ call.outputs, machine.Keeps site.config (call.form machine value)
      (call.buffer + call.distance value) (call.outcome value) state.memory) (stack : List Value) :
    machine.Passes call.before.frames fragments.flatten stack state stack
      (state.assign (site.unloading call)) := by
  refine passes_assigning (·.Before call.before.frames) ?_ (carries.unloading_before plain) stack
  rw [unloading, List.forall₂_map_left_iff]
  refine ((List.forall₂_and_left _ _).mpr ⟨fun _ inside => inside, unloads⟩).imp ?_
  rintro item fragment ⟨inside, unload⟩
  rcases carries.mem_outputs plain inside with ⟨parameter, byRef⟩
  have listed : item.1.binding ∈ call.outputs :=
    List.mem_append_right _ (List.mem_filter.mpr ⟨parameter, byRef⟩)
  exact unload machine rfl call carries (List.mem_filter.mp inside).1 byRef state forwarding
    (keeps _ listed)

/-- The code takes what is returned from the buffer, and keeps it in a variable. -/
def KeepsResult (site : FunctionSite) (tables : Tables) (code : Fragment) : Prop :=
  ∀ machine : Machine, machine.tables = tables → ∀ call, site.Carries machine call →
    ∀ state, site.Forwarding call state →
      (∀ value ∈ call.function.result, machine.Keeps site.config (call.form machine value)
        (call.buffer + call.distance value) (call.outcome value) state.memory) →
      ∃ done : MachineState,
        (∀ stack, machine.Passes call.before.frames code stack state stack done) ∧
        (∀ cell, cell ≠ .localVariable call.before.frames 1 → done.cells cell = state.cells cell) ∧
        ∀ value ∈ call.function.result,
          done.cells (.localVariable call.before.frames 1) = call.outcome value

theorem leaves_keepResult (plain : site.Plain) : site.keepResult.Leaves site.KeepsResult := by
  unfold keepResult
  split
  · next nothing =>
    refine .pure fun tables => ?_
    rintro machine rfl call carries state forwarding keeps
    have none : call.function.result = none := by
      rw [carries.function, ← carries.means.result, nothing]
      rfl
    refine ⟨state, fun stack => .nil, fun _ _ => rfl, fun value listed => ?_⟩
    rw [none] at listed
    cases listed
  · next value found =>
    have listed := mem_values_of_result? found
    refine .bind (leaves_read listed (plain.values value listed)) fun read => .pure ?_
    rintro tables reads machine rfl call carries state forwarding keeps
    have some' : call.function.result = some value.binding := by
      rw [carries.function, ← carries.means.result, found]
      rfl
    have inside : value.binding ∈ call.function.values :=
      List.mem_append_right _ (by rw [some']; exact List.mem_singleton_self _)
    let done := state.setVariable (.localVariable call.before.frames 1) (call.outcome value.binding)
    refine ⟨done, fun stack => ?_, fun cell other => MachineState.setVariable_cells_of_ne other,
      fun other same => ?_⟩
    · have pushed := reads machine rfl call carries inside call.before.frames state call.buffer
        (call.outcome value.binding) forwarding.buffer forwarding.lays (keeps _ some') stack
      have stored : machine.Passes call.before.frames [.storeLocal 1]
          (call.outcome value.binding :: stack) state stack done := passes_of_perform fun _ => rfl
      exact (pushed.append stored).concat
    · cases some'.symm.trans same
      exact state.setVariable_cells_self _ _

/-! ## The whole -/

/-- Nothing of a plain value has to be released. -/
theorem Plain.owning (plain : site.Plain) :
    site.values.filter (·.binding.category.needsCleanup) = [] := by
  refine List.filter_eq_nil_iff.mpr fun value listed => ?_
  have kind := plain.values value listed
  cases same : value.binding.category <;> rw [same] at kind <;>
    first | exact Bool.false_ne_true | cases kind

theorem forAll_nil {Item : Type} (emit : Item → Emit Fragment) : forAll [] emit = pure [] := by
  rw [forAll, List.mapM_nil, pure_bind]
  rfl

/-- The caller ends with what is returned on the stack. -/
theorem Carries.passes_result (carries : site.Carries machine call)
    (held : ∀ value ∈ call.function.result,
      state.cells (.localVariable call.before.frames 1) = call.outcome value) :
    machine.Passes call.before.frames (site.result?.map fun _ => Instr.loadLocal 1).toList [] state
      call.result.toList state := by
  have kind := carries.means.result
  rw [← carries.function] at kind
  rw [Crossing.result]
  cases found : site.result? with
  | none =>
    rw [found] at kind
    rw [← kind]
    exact .nil
  | some value =>
    rw [found] at kind
    rw [← kind] at held ⊢
    change machine.Passes _ [.loadLocal 1] [] state [call.outcome value.binding] state
    rw [← held value.binding rfl]
    exact passes_of_perform fun _ => rfl

/-- The code finds the receiver alive, if there is one. -/
def Checks (site : FunctionSite) (tables : Tables) (live : Fragment) : Prop :=
  ∀ machine : Machine, machine.tables = tables → ∀ call, site.Carries machine call →
    ∀ invoker, call.Served machine site.config site.site.owner invoker →
      ∀ state : MachineState,
        state.cells (.argument call.before.frames 0) = call.arguments.getD 0 .null →
          ∀ stack, machine.Passes call.before.frames live stack state stack state

theorem leaves_checks (this : site.hasThis = true) :
    (liveness site.config).Leaves site.Checks := by
  refine (leaves_liveness site.config).mono fun tables live lives => ?_
  rintro machine rfl call carries invoker served state argument stack
  rcases Option.isSome_iff_exists.mp (carries.receiver.trans this) with ⟨object, given⟩
  have receiver := argument.trans (Crossing.getD_arguments_receiver given)
  exact lives machine rfl _ state object receiver (served.receiver object given).lives stack

/-- The parts of the caller, run one after the other. -/
theorem Carries.called (carries : site.Carries machine call) (plain : site.Plain)
    (short : machine.tables.strings.length ≤ 2 ^ 32) {invoker : Body}
    (served : call.Served machine site.config site.site.owner invoker)
    (invoked : call.InvokedBy machine site.config site.site.owner invoker)
    {live receiver callee kept : Fragment} {passed returned : List Fragment} {token : UInt32}
    (checks : site.Checks machine.tables live)
    (packs : List.Forall₂ (site.Packs machine.tables) (site.arguments.filter (·.1.binding.isInput))
      passed)
    (receives : site.PushesReceiver machine.tables receiver)
    (calls : site.PushesCallee machine.tables callee)
    (means : machine.tables.member? token = some site.config.invokeNativeFunction)
    (unloads : List.Forall₂ (site.Unloads machine.tables)
      (site.arguments.filter (·.1.binding.isByRef)) returned)
    (keeps : site.KeepsResult machine.tables kept) :
    call.CalledBy machine (({ instrs := Fragment.concat [live, site.allocate,
      Fragment.concat passed, receiver, callee, [.loadLocal 0], [.call token],
      Fragment.concat returned, kept, [], (site.result?.map fun _ => Instr.loadLocal 1).toList,
      [.ret]] } : Code).toBody (.intPtr :: (site.result?.map (·.type)).toList)) := by
  let locals := (Signature.intPtr :: (site.result?.map (·.type)).toList).map machine.initial
  let entered := call.before.enter call.arguments locals
  have checked : machine.Passes call.before.frames live [] entered [] entered :=
    checks machine rfl call carries invoker served entered (call.before.enter_argument _ _ 0) []
  have reserved : machine.Passes call.before.frames site.allocate [] entered []
      (call.allocated locals) := carries.passes_allocate served []
  rcases carries.exists_packed plain served locals packs with
    ⟨packed, since, frames, forwarding, stored, packing⟩
  have pushed : machine.Passes call.before.frames (receiver ++ (callee ++ [.loadLocal 0])) [] packed
      [.integer call.buffer, call.handle, .integer call.native] packed := by
    have first := receives machine rfl call carries invoker served packed since forwarding []
    have second := calls short machine rfl call carries invoker served packed since forwarding
      [.integer call.native]
    have third : machine.Passes call.before.frames [.loadLocal 0]
        [call.handle, .integer call.native] packed
        [.integer call.buffer, call.handle, .integer call.native] packed :=
      passes_of_perform fun _ => forwarding.buffer ▸ rfl
    exact first.append (second.append third)
  rcases exists_invoked served invoked means since frames forwarding stored with
    ⟨done, forwarding, outputs, answered⟩
  have unloaded := carries.passes_unloading plain unloads forwarding outputs []
  have statics : (done.assign (site.unloading call)).statics = done.statics := by
    rw [MachineState.assign_eq]
  have memory : (done.assign (site.unloading call)).memory = done.memory := by
    rw [MachineState.assign_eq]
  have after : site.Forwarding call (done.assign (site.unloading call)) :=
    forwarding.congr statics fun _ new => carries.unloading_cells plain new
  rcases keeps machine rfl call carries _ after fun value listed => memory ▸
      outputs value (List.mem_append_left _ (Option.mem_toList.mpr listed)) with
    ⟨final, keeping, others, held⟩
  have whole := checked.append (reserved.append ((packing []).concat.append (pushed.append
    ((answered []).append (unloaded.concat.append ((keeping []).append
      (carries.passes_result held)))))))
  have passes : machine.Passes call.before.frames [live, site.allocate, Fragment.concat passed,
      receiver, callee, [.loadLocal 0], [.call token], Fragment.concat returned, kept,
      [], (site.result?.map fun _ => Instr.loadLocal 1).toList].flatten [] entered
      call.result.toList final := by
    simpa only [List.flatten_cons, List.flatten_nil, List.append_nil, List.nil_append,
      List.append_assoc] using whole
  refine ⟨final, ?_, fun parameter listed byRef alike => ?_⟩
  · have runs := runs_of_passes_concat _ (.intPtr :: (site.result?.map (·.type)).toList) passes
    rwa [Option.head?_toList] at runs
  · have target := carries.suits.typed.targets parameter listed byRef
    refine (others _ fun same => ?_).trans (carries.unloading_target plain listed byRef alike)
    exact Nat.lt_irrefl _ (same ▸ target : (Cell.localVariable _ _).Before call.before.frames)

/-- The caller of a function with plain values does what a call asks of it, if the invoker does. -/
theorem leaves_callerBody (plain : site.Plain) : site.callerBody.Leaves fun tables body =>
    tables.strings.length ≤ 2 ^ 32 → ∀ machine : Machine, machine.tables = tables →
      ∀ call, site.Carries machine call → ∀ invoker,
        call.Served machine site.config site.site.owner invoker →
          call.InvokedBy machine site.config site.site.owner invoker →
            call.CalledBy machine body := by
  have listed : ∀ {chosen : CallValue × UInt16 → Bool}, ∀ item ∈ site.arguments.filter chosen,
      item.1 ∈ site.values := fun item inside =>
    mem_values_of_mem_arguments (List.mem_filter.mp inside).1
  have nothing : (pure [] : Emit Fragment).Leaves site.Checks :=
    .pure fun _ _ _ _ _ _ _ _ _ _ => .nil
  unfold callerBody
  rw [plain.owning]
  split
  case' isTrue this => refine .bind (leaves_checks this) fun live => ?_
  case' isFalse => refine .bind nothing fun live => ?_
  all_goals
    refine .bind (leaves_forAll fun item inside => leaves_passArgument (listed item inside)
      (plain.values _ (listed item inside))) fun passed => ?_
    refine .bind leaves_receiver fun receiver => .bind leaves_callee fun callee => ?_
    refine .bind (leaves_callOf site.config.invokeNativeFunction) fun invoke => ?_
    refine .bind (leaves_forAll fun item inside => leaves_returnArgument (listed item inside)
      (plain.values _ (listed item inside))) fun returned => ?_
    refine .bind (leaves_keepResult plain) fun kept => ?_
    dsimp only
    rw [forAll_nil, pure_bind]
    refine .pure ?_
    rintro tables keeps ⟨returns, rfl, unloads⟩ ⟨token, rfl, means⟩ calls receives
      ⟨writes, rfl, packs⟩ checks short machine rfl call carries invoker served invoked
    exact carries.called plain short served invoked checks packs receives calls means unloads keeps

end FunctionSite

end NativeWeave
