import NativeWeave.Proofs.Machine.Copying

namespace NativeWeave

/-!
# Calls across the boundary

A call of an exposed function hands over what is passed for the parameters, and gets back what is
returned and what has become of parameters that are passed by reference.  All of these values have
places in one buffer.  On the other side, new variables stand in for those that are passed by
reference, so that the code of the function only sees the variables themselves if it knows them from
elsewhere.
-/

/-! ## What frames leave alone -/

namespace MachineState

/-- What has happened since has touched neither variables nor memory that were there before, nor static
fields. -/
structure Extends (state later : MachineState) : Prop where
  frames : state.frames ≤ later.frames
  extent : state.extent ≤ later.extent
  cells : ∀ cell : Cell, cell.Before state.frames → later.cells cell = state.cells cell
  statics : later.statics = state.statics
  memory : later.memory.AgreesOn state.memory fun place =>
    place.toNat < state.extent ∨ later.extent ≤ place.toNat

namespace Extends

variable {state later : MachineState}

theorem refl (state : MachineState) : state.Extends state :=
  ⟨Nat.le_refl _, Nat.le_refl _, fun _ _ => rfl, rfl, fun _ _ => rfl⟩

theorem enter (extends' : state.Extends later) (arguments locals : List Value) :
    state.Extends (later.enter arguments locals) where
  frames := Nat.le_succ_of_le extends'.frames
  extent := extends'.extent
  cells cell before := by
    refine Eq.trans ?_ (extends'.cells cell before)
    cases cell with
    | argument frame index | localVariable frame index =>
      exact if_neg (Nat.ne_of_lt (Nat.lt_of_lt_of_le before extends'.frames))
    | field object member => rfl
  statics := extends'.statics
  memory := extends'.memory

theorem setVariable (extends' : state.Extends later) {cell : Cell} (value : Value)
    (fresh : ¬ cell.Before state.frames) : state.Extends (later.setVariable cell value) where
  frames := extends'.frames
  extent := extends'.extent
  cells other before := by
    have apart : other ≠ cell := fun same => fresh (same ▸ before)
    exact (setVariable_cells_of_ne apart).trans (extends'.cells other before)
  statics := extends'.statics
  memory := extends'.memory

theorem assign (extends' : state.Extends later) {settings : List (Cell × Value)}
    (fresh : ∀ setting ∈ settings, ¬ setting.1.Before state.frames) :
    state.Extends (later.assign settings) := by
  induction settings generalizing later with
  | nil => exact extends'
  | cons setting more ih =>
    rw [List.forall_mem_cons] at fresh
    exact ih (extends'.setVariable setting.2 fresh.1) fresh.2

theorem allocate (extends' : state.Extends later) (count : Nat) :
    state.Extends { later with extent := later.extent + count } where
  frames := extends'.frames
  extent := Nat.le_add_right_of_le extends'.extent
  cells := extends'.cells
  statics := extends'.statics
  memory place outside := extends'.memory place (outside.imp id (Nat.le_trans (Nat.le_add_right _ _)))

/-- New memory can be written. -/
theorem write (extends' : state.Extends later) {memory : NativeMemory}
    (agrees : memory.AgreesOn later.memory fun place =>
      place.toNat < state.extent ∨ later.extent ≤ place.toNat) :
    state.Extends { later with memory } where
  frames := extends'.frames
  extent := extends'.extent
  cells := extends'.cells
  statics := extends'.statics
  memory place outside := (agrees place outside).trans (extends'.memory place outside)

end Extends

end MachineState

/-! ## Calls -/

/-- A call of an exposed function: what goes in, what comes out, and where it lies in a buffer. -/
structure Crossing where
  function : FunctionBinding
  /-- The state in which the function is called. -/
  before : MachineState
  /-- The object that the function is called on.  Static functions have none. -/
  receiver : Option Nat
  /-- What is passed for a parameter that is passed by value. -/
  given : MemberBinding → Value
  /-- The variable of the caller that a parameter refers to which is passed by reference. -/
  target : MemberBinding → Cell
  /-- What such a variable holds afterwards, and what is returned. -/
  outcome : MemberBinding → Value
  /-- The native instance of the object, or the object that stands for the class. -/
  native : Address
  /-- The native function. -/
  handle : Value
  /-- How many bytes the buffer has. -/
  size : Address
  /-- How far from the start of the buffer a value lies. -/
  distance : MemberBinding → Address
  /-- How many bytes a truth value takes. -/
  width : MemberBinding → Address

namespace Crossing

def receivers (call : Crossing) : List Value :=
  call.receiver.toList.map .object

/-- What the caller passes. -/
def arguments (call : Crossing) : List Value :=
  call.receivers ++ call.function.parameters.map fun parameter =>
    if parameter.type.isByRef then .reference (call.target parameter) else call.given parameter

/-- What a parameter hands over. -/
def incoming (call : Crossing) (parameter : MemberBinding) : Value :=
  if parameter.type.isByRef then call.before.cells (call.target parameter)
  else call.given parameter

/-- What the caller gets back. -/
def result (call : Crossing) : Option Value :=
  call.function.result.map call.outcome

/-- What is passed when the variables of a frame stand in for those that are passed by reference. -/
def standIns (call : Crossing) (frame : Nat) : List Value :=
  call.function.parameters.zipIdx.map fun (parameter, index) =>
    if parameter.type.isByRef then .reference (.localVariable frame index)
    else call.given parameter

/-- What is returned and what is written back. -/
def outputs (call : Crossing) : List MemberBinding :=
  call.function.result.toList ++ call.function.parameters.filter (·.type.isByRef)

/-- How a value lies in the buffer. -/
def form (call : Crossing) (machine : Machine) (value : MemberBinding) : Form :=
  value.form machine (call.width value)

/-- A value at its place in a buffer. -/
def deposit (call : Crossing) (machine : Machine) (buffer : Address) (value : MemberBinding)
    (content : Value) : Deposit :=
  ⟨call.form machine value, buffer + call.distance value, content⟩

/-- The static fields of the function say where its values lie. -/
def Lays (call : Crossing) (owner : Signature) (state : MachineState) : Prop :=
  ∀ value ∈ call.function.values,
    state.Lays owner (Naming.parameterSlots call.function.name value.name) value.category
      (call.distance value) (call.width value)

/-- Each value has bytes of its own in the buffer. -/
structure Spreads (call : Crossing) (machine : Machine) : Prop where
  inside : ∀ value ∈ call.function.values,
    (call.distance value).toNat + (call.form machine value).size ≤ call.size.toNat
  apart : call.function.values.Pairwise fun first second =>
    (call.distance first).toNat + (call.form machine first).size ≤ (call.distance second).toNat ∨
    (call.distance second).toNat + (call.form machine second).size ≤ (call.distance first).toNat

/-- What goes in and what comes out is in the range of the parameters and the return value, and the
variables that are passed by reference are not those of a frame to come. -/
structure Typed (call : Crossing) (machine : Machine) : Prop where
  targets : ∀ parameter ∈ call.function.parameters, parameter.type.isByRef = true →
    (call.target parameter).Before call.before.frames
  inputs : ∀ parameter ∈ call.function.parameters, parameter.isInput = true →
    (call.form machine parameter).Holds (call.incoming parameter)
  outputs : ∀ value ∈ call.outputs, (call.form machine value).Holds (call.outcome value)

/-- The code of the function works on the variables that it is handed through its parameters only: with
new variables of a frame in their places, which hold the same if it takes what they hold, it returns
the same and leaves the same in them.  It keeps off other variables of frames that have begun since,
and off the static fields of the function. -/
def Transparent (call : Crossing) (machine : Machine) (owner : Signature)
    (implementation : MemberRef) : Prop :=
  ∀ (later : MachineState) (frame : Nat), call.before.Extends later → call.before.frames ≤ frame →
    frame < later.frames →
    (∀ index parameter, call.function.parameters[index]? = some parameter →
      parameter.type.isByRef = true → parameter.isInput = true →
        later.cells (.localVariable frame index) = call.incoming parameter) →
    ∃ final : MachineState,
      machine.Calls implementation (call.receivers ++ call.standIns frame) later call.result final ∧
      (∀ index parameter, call.function.parameters[index]? = some parameter →
        parameter.type.isByRef = true →
          final.cells (.localVariable frame index) = call.outcome parameter) ∧
      (∀ cell : Cell, ¬ cell.Before call.before.frames → cell.Before later.frames →
        (∀ index, cell ≠ .localVariable frame index) → final.cells cell = later.cells cell) ∧
      call.Lays owner final

/-- The call can be made by way of native memory. -/
structure Suits (call : Crossing) (machine : Machine) (config : Config) (owner : Signature)
    (implementation : MemberRef) : Prop where
  spreads : call.Spreads machine
  typed : call.Typed machine
  transparent : call.Transparent machine owner implementation
  marshals : ∀ value ∈ call.function.values, value.category.needsWidth = true →
    machine.MarshalsTruths config (call.width value)
  /-- The object is one of the class itself, so that a virtual call arrives at its own code. -/
  actual : ∀ passed, machine.actual implementation passed = implementation

end Crossing

/-! ## Places in the buffer -/

/-- Addresses of a block that does not go past the end of memory are those from its start on. -/
theorem Address.Covers.bounds {start place : Address} {count : Nat}
    (inside : start.Covers count place) (fits : start.toNat + count ≤ 2 ^ 64) :
    start.toNat ≤ place.toNat ∧ place.toNat < start.toNat + count := by
  have offset := BitVec.toNat_sub place start
  have low := start.isLt
  have high := place.isLt
  unfold Address.Covers at inside
  omega

theorem Deposit.Apart.symm {first second : Deposit} (apart : first.Apart second) :
    second.Apart first :=
  fun place inside also => apart place also inside

namespace Crossing

variable {call : Crossing} {machine : Machine} {buffer : Address} {value : MemberBinding}

theorem Lays.congr {owner : Signature} {state later : MachineState} (lays : call.Lays owner state)
    (statics : later.statics = state.statics) : call.Lays owner later := fun value listed =>
  ⟨statics ▸ (lays value listed).offset, fun needed => statics ▸ (lays value listed).width needed⟩

namespace Spreads

/-- A value lies at its distance from the start of the buffer. -/
theorem bounds (spreads : call.Spreads machine) (fits : buffer.toNat + call.size.toNat ≤ 2 ^ 64)
    (listed : value ∈ call.function.values) {content : Value} {place : Address}
    (inside : (call.deposit machine buffer value content).Covers place) :
    buffer.toNat + (call.distance value).toNat ≤ place.toNat ∧
      place.toNat < buffer.toNat + (call.distance value).toNat + (call.form machine value).size := by
  have within := spreads.inside value listed
  have start := BitVec.toNat_add buffer (call.distance value)
  have something : 0 < (call.form machine value).size := Nat.lt_of_le_of_lt (Nat.zero_le _) inside
  rw [Nat.mod_eq_of_lt (by omega)] at start
  have short : (buffer + call.distance value).toNat + (call.form machine value).size ≤ 2 ^ 64 := by
    omega
  have bounds := Address.Covers.bounds inside short
  change (buffer + _).toNat ≤ _ ∧ _ < (buffer + _).toNat + _ at bounds
  rwa [start] at bounds

theorem within (spreads : call.Spreads machine) (fits : buffer.toNat + call.size.toNat ≤ 2 ^ 64)
    (listed : value ∈ call.function.values) {content : Value} {place : Address}
    (inside : (call.deposit machine buffer value content).Covers place) :
    buffer.toNat ≤ place.toNat ∧ place.toNat < buffer.toNat + call.size.toNat := by
  have bounds := spreads.bounds fits listed inside
  have room := spreads.inside value listed
  omega

/-- Values of a call are apart from each other in the buffer, whatever they are. -/
theorem deposits (spreads : call.Spreads machine) (fits : buffer.toNat + call.size.toNat ≤ 2 ^ 64)
    (content : MemberBinding → Value) :
    (call.function.values.map fun value =>
      call.deposit machine buffer value (content value)).Pairwise Deposit.Apart := by
  rw [List.pairwise_map]
  refine spreads.apart.imp_of_mem fun {first second} here there apart place inside also => ?_
  have one := spreads.bounds fits here inside
  have other := spreads.bounds fits there also
  omega

/-- So are the values of some of the parameters. -/
theorem inputs (spreads : call.Spreads machine) (fits : buffer.toNat + call.size.toNat ≤ 2 ^ 64)
    (content : MemberBinding → Value) (chosen : MemberBinding → Bool) :
    ((call.function.parameters.filter chosen).map fun value =>
      call.deposit machine buffer value (content value)).Pairwise Deposit.Apart :=
  (spreads.deposits fits content).sublist
    ((List.filter_sublist.trans (List.sublist_append_left _ _)).map _)

/-- So are the values that come out. -/
theorem outputs (spreads : call.Spreads machine) (fits : buffer.toNat + call.size.toNat ≤ 2 ^ 64) :
    (call.outputs.map fun value =>
      call.deposit machine buffer value (call.outcome value)).Pairwise Deposit.Apart := by
  have all := spreads.deposits fits call.outcome
  rw [FunctionBinding.values, List.map_append, List.pairwise_append_comm Deposit.Apart.symm,
    ← List.map_append] at all
  exact all.sublist ((List.Sublist.append_left List.filter_sublist _).map _)

end Spreads

end Crossing

/-! ## Code for calls -/

/-- The flags of the parameters follow from their types: those of reference types are written back, and
all others are handed over. -/
structure FunctionBinding.Directed (function : FunctionBinding) : Prop where
  byRef : ∀ parameter ∈ function.parameters, parameter.isByRef = parameter.type.isByRef
  input : ∀ parameter ∈ function.parameters, parameter.type.isByRef = false →
    parameter.isInput = true

namespace FunctionSite

/-- How many arguments stand in front of those for parameters. -/
def shift (site : FunctionSite) : Nat :=
  if site.hasThis then 1 else 0

/-- The member that has the code of the function. -/
def implementation (site : FunctionSite) : MemberRef :=
  ⟨site.site.owner, Naming.implementation site.function.name, .method site.method.signature⟩

/-- The tokens of the site mean the static fields of the function, and its values are those of the
function, in order. -/
structure Means (site : FunctionSite) (tables : Tables) : Prop where
  arguments : site.arguments.map (fun item => (item.1.binding, item.2.toNat)) =
    site.function.parameters.zipIdx site.shift
  result : site.result?.map (·.binding) = site.function.result
  names : ∀ value ∈ site.values, value.slots.Names tables site.site.owner
    (Naming.parameterSlots site.function.name value.binding.name) value.binding.category
  classPtr : tables.member? site.site.classPtr =
    some (.staticField site.site.owner Naming.nativeClassPtr .intPtr)
  handle : tables.member? site.handle =
    some (.staticField site.site.owner (Naming.functionSlot site.function.name) .intPtr)
  size : tables.member? site.size =
    some (.staticField site.site.owner (Naming.parametersSizeSlot site.function.name) .i32)

/-- The call is one of the function of the site, and the machine can make it. -/
structure Carries (site : FunctionSite) (machine : Machine) (call : Crossing) : Prop where
  addressable : machine.tables.Addressable
  means : site.Means machine.tables
  function : call.function = site.function
  receiver : call.receiver.isSome = site.hasThis
  suits : call.Suits machine site.config site.site.owner site.implementation

namespace Means

variable {site : FunctionSite} {tables : Tables} {value : CallValue} {argument index : UInt16}

/-- The argument of a parameter stands behind the receiver. -/
theorem parameter (means : site.Means tables) (listed : (value, argument) ∈ site.arguments) :
    ∃ index, argument.toNat = site.shift + index ∧
      site.function.parameters[index]? = some value.binding := by
  have inside := List.mem_map_of_mem (f := fun item : CallValue × UInt16 =>
    (item.1.binding, item.2.toNat)) listed
  rw [means.arguments, List.mem_zipIdx_iff_le_and_getElem?_sub] at inside
  exact ⟨argument.toNat - site.shift, (Nat.add_sub_cancel' inside.1).symm, inside.2⟩

theorem bindings (means : site.Means tables) :
    site.arguments.map (·.1.binding) = site.function.parameters := by
  have firsts := congrArg (List.map Prod.fst) means.arguments
  rwa [List.map_map, List.zipIdx_map_fst] at firsts

theorem length_arguments (means : site.Means tables) :
    site.arguments.length = site.function.parameters.length := by
  rw [← means.bindings, List.length_map]

/-- The local variables of the invoker are those of the parameters, in order. -/
theorem unpacked (means : site.Means tables) (short : site.arguments.length ≤ 65536) :
    site.unpacked.map (fun item => (item.1.binding, item.2.toNat)) =
      site.function.parameters.zipIdx := by
  rw [← means.bindings, List.zipIdx_map, FunctionSite.unpacked, List.map_map]
  refine List.map_congr_left fun item listed => ?_
  have place := List.snd_lt_of_mem_zipIdx listed
  change (item.1.1.binding, (UInt16.ofNat item.2).toNat) = (item.1.1.binding, item.2)
  rw [UInt16.toNat_ofNat_of_lt' (Nat.lt_of_lt_of_le place short)]

theorem unpackedParameter (means : site.Means tables) (short : site.arguments.length ≤ 65536)
    (listed : (value, index) ∈ site.unpacked) :
    site.function.parameters[index.toNat]? = some value.binding := by
  have inside := List.mem_map_of_mem (f := fun item : CallValue × UInt16 =>
    (item.1.binding, item.2.toNat)) listed
  rw [means.unpacked short] at inside
  exact List.mk_mem_zipIdx_iff_getElem?.mp inside

end Means

/-! ### Single values -/

/-- The code pushes a value from its place in a buffer. -/
def Reads (site : FunctionSite) (tables : Tables) (value : CallValue) (source : ValueSource)
    (fragment : Fragment) : Prop :=
  ∀ machine : Machine, machine.tables = tables → ∀ call, site.Carries machine call →
    value.binding ∈ call.function.values → ∀ frame state buffer content,
      machine.Finds frame state source (.integer buffer) → call.Lays site.site.owner state →
        machine.Keeps site.config (call.form machine value.binding)
          (buffer + call.distance value.binding) content state.memory →
          ∀ stack, machine.Passes frame fragment stack state (content :: stack) state

/-- The code writes a value from a source to a place in native memory. -/
def Writes (site : FunctionSite) (tables : Tables) (value : CallValue) (address : NativeAddress)
    (source : ValueSource) (fragment : Fragment) : Prop :=
  ∀ machine : Machine, machine.tables = tables → ∀ call, site.Carries machine call →
    value.binding ∈ call.function.values → ∀ frame state start content,
      machine.Locates frame state address start → call.Lays site.site.owner state →
        machine.Finds frame state source content →
          (call.form machine value.binding).Holds content →
            fragment.Writes machine site.config frame state (call.form machine value.binding) start
              content

variable {site : FunctionSite} {value : CallValue} {source : ValueSource}

theorem leaves_read (listed : value ∈ site.values)
    (plain : value.binding.category.isPlain = true) :
    (value.read site.config (value.place source)).Leaves fun tables fragment =>
      site.Reads tables value source fragment := by
  refine (leaves_reading plain).mono fun tables fragment reads => ?_
  rintro machine rfl call carries inside frame state buffer content finds lays keeps
  have names := carries.means.names value listed
  have laid := lays value.binding inside
  rw [carries.function] at laid
  exact reads carries.addressable machine rfl frame state _ _
    (Machine.locates_of_lays names laid finds) (Machine.holdsStatic_width names laid) content
    (keeps state fun _ _ => rfl)

theorem leaves_write {address : NativeAddress} (listed : value ∈ site.values)
    (plain : value.binding.category.isPlain = true) :
    (value.write site.config address source).Leaves fun tables fragment =>
      site.Writes tables value address source fragment := by
  refine (leaves_writing plain).mono fun tables fragment writes => ?_
  rintro machine rfl call carries inside frame state start content locates lays finds holds
  have laid := lays value.binding inside
  rw [carries.function] at laid
  exact writes carries.addressable machine rfl frame state start _ content locates
    (Machine.holdsStatic_width (carries.means.names value listed) laid)
    (carries.suits.marshals value.binding inside) finds holds

/-- A place in a buffer is found where the distance says. -/
theorem Carries.locates {machine : Machine} {call : Crossing} (carries : site.Carries machine call)
    (listed : value ∈ site.values) (inside : value.binding ∈ call.function.values) {frame : Nat}
    {state : MachineState} {buffer : Address} (lays : call.Lays site.site.owner state)
    (finds : machine.Finds frame state source (.integer buffer)) :
    machine.Locates frame state (value.place source) (buffer + call.distance value.binding) := by
  have laid := lays value.binding inside
  rw [carries.function] at laid
  exact Machine.locates_of_lays (carries.means.names value listed) laid finds

/-- Code that writes several values to their places in a buffer puts each of them where it belongs,
and writes nothing else. -/
theorem Carries.exists_written {machine : Machine} {call : Crossing}
    (carries : site.Carries machine call) {items : List (CallValue × UInt16)}
    {fragments : List Fragment} {content : MemberBinding → Value} {buffer : Address} {frame : Nat}
    {state : MachineState}
    (writes : List.Forall₂ (fun item fragment => ∃ origin,
      site.Writes machine.tables item.1 (item.1.place source) origin fragment ∧
      ∀ memory, machine.Finds frame { state with memory } origin (content item.1.binding))
      items fragments)
    (listed : ∀ item ∈ items, item.1 ∈ site.values ∧ item.1.binding ∈ call.function.values)
    (apart : (items.map fun item => call.deposit machine buffer item.1.binding
      (content item.1.binding)).Pairwise Deposit.Apart)
    (lays : call.Lays site.site.owner state)
    (located : ∀ memory, machine.Finds frame { state with memory } source (.integer buffer))
    (holds : ∀ item ∈ items, (call.form machine item.1.binding).Holds (content item.1.binding)) :
    ∃ memory : NativeMemory,
      memory.AgreesOn state.memory (fun place => ∀ item ∈ items,
        ¬ (call.deposit machine buffer item.1.binding (content item.1.binding)).Covers place) ∧
      (∀ item ∈ items, machine.Keeps site.config (call.form machine item.1.binding)
        (buffer + call.distance item.1.binding) (content item.1.binding) memory) ∧
      ∀ stack, machine.Passes frame fragments.flatten stack state stack { state with memory } := by
  have each : List.Forall₂ (fun deposit fragment => ∀ memory : NativeMemory,
      Fragment.Writes fragment machine site.config frame { state with memory } deposit.form
        deposit.start deposit.value)
      (items.map fun item => call.deposit machine buffer item.1.binding (content item.1.binding))
      fragments := by
    rw [List.forall₂_map_left_iff]
    refine ((List.forall₂_and_left _ _).mpr ⟨fun _ inside => inside, writes⟩).imp ?_
    rintro item fragment ⟨inside, origin, write, found⟩ memory
    have laid : call.Lays site.site.owner { state with memory } := lays.congr rfl
    exact write machine rfl call carries (listed item inside).2 frame _ _ _
      (carries.locates (listed item inside).1 (listed item inside).2 laid (located memory)) laid
      (found memory) (holds item inside)
  rcases Machine.exists_deposited each apart with ⟨memory, agrees, keeps, passes⟩
  rw [List.forall_mem_map] at keeps
  refine ⟨memory, fun place outside => agrees place ?_, keeps, passes⟩
  exact List.forall_mem_map.mpr outside

end FunctionSite

end NativeWeave
