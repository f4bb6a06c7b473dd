import NativeWeave.Proofs.Editing.Edited
import NativeWeave.Proofs.Machine.Copying

namespace NativeWeave

/-!
# What structs hold

A struct value is an object whose fields hold plain values and further struct values.  What it holds
is a tree, which lies in native memory as well as in objects: a struct has its members at distances
from where it begins, and a member that is a struct has its own members there again.  Objects that
are made meanwhile do not get into the way of those that are in use.
-/

/-! ## Objects -/

namespace MachineState

variable {state middle later : MachineState} {identity : Nat} {cell : Cell} {value : Value}

/-- A variable refers to the object, or one of its fields refers to an object. -/
def Occupies (state : MachineState) (identity : Nat) : Prop :=
  (∃ cell : Cell, cell.Before state.frames ∧ state.cells cell = .object identity) ∨
    ∃ member other, state.cells (.field identity member) = .object other

/-- Only so many objects are in use. -/
def Finite (state : MachineState) : Prop :=
  {identity | state.Occupies identity}.Finite

/-- What has happened since has touched neither static fields nor variables that were there before,
the fields of objects that were in use among them. -/
structure Spares (state later : MachineState) : Prop where
  frames : state.frames ≤ later.frames
  statics : later.statics = state.statics
  cells : ∀ cell : Cell, cell.Before state.frames →
    (∀ identity member, cell = .field identity member → state.Occupies identity) →
      later.cells cell = state.cells cell
  finite : state.Finite → later.Finite

/-- A field that refers to an object is one of an object in use. -/
theorem occupies_of_field {member : MemberRef} {other : Nat}
    (refers : state.cells cell = .object other) (same : cell = .field identity member) :
    state.Occupies identity :=
  .inr ⟨member, other, same ▸ refers⟩

/-- So is an object that a field refers to. -/
theorem occupies_of_refers {holder : Nat} {member : MemberRef}
    (refers : state.cells (.field holder member) = .object identity) : state.Occupies identity :=
  .inl ⟨.field holder member, trivial, refers⟩

/-- No more objects are in use than before, up to some. -/
theorem Finite.of_occupies (finite : state.Finite) {others : Set Nat} (few : others.Finite)
    (each : ∀ identity, later.Occupies identity → state.Occupies identity ∨ identity ∈ others) :
    later.Finite :=
  (Set.Finite.union finite few).subset each

namespace Spares

theorem refl (state : MachineState) : state.Spares state :=
  ⟨Nat.le_refl _, rfl, fun _ _ _ => rfl, id⟩

/-- References to objects stay. -/
theorem refers (spares : state.Spares later) (before : cell.Before state.frames)
    (refers : state.cells cell = .object identity) : later.cells cell = .object identity :=
  (spares.cells cell before fun _ _ => occupies_of_field refers).trans refers

theorem occupies (spares : state.Spares later) (occupied : state.Occupies identity) :
    later.Occupies identity := by
  rcases occupied with ⟨cell, before, refers⟩ | ⟨member, other, refers⟩
  · exact .inl ⟨cell, before.mono spares.frames, spares.refers before refers⟩
  · exact .inr ⟨member, other, spares.refers trivial refers⟩

theorem field (spares : state.Spares later) (occupied : state.Occupies identity)
    (member : MemberRef) :
    later.cells (.field identity member) = state.cells (.field identity member) :=
  spares.cells _ trivial fun _ _ same => (Cell.field.inj same).1 ▸ occupied

theorem trans (first : state.Spares middle) (second : middle.Spares later) :
    state.Spares later where
  frames := Nat.le_trans first.frames second.frames
  statics := second.statics.trans first.statics
  cells cell before used :=
    (second.cells cell (before.mono first.frames) fun identity member same =>
      first.occupies (used identity member same)).trans (first.cells cell before used)
  finite := second.finite ∘ first.finite

/-- Memory is another matter. -/
theorem memory (spares : state.Spares later) (memory : NativeMemory) :
    state.Spares { later with memory } :=
  ⟨spares.frames, spares.statics, spares.cells, spares.finite⟩

/-- A new frame has variables of its own. -/
theorem enter (state : MachineState) (arguments locals : List Value) :
    state.Spares (state.enter arguments locals) where
  frames := Nat.le_succ _
  statics := rfl
  cells cell before _ := by
    cases cell with
    | argument frame index | localVariable frame index => exact if_neg (Nat.ne_of_lt before)
    | field object member => rfl
  finite finite := by
    have few : {identity | Value.object identity ∈ arguments ++ locals}.Finite :=
      (List.finite_toSet (arguments ++ locals)).preimage fun _ _ _ _ => Value.object.inj
    refine finite.of_occupies few fun identity occupied => ?_
    have given : ∀ {values : List Value} {index}, values.getD index .null = .object identity →
        Value.object identity ∈ values := by
      intro values index refers
      rw [List.getD_eq_getElem?_getD] at refers
      cases found : values[index]? with
      | none =>
        rw [found] at refers
        cases refers
      | some value =>
        rw [found] at refers
        cases refers
        exact List.mem_of_getElem? found
    rcases occupied with ⟨cell, before, refers⟩ | fields
    · cases cell with
      | argument frame index =>
        by_cases new : frame = state.frames
        · exact .inr (List.mem_append_left _ (given ((if_pos new).symm.trans refers)))
        · have earlier := Nat.lt_of_le_of_ne (Nat.le_of_lt_succ before) new
          exact .inl (.inl ⟨.argument frame index, earlier, (if_neg new).symm.trans refers⟩)
      | localVariable frame index =>
        by_cases new : frame = state.frames
        · exact .inr (List.mem_append_right _ (given ((if_pos new).symm.trans refers)))
        · have earlier := Nat.lt_of_le_of_ne (Nat.le_of_lt_succ before) new
          exact .inl (.inl ⟨.localVariable frame index, earlier, (if_neg new).symm.trans refers⟩)
      | field object member => exact .inl (.inl ⟨.field object member, trivial, refers⟩)
    · exact .inl (.inr fields)

/-- The fields of an object that was not in use can change. -/
theorem setField (spares : state.Spares later) (unused : ¬ state.Occupies identity)
    (member : MemberRef) (value : Value) :
    state.Spares (later.setVariable (.field identity member) value) where
  frames := spares.frames
  statics := spares.statics
  cells cell before used := by
    have apart : cell ≠ .field identity member := fun same => unused (used _ _ same)
    exact (setVariable_cells_of_ne apart).trans (spares.cells cell before used)
  finite finite := by
    have few : {other | value = .object other}.Finite :=
      Set.Subsingleton.finite fun _ one _ other => Value.object.inj (one.symm.trans other)
    refine (spares.finite finite).of_occupies ((Set.finite_singleton identity).union few) ?_
    intro other occupied
    rcases occupied with ⟨cell, before, refers⟩ | ⟨field, third, refers⟩
    · by_cases changed : cell = .field identity member
      · rw [changed, setVariable_cells_self] at refers
        exact .inr (.inr refers)
      · rw [setVariable_cells_of_ne changed] at refers
        exact .inl (.inl ⟨cell, before, refers⟩)
    · by_cases own : other = identity
      · exact .inr (.inl own)
      · have apart : Cell.field other field ≠ .field identity member :=
          fun same => own (Cell.field.inj same).1
        rw [setVariable_cells_of_ne apart] at refers
        exact .inl (.inr ⟨field, third, refers⟩)

end Spares

end MachineState

/-- As long as only so many objects are in use, the machine finds a further one to construct, whose
fields refer to no objects. -/
def Machine.Allocates (machine : Machine) (constructor : MemberRef) : Prop :=
  ∀ state : MachineState, state.Finite → ∃ identity cells,
    machine.allocate constructor state = (.object identity, { state with cells }) ∧
    ¬ state.Occupies identity ∧
    (∀ member other, cells (.field identity member) ≠ .object other) ∧
    ∀ cell, (∀ member, cell ≠ .field identity member) → cells cell = state.cells cell

/-- A further object is not in use, and those that are in use stay as they are. -/
theorem Machine.Allocates.exists_unused {machine : Machine} {constructor : MemberRef}
    (allocates : machine.Allocates constructor) {state : MachineState} (finite : state.Finite) :
    ∃ identity later, machine.allocate constructor state = (.object identity, later) ∧
      ¬ state.Occupies identity ∧ ¬ later.Occupies identity ∧ state.Spares later ∧
      later.memory = state.memory := by
  rcases allocates state finite with ⟨identity, cells, allocated, unused, empty, others⟩
  have old : ∀ {cell other}, cells cell = .object other → state.cells cell = .object other := by
    intro cell other refers
    rw [← others cell fun member same => empty member other (same ▸ refers)]
    exact refers
  refine ⟨identity, _, allocated, unused, ?_, ⟨Nat.le_refl _, rfl, ?_, fun finite => ?_⟩, rfl⟩
  · rintro (⟨cell, before, refers⟩ | ⟨member, other, refers⟩)
    · exact unused (.inl ⟨cell, before, old refers⟩)
    · exact empty member other refers
  · exact fun cell _ used => others cell fun member same => unused (used _ _ same)
  · refine finite.of_occupies Set.finite_empty fun other occupied => .inl ?_
    rcases occupied with ⟨cell, before, refers⟩ | ⟨member, third, refers⟩
    · exact .inl ⟨cell, before, old refers⟩
    · exact .inr ⟨member, third, old refers⟩

/-! ## Layouts -/

/-- Where native memory has the members of structs. -/
structure StructLayout where
  /-- How many bytes a struct takes. -/
  size : QualifiedName → Nat
  /-- How far from the start of the struct the value of a field lies. -/
  distance : MemberRef → Address
  /-- How many bytes a truth value takes. -/
  width : MemberRef → Address

/-- The reference to the field that a member of a struct exposes. -/
def StructBinding.field (binding : StructBinding) (member : MemberBinding) : MemberRef :=
  .field (.named binding.name) member.name member.type

/-- The struct is the one that its name means, and it gets members for marshalling. -/
structure StructBinding.IsMarshalled (binding : StructBinding) (config : Config)
    (bindings : Bindings) : Prop where
  picked : bindings.Picks (.ofStruct binding)
  generic : binding.blittable = false
  ordinary : config.isCoreStruct binding.name = false

namespace StructLayout

variable (layout : StructLayout) (machine : Machine) (binding : StructBinding)
  (member : MemberBinding)

/-- How a plain value of a member lies in native memory. -/
def form : Form :=
  member.form machine (layout.width (binding.field member))

/-- How many bytes a member takes. -/
def extent : Nat :=
  match member.category with
  | .struct .generic _ owner => layout.size owner
  | _ => (layout.form machine binding member).size

/-- The member has the address, if the struct begins at another one. -/
def Covers (start place : Address) : Prop :=
  (start + layout.distance (binding.field member)).Covers (layout.extent machine binding member) place

/-- Each member has bytes of its own in the struct. -/
structure Spreads : Prop where
  inside : ∀ member ∈ binding.members, ∀ place, layout.Covers machine binding member 0 place →
    place.toNat < layout.size binding.name
  apart : binding.members.Pairwise fun first second => ∀ place,
    layout.Covers machine binding first 0 place → ¬ layout.Covers machine binding second 0 place

end StructLayout

namespace StructLayout

variable {layout : StructLayout} {machine : Machine} {binding : StructBinding}
  {member : MemberBinding}

/-- Members move along with their struct. -/
theorem covers_iff {start place : Address} : layout.Covers machine binding member start place ↔
    layout.Covers machine binding member 0 (place - start) := by
  rw [Covers, Covers, Address.Covers, Address.Covers, zero_add, sub_add_eq_sub_sub]

/-- Members lie inside their struct. -/
theorem Spreads.covers (spreads : layout.Spreads machine binding)
    (listed : member ∈ binding.members) {start place : Address}
    (inside : layout.Covers machine binding member start place) :
    start.Covers (layout.size binding.name) place :=
  spreads.inside member listed _ (covers_iff.mp inside)

/-- Members have no address in common, wherever the struct begins. -/
theorem Spreads.disjoint (spreads : layout.Spreads machine binding) (start : Address) :
    binding.members.Pairwise fun first second => ∀ place,
      layout.Covers machine binding first start place →
        ¬ layout.Covers machine binding second start place :=
  spreads.apart.imp fun apart _ one other => apart _ (covers_iff.mp one) (covers_iff.mp other)

end StructLayout

/-! ## Programs -/

/-- What a receiver stands for: a variable that is referred to, or itself. -/
def MachineState.receiver (state : MachineState) : Value → Value
  | .reference place => state.cells place
  | value => value

/-- The method is one of instances that has the name and takes an address of native memory. -/
def Method.isMarshaller (method : Method) (name : String) : Bool :=
  method.name = name ∧ method.signature = ⟨true, [.intPtr], .void⟩

/-- The code that a module has for such a method of a struct. -/
def Module.structCode? (module : Module) (binding : StructBinding) (name : String) : Option Body := do
  let type ← module.types[binding.type]?
  let method ← type.methods.find? (·.isMarshaller name)
  method.body

/-- A running program with the structs of a module: the machine runs their methods on the structs
themselves, and what it knows of native memory is how structs lie there. -/
structure StructHost (config : Config) (bindings : Bindings) (module : Module) where
  machine : Machine
  layout : StructLayout
  tables : machine.tables = module.tables
  answers : ∀ binding : StructBinding, binding.IsMarshalled config bindings → ∀ name body,
    module.structCode? binding name = some body → ∀ receiver more state,
      machine.answer (.instanceMethod (.named binding.name) name [.intPtr] .void)
        (receiver :: more) state = .runs body (state.receiver receiver :: more)
  allocates : ∀ binding : StructBinding, binding.IsMarshalled config bindings →
    machine.Allocates
      (.instanceMethod (.named binding.name) Method.constructorName [.intPtr] .void)
  spreads : ∀ binding : StructBinding, binding.IsMarshalled config bindings →
    layout.Spreads machine binding
  truths : ∀ binding : StructBinding, binding.IsMarshalled config bindings →
    ∀ member ∈ binding.members, member.category.needsWidth = true →
      machine.MarshalsTruths config (layout.width (binding.field member))

/-! ## Contents -/

/-- What a field holds: a plain value, or a struct with contents in its fields. -/
inductive Content
  | plain (value : Value)
  | struct (binding : StructBinding) (fields : MemberRef → Content)

namespace Content

/-- A variable with the value holds the content, in objects of some kind. -/
def HeldBy (state : MachineState) (among : Nat → Prop) : Content → Value → Prop
  | plain value, stored => stored = value
  | struct binding fields, stored => ∃ identity, stored = .object identity ∧ among identity ∧
    ∀ member ∈ binding.members, (fields (binding.field member)).HeldBy state among
      (state.cells (.field identity (binding.field member)))

variable {state later : MachineState} {among others : Nat → Prop} {content : Content}
  {value : Value}

/-- A content is held for as long as the fields of its objects stay. -/
theorem HeldBy.transfer (held : content.HeldBy state among value)
    (keeps : ∀ identity, among identity → others identity ∧ ∀ member,
      later.cells (.field identity member) = state.cells (.field identity member)) :
    content.HeldBy later others value := by
  induction content generalizing value with
  | plain given => exact held
  | struct binding fields ih =>
    rcases held with ⟨identity, rfl, inside, each⟩
    rcases keeps identity inside with ⟨also, same⟩
    refine ⟨identity, rfl, also, fun member listed => ?_⟩
    rw [same]
    exact ih _ (each member listed)

/-- The objects of a content that a variable holds are in use. -/
theorem HeldBy.occupied (held : content.HeldBy state among value)
    (used : ∀ identity, value = .object identity → state.Occupies identity) :
    content.HeldBy state (fun identity => among identity ∧ state.Occupies identity) value := by
  induction content generalizing value with
  | plain given => exact held
  | struct binding fields ih =>
    rcases held with ⟨identity, rfl, inside, each⟩
    refine ⟨identity, rfl, ⟨inside, used identity rfl⟩, fun member listed => ?_⟩
    exact ih _ (each member listed) fun _ => MachineState.occupies_of_refers

/-- What is held in objects in use goes on being held. -/
theorem HeldBy.spares (held : content.HeldBy state among value)
    (used : ∀ identity, value = .object identity → state.Occupies identity)
    (spares : state.Spares later) : content.HeldBy later among value :=
  (held.occupied used).transfer fun _ inside => ⟨inside.1, spares.field inside.2⟩

end Content

namespace StructHost

variable {config : Config} {bindings : Bindings} {module : Module}
  (host : StructHost config bindings module)

/-- The content is one that the member of the struct can hold: a plain value in the range of the
member, or a struct that is marshalled again. -/
def Fits : Content → StructBinding → MemberBinding → Prop
  | .plain value, binding, member => member.category.isPlain = true ∧
    (host.layout.form host.machine binding member).Holds value
  | .struct inner fields, _, member => inner.IsMarshalled config bindings ∧
    (∃ nativeName, member.category = .struct .generic nativeName inner.name) ∧
    ∀ other ∈ inner.members, Fits (fields (inner.field other)) inner other

/-- All members of the struct can hold what they are given. -/
def Fills (binding : StructBinding) (fields : MemberRef → Content) : Prop :=
  ∀ member ∈ binding.members, host.Fits (fields (binding.field member)) binding member

/-- The content of the member lies in native memory from an address on. -/
def Lies (memory : NativeMemory) : Content → StructBinding → MemberBinding → Address → Prop
  | .plain value, binding, member, start =>
    host.machine.Keeps config (host.layout.form host.machine binding member) start value memory
  | .struct inner fields, _, _, start => ∀ other ∈ inner.members,
    Lies memory (fields (inner.field other)) inner other
      (start + host.layout.distance (inner.field other))

/-- The static fields of structs say where their members lie. -/
def Lays (state : MachineState) : Prop :=
  ∀ binding : StructBinding, binding.IsMarshalled config bindings →
    ∀ member ∈ binding.members,
      state.Lays (.named binding.name) member.name member.category
        (host.layout.distance (binding.field member)) (host.layout.width (binding.field member))

variable {host} {content : Content} {binding : StructBinding} {member : MemberBinding}
  {start : Address} {memory other : NativeMemory} {state later : MachineState}

theorem Lays.spares (lays : host.Lays state) (spares : state.Spares later) : host.Lays later :=
  fun binding marshalled member listed =>
    have laid := lays binding marshalled member listed
    ⟨spares.statics ▸ laid.offset, spares.statics ▸ laid.width⟩

/-- A plain member takes as many bytes as its values. -/
theorem extent_of_isPlain (plain : member.category.isPlain = true) :
    host.layout.extent host.machine binding member =
      (host.layout.form host.machine binding member).size := by
  unfold StructLayout.extent
  split
  · next generic =>
    rw [generic] at plain
    cases plain
  · rfl

/-- A content lies in memory for as long as its bytes stay. -/
theorem Lies.congr (lies : host.Lies memory content binding member start)
    (fits : host.Fits content binding member)
    (agrees : other.AgreesOn memory
      (start.Covers (host.layout.extent host.machine binding member))) :
    host.Lies other content binding member start := by
  induction content generalizing binding member start with
  | plain value =>
    rw [extent_of_isPlain fits.1] at agrees
    exact Machine.Keeps.congr lies agrees
  | struct inner fields ih =>
    rcases fits with ⟨marshalled, ⟨nativeName, generic⟩, each⟩
    intro part listed
    refine ih _ (lies part listed) (each part listed) fun place inside => agrees place ?_
    have within := (host.spreads inner marshalled).covers listed inside
    rw [StructLayout.extent, generic]
    exact within

end StructHost

end NativeWeave
