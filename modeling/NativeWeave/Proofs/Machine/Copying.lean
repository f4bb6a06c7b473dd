import NativeWeave.Proofs.Machine.Accessors

namespace NativeWeave

/-!
# Moving several values

A call moves several values, one after the other: it writes them to their places in a buffer, it
reads them into variables, and it pushes them on the stack.  Values whose places are apart do not get
into each other's way, and of values for one variable the last one counts.
-/

/-! ## Variables -/

/-- The variable is that of one of the first frames, or belongs to an object. -/
def Cell.Before (frames : Nat) : Cell → Prop
  | argument frame _ | localVariable frame _ => frame < frames
  | field _ _ => True

theorem Cell.Before.mono {cell : Cell} {frames more : Nat} (before : cell.Before frames)
    (le : frames ≤ more) : cell.Before more := by
  cases cell with
  | argument frame index | localVariable frame index => exact Nat.lt_of_lt_of_le before le
  | field object member => trivial

theorem Cell.argument_ne_localVariable (frame index other place : Nat) :
    argument frame index ≠ localVariable other place :=
  fun same => nomatch same

namespace MachineState

variable {state : MachineState} {settings : List (Cell × Value)} {cell : Cell} {value : Value}

/-- The state with values in several variables. -/
def assign (state : MachineState) (settings : List (Cell × Value)) : MachineState :=
  settings.foldl (fun state setting => state.setVariable setting.1 setting.2) state

/-- Nothing changes but variables. -/
theorem assign_eq (state : MachineState) (settings : List (Cell × Value)) :
    state.assign settings = { state with cells := (state.assign settings).cells } := by
  induction settings generalizing state with
  | nil => rfl
  | cons setting more ih => exact ih (state.setVariable setting.1 setting.2)

theorem assign_cells_of_ne (apart : ∀ setting ∈ settings, setting.1 ≠ cell) :
    (state.assign settings).cells cell = state.cells cell := by
  induction settings generalizing state with
  | nil => rfl
  | cons setting more ih =>
    rw [List.forall_mem_cons] at apart
    exact (ih apart.2).trans (setVariable_cells_of_ne apart.1.symm)

/-- A variable has the value that all settings have for it. -/
theorem assign_cells_of_mem (member : (cell, value) ∈ settings)
    (same : ∀ setting ∈ settings, setting.1 = cell → setting.2 = value) :
    (state.assign settings).cells cell = value := by
  induction settings generalizing state with
  | nil => cases member
  | cons setting more ih =>
    rw [List.forall_mem_cons] at same
    by_cases again : ∃ later ∈ more, later.1 = cell
    · rcases again with ⟨⟨_, _⟩, later, rfl⟩
      cases same.2 _ later rfl
      exact ih later same.2
    · have apart : ∀ later ∈ more, later.1 ≠ cell := fun later inside equal =>
        again ⟨later, inside, equal⟩
      rcases List.mem_cons.mp member with rfl | later
      · exact (assign_cells_of_ne apart).trans (setVariable_cells_self _ _ _)
      · exact absurd rfl (apart _ later)

end MachineState

/-! ## Code for several values -/

/-- A value and where it lies in native memory. -/
structure Deposit where
  form : Form
  start : Address
  value : Value

namespace Deposit

/-- The address is one of those at which the value lies. -/
def Covers (deposit : Deposit) (place : Address) : Prop :=
  deposit.start.Covers deposit.form.size place

/-- Two values have no address in common. -/
def Apart (first second : Deposit) : Prop :=
  ∀ place, first.Covers place → ¬ second.Covers place

end Deposit

/-- The code puts a value into a variable.  It may rely on all variables but those that change. -/
def Fragment.Assigns (fragment : Fragment) (machine : Machine) (frame : Nat) (state : MachineState)
    (changing : Cell → Prop) (setting : Cell × Value) : Prop :=
  ∀ cells, (∀ cell, ¬ changing cell → cells cell = state.cells cell) → ∀ stack,
    machine.Passes frame fragment stack { state with cells } stack
      (({ state with cells } : MachineState).setVariable setting.1 setting.2)

namespace Machine

variable {machine : Machine} {config : Config} {frame : Nat} {state ended : MachineState}
  {fragments : List Fragment} {stack final : List Value}

/-- Code for several values keeps its meaning when it is joined, since it has no jumps. -/
theorem Passes.concat (passes : machine.Passes frame fragments.flatten stack state final ended) :
    machine.Passes frame (Fragment.concat fragments) stack state final ended := by
  rw [Fragment.concat_eq_flatten fun instr member => (passes.straight instr member).leadsNowhere]
  exact passes

/-- Values that are written to places apart from each other all lie there afterwards, and nothing else
has changed. -/
theorem exists_deposited {deposits : List Deposit}
    (each : List.Forall₂ (fun deposit fragment => ∀ memory : NativeMemory,
      Fragment.Writes fragment machine config frame { state with memory } deposit.form deposit.start
        deposit.value) deposits fragments)
    (apart : deposits.Pairwise Deposit.Apart) :
    ∃ memory : NativeMemory,
      memory.AgreesOn state.memory (fun place => ∀ deposit ∈ deposits, ¬ deposit.Covers place) ∧
      (∀ deposit ∈ deposits,
        machine.Keeps config deposit.form deposit.start deposit.value memory) ∧
      ∀ stack, machine.Passes frame fragments.flatten stack state stack { state with memory } := by
  suffices all : ∀ start : NativeMemory, ∃ memory : NativeMemory,
      memory.AgreesOn start (fun place => ∀ deposit ∈ deposits, ¬ deposit.Covers place) ∧
      (∀ deposit ∈ deposits,
        machine.Keeps config deposit.form deposit.start deposit.value memory) ∧
      ∀ stack, machine.Passes frame fragments.flatten stack { state with memory := start } stack
        { state with memory } from all state.memory
  induction each with
  | nil =>
    exact fun start => ⟨start, fun _ _ => rfl, List.forall_mem_nil _, fun _ => .nil⟩
  | @cons deposit fragment others more first _ ih =>
    intro start
    rw [List.pairwise_cons] at apart
    rcases first start with ⟨middle, agrees, keeps, written⟩
    rcases ih apart.2 middle with ⟨memory, same, kept, passes⟩
    refine ⟨memory, fun place outside => ?_, List.forall_mem_cons.mpr ⟨?_, kept⟩, fun stack => ?_⟩
    · have apart := List.forall_mem_cons.mp outside
      exact (same place apart.2).trans (agrees place apart.1)
    · exact keeps.congr fun place inside => same place fun other listed =>
        apart.1 other listed place inside
    · exact (written stack).append (passes stack)

/-- Values are put into variables one after the other by code that relies on none of the variables
that change. -/
theorem passes_assigning {settings : List (Cell × Value)} (changing : Cell → Prop)
    (each : List.Forall₂ (fun setting fragment =>
      Fragment.Assigns fragment machine frame state changing setting) settings fragments)
    (changes : ∀ setting ∈ settings, changing setting.1) (stack : List Value) :
    machine.Passes frame fragments.flatten stack state stack (state.assign settings) := by
  suffices all : ∀ cells, (∀ cell, ¬ changing cell → cells cell = state.cells cell) →
      machine.Passes frame fragments.flatten stack { state with cells } stack
        (({ state with cells } : MachineState).assign settings) from all state.cells fun _ _ => rfl
  induction each with
  | nil => exact fun _ _ => .nil
  | @cons setting fragment others more first _ ih =>
    intro cells still
    rw [List.forall_mem_cons] at changes
    have kept : ∀ cell, ¬ changing cell →
        Function.update cells setting.1 setting.2 cell = state.cells cell := by
      intro cell stays
      have other : cell ≠ setting.1 := fun same => stays (same ▸ changes.1)
      exact (Function.update_of_ne other _ _).trans (still cell stays)
    exact (first cells still stack).append (ih changes.2 _ kept)

/-- Values are pushed one after the other. -/
theorem passes_pushing {instrs : List Instr} {values : List Value}
    (each : List.Forall₂ (fun instr value => ∀ stack,
      machine.Passes frame [instr] stack state (value :: stack) state) instrs values)
    (stack : List Value) : machine.Passes frame instrs stack state (values.reverse ++ stack) state := by
  induction each generalizing stack with
  | nil => exact .nil
  | @cons instr value instrs values first _ ih =>
    rw [List.reverse_cons, List.append_assoc]
    exact (first stack).append (ih (value :: stack))

variable {member : MemberRef} {signature : MethodSignature} {passed rest : List Value}
  {result : Option Value} {later : MachineState} {token : UInt32}

/-- A virtual call that arrives at the member itself is a call of it. -/
theorem passes_callVirtual (passed : List Value) (means : machine.tables.member? token = some member)
    (declared : member.methodSignature? = some signature)
    (count : signature.argumentCount = passed.length) (own : machine.actual member passed = member)
    (calls : machine.Calls member passed state result later) :
    machine.Passes frame [.callVirtual token] (passed.reverse ++ rest) state
      ((if signature.result.isVoid then [] else result.toList) ++ rest) later := by
  rcases calls with ⟨fuel, called⟩
  refine .cons ⟨fuel, ?_⟩ .nil
  simp only [perform, Instr.callVirtual, performMember, means, declared, count, own,
    popArguments_reverse, performCall, called, Option.bind_eq_bind, Option.bind_some]
  rfl

end Machine

/-- Code for several values is made of code for each of them. -/
theorem FunctionSite.leaves_forAll {Item : Type} {items : List Item} {emit : Item → Emit Fragment}
    [∀ item, (emit item).Grows] {related : Item → Tables → Fragment → Prop}
    (each : ∀ item ∈ items, (emit item).Leaves (related item)) :
    (forAll items emit).Leaves fun tables code => ∃ fragments, code = Fragment.concat fragments ∧
      List.Forall₂ (fun item => related item tables) items fragments := by
  unfold forAll
  exact .bind (.forall₂ each) fun fragments => .pure fun tables all => ⟨fragments, rfl, all⟩

end NativeWeave
