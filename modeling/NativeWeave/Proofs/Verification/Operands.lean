import Mathlib.Data.List.Forall2
import NativeWeave.Proofs.Verification.Levels

namespace NativeWeave

/-!
# What becomes of values on the stack

In straight code a value that was pushed stays below the values that are pushed after it, until an
instruction takes it.  That instruction decides what becomes of the value: it is used itself, or it is
an address, and what lies there is read or replaced.
-/

/-- The argument that an instruction works on. -/
def Instr.argument? : Instr → Option UInt16
  | .slot .loadArg index | .slot .loadArgAddress index | .slot .storeArg index => some index
  | _ => none

/-- What code does with a value. -/
inductive Use
  /-- The code works on the value itself. -/
  | itself
  /-- The value is an address, and what lies there is read. -/
  | read
  /-- The value is an address, and what lies there is replaced. -/
  | written
deriving DecidableEq, Repr

namespace Frame

/-- The instruction that takes a value below so many others, and how many of its operands lie above the
value. -/
def taker? (frame : Frame) : Fragment → Nat → Option (Instr × Nat)
  | [], _ => none
  | instr :: rest, above =>
    let effect := frame.effect instr
    if above < effect.pops then some (instr, above)
    else frame.taker? rest (above - effect.pops + effect.pushes)

/-- What an instruction does with the operand that lies below so many of its operands.  An object
whose method is called is the lowest operand, and if it is a struct, that is its address. -/
def useOf (frame : Frame) (instr : Instr) (above : Nat) : Use :=
  match instr, above with
  | .type .loadObject _, 0 | .indirect .load _, 0 => .read
  | .type .storeObject _, 1 | .indirect .store _, 1 | .plain .initBlock, 2 => .written
  | .member .call token, above | .member .callVirtual token, above =>
    match (frame.tables.member? token).bind (·.methodSignature?) with
    | some signature =>
      if signature.hasThis ∧ above = signature.parameters.length then .read else .itself
    | none => .itself
  | _, _ => .itself

/-- What the instruction in front of the code does with an argument. -/
def useAt? (frame : Frame) (instr : Instr) (rest : Fragment) : Option (UInt16 × Use) :=
  match instr with
  | .slot .loadArg index =>
    some (index, ((frame.taker? rest 0).map fun taken => frame.useOf taken.1 taken.2).getD .itself)
  | .slot .loadArgAddress index | .slot .storeArg index => some (index, .itself)
  | _ => none

/-- What straight code does with the arguments from the first one of interest on, in order. -/
def uses (frame : Frame) (first : Nat) : Fragment → List (Nat × Use)
  | [] => []
  | instr :: rest =>
    (((frame.useAt? instr rest).filter (first ≤ ·.1.toNat)).map fun use =>
      (use.1.toNat, use.2)).toList ++ frame.uses first rest

/-- The code has no jumps, and whatever follows, it does this with the arguments. -/
structure Contributes (frame : Frame) (first : Nat) (code : Fragment) (listed : List (Nat × Use)) :
    Prop where
  still : ∀ instr ∈ code, instr.target? = none
  adds : ∀ rest, frame.uses first (code ++ rest) = listed ++ frame.uses first rest

variable {frame : Frame} {first : Nat} {code more : Fragment} {listed others : List (Nat × Use)}

/-- A value is not taken by code that runs at the depth above it. -/
theorem Moves.taker?_append {before after : Nat} (moves : frame.Moves code before after)
    (deeper : Nat) (rest : Fragment) :
    frame.taker? (code ++ rest) (before + deeper) = frame.taker? rest (after + deeper) := by
  induction moves with
  | done => rfl
  | @step instr more before middle after _ _ allows _ ih =>
    have enough := allows.enough
    have change := allows.change
    rw [List.cons_append, taker?, if_neg (by omega), ← ih]
    congr 1
    omega

theorem Moves.still {before after : Nat} (moves : frame.Moves code before after) :
    ∀ instr ∈ code, instr.target? = none :=
  fun instr member => (moves.straight instr member).leadsNowhere

namespace Contributes

theorem uses_eq (contributes : frame.Contributes first code listed) :
    frame.uses first code = listed := by
  have whole := contributes.adds []
  rwa [List.append_nil, uses, List.append_nil] at whole

theorem append (front : frame.Contributes first code listed)
    (back : frame.Contributes first more others) :
    frame.Contributes first (code ++ more) (listed ++ others) where
  still := List.forall_mem_append.mpr ⟨front.still, back.still⟩
  adds rest := by rw [List.append_assoc, front.adds, back.adds, List.append_assoc]

end Contributes

theorem contributes_nil : frame.Contributes first [] [] :=
  ⟨List.forall_mem_nil _, fun _ => rfl⟩

/-- Each of several fragments does its part. -/
theorem contributes_concat {fragments : List Fragment} {parts : List (List (Nat × Use))}
    (each : List.Forall₂ (frame.Contributes first) fragments parts) :
    frame.Contributes first (Fragment.concat fragments) parts.flatten := by
  have joined : frame.Contributes first fragments.flatten parts.flatten := by
    induction each with
    | nil => exact contributes_nil
    | cons one _ ih => exact one.append ih
  rwa [← Fragment.concat_eq_flatten joined.still] at joined

/-- Fragments for several items do one thing for each of them. -/
theorem contributes_concat_map {Item : Type} {items : List Item} {fragments : List Fragment}
    {use : Item → Nat × Use}
    (each : List.Forall₂ (fun item fragment => frame.Contributes first fragment [use item]) items
      fragments) : frame.Contributes first (Fragment.concat fragments) (items.map use) := by
  have whole := contributes_concat (List.forall₂_map_right_iff.mpr each.flip)
  rwa [← List.flatMap_def, ← List.map_eq_flatMap] at whole

/-- Code that works on earlier arguments at most does nothing. -/
theorem contributes_of_argument? (still : ∀ instr ∈ code, instr.target? = none)
    (early : ∀ instr ∈ code, ∀ index ∈ instr.argument?, index.toNat < first) :
    frame.Contributes first code [] := by
  refine ⟨still, fun rest => ?_⟩
  clear still
  induction code with
  | nil => rfl
  | cons instr more ih =>
    rw [List.forall_mem_cons] at early
    have none : (frame.useAt? instr (more ++ rest)).filter (first ≤ ·.1.toNat) = none := by
      rw [Option.filter_eq_none_iff]
      intro use found
      have before : use.1.toNat < first := by
        refine early.1 use.1 ?_
        unfold useAt? at found
        split at found <;> cases found <;> rfl
      simpa using before
    rw [List.cons_append, uses, none]
    exact ih early.2

/-- Code that works with the first arguments only does nothing with later ones. -/
theorem Moves.contributes {before after : Nat}
    (moves : ({ frame with arguments := first } : Frame).Moves code before after) :
    frame.Contributes first code [] := by
  refine contributes_of_argument? moves.still fun instr member index works => ?_
  have fits := moves.carries.operands instr member
  cases instr with
  | slot op place =>
    cases op with
    | loadArg | storeArg | loadArgAddress =>
      cases works
      exact fits
    | _ => cases works
  | _ => cases works

/-- An argument is loaded, and after some other code an instruction takes it. -/
theorem contributes_loadArg {index : UInt16} {middle : Fragment} {instr : Instr} {gain : Nat}
    (moves : frame.Moves middle 0 gain) (takes : gain < (frame.effect instr).pops)
    (late : first ≤ index.toNat) (silent : frame.Contributes first (middle ++ [instr]) []) :
    frame.Contributes first (.loadArg index :: (middle ++ [instr]))
      [(index.toNat, frame.useOf instr gain)] := by
  refine ⟨List.forall_mem_cons.mpr ⟨rfl, silent.still⟩, fun rest => ?_⟩
  have taken : frame.taker? (middle ++ [instr] ++ rest) 0 = some (instr, gain) := by
    rw [List.append_assoc]
    refine (moves.taker?_append 0 _).trans ?_
    rw [Nat.add_zero, List.singleton_append, taker?, if_pos takes]
  rw [List.cons_append, uses]
  change ((Option.filter _ (some (index, ((frame.taker? (middle ++ [instr] ++ rest) 0).map
    fun taken => frame.useOf taken.1 taken.2).getD .itself))).map _).toList ++ _ = _
  rw [taken, Option.filter_some, if_pos (decide_eq_true late), silent.adds]
  rfl

/-- The address of an argument is loaded. -/
theorem contributes_loadArgAddress {index : UInt16} (late : first ≤ index.toNat) :
    frame.Contributes first [.loadArgAddress index] [(index.toNat, .itself)] := by
  refine ⟨List.forall_mem_singleton.mpr rfl, fun rest => ?_⟩
  rw [List.cons_append, uses]
  change ((Option.filter _ (some (index, Use.itself))).map _).toList ++ _ = _
  rw [Option.filter_some, if_pos (decide_eq_true late)]
  rfl

end Frame

/-! ## Local variables -/

/-- The local variable that an instruction works on, with the operation. -/
def Instr.local? : Instr → Option (SlotOp × UInt16)
  | .slot .loadLocal index => some (.loadLocal, index)
  | .slot .storeLocal index => some (.storeLocal, index)
  | .slot .loadLocalAddress index => some (.loadLocalAddress, index)
  | _ => none

namespace Fragment

/-- What code does with the first so many local variables, in order. -/
def accesses (count : Nat) (code : Fragment) : List (SlotOp × Nat) :=
  code.filterMap fun instr =>
    (instr.local?.filter (·.2.toNat < count)).map fun access => (access.1, access.2.toNat)

variable {count : Nat}

theorem accesses_append (count : Nat) (first second : Fragment) :
    accesses count (first ++ second) = first.accesses count ++ second.accesses count :=
  List.filterMap_append

/-- Jumps are no accesses. -/
theorem accesses_shift (count : Nat) (code : Fragment) (distance : Nat) :
    (code.shift distance).accesses count = code.accesses count := by
  unfold accesses shift
  rw [List.filterMap_map]
  refine List.filterMap_congr fun instr _ => ?_
  cases instr <;> rfl

theorem accesses_concat (count : Nat) (fragments : List Fragment) :
    (concat fragments).accesses count = fragments.flatMap (accesses count) := by
  induction fragments with
  | nil => rfl
  | cons fragment more ih =>
    change accesses count (fragment ++ (concat more).shift fragment.length) = _
    rw [accesses_append, accesses_shift, ih, List.flatMap_cons]

theorem accesses_of_local? {code : Fragment} (silent : ∀ instr ∈ code, instr.local? = none) :
    code.accesses count = [] := by
  refine List.filterMap_eq_nil_iff.mpr fun instr member => ?_
  rw [silent instr member]
  rfl

theorem accesses_local {instr : Instr} {op : SlotOp} {index : UInt16}
    (works : instr.local? = some (op, index)) (count : Nat) :
    accesses count [instr] = if index.toNat < count then [(op, index.toNat)] else [] := by
  by_cases inside : index.toNat < count
  · simp [accesses, works, inside]
  · simp [accesses, works, Nat.le_of_not_lt inside]

end Fragment

/-- Code that works without local variables accesses none. -/
theorem Frame.Moves.accesses_eq_nil {frame : Frame} {code : Fragment} {before after : Nat}
    (moves : frame.Moves code before after) (bare : frame.locals = 0) (count : Nat) :
    code.accesses count = [] := by
  refine Fragment.accesses_of_local? fun instr member => ?_
  have fits := moves.carries.operands instr member
  cases instr with
  | slot op place =>
    cases op with
    | loadLocal | storeLocal | loadLocalAddress =>
      exact absurd (bare ▸ fits : place.toNat < 0) (Nat.not_lt_zero _)
    | _ => rfl
  | _ => rfl

end NativeWeave
