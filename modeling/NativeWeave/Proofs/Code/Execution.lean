import NativeWeave.Proofs.Verification.Paths

namespace NativeWeave

/-!
# Runs of code

A run of code is the list of the places that control passes from the first instruction to a return.
What it does is the list of the instructions at these places, without the targets of their jumps:
when code is moved about, the targets are all that changes, and where a jump led is told by what
comes after it.
-/

/-- What an instruction does, apart from where it leads. -/
abbrev Act := Instruction Unit

def Instr.act (instr : Instr) : Act :=
  instr.mapTarget fun _ => ()

/-- Control always goes on to the next instruction. -/
structure Instr.Straight (instr : Instr) : Prop where
  goesOn : instr.isTerminator = false
  leadsNowhere : instr.target? = none

namespace Frame

variable {instrs : List Instr} {start middle stop : Nat} {path : List Nat}

theorem Flows.eq_next {index place : Nat} {instr : Instr} (here : instrs[index]? = some instr)
    (straight : instr.Straight) (flows : Flows instrs index place) : place = index + 1 := by
  cases flows with
  | next _ _ => rfl
  | jump there leads =>
    cases here.symm.trans there
    cases straight.leadsNowhere.symm.trans leads

/-- Control passes the places of a path one after another and arrives at the place where it
stops. -/
inductive Passes (instrs : List Instr) : (start : Nat) → (path : List Nat) → (stop : Nat) → Prop
  | here {place : Nat} : Passes instrs place [] place
  | step {start next stop : Nat} {path : List Nat} (flows : Flows instrs start next)
      (rest : Passes instrs next path stop) : Passes instrs start (start :: path) stop

theorem Passes.append {others : List Nat} (first : Passes instrs start path middle)
    (second : Passes instrs middle others stop) : Passes instrs start (path ++ others) stop := by
  induction first with
  | here => exact second
  | step flows _ ih => exact .step flows (ih second)

/-- Control runs through straight instructions in their order. -/
theorem passes_range' {count : Nat}
    (straight : ∀ offset < count, ∃ instr, instrs[start + offset]? = some instr ∧ instr.Straight) :
    Passes instrs start (List.range' start count) (start + count) := by
  induction count generalizing start with
  | zero => exact .here
  | succ count ih =>
    rcases straight 0 (Nat.succ_pos count) with ⟨instr, here, plain⟩
    have rest : Passes instrs (start + 1) (List.range' (start + 1) count) (start + 1 + count) := by
      refine ih fun offset inside => ?_
      rw [Nat.add_right_comm, Nat.add_assoc]
      exact straight (offset + 1) (Nat.succ_lt_succ inside)
    rw [List.range'_succ, Nat.add_comm count 1, ← Nat.add_assoc]
    exact .step (.next here plain.goesOn) rest

/-- A path of some code becomes a path of other code if each of its steps does. -/
theorem Passes.follow {others : List Instr} {place : Nat → Nat} {steps : Nat → List Nat}
    (each : ∀ {index next}, Flows instrs index next →
      Passes others (place index) (steps index) (place next))
    (passes : Passes instrs start path stop) :
    Passes others (place start) (path.flatMap steps) (place stop) := by
  induction passes with
  | here => exact .here
  | step flows _ ih =>
    rw [List.flatMap_cons]
    exact (each flows).append ih

end Frame

namespace Code

/-- Control comes from the first instruction along a path to a return, which is its last place. -/
def Runs (code : Code) (path : List Nat) : Prop :=
  ∃ front stop, path = front ++ [stop] ∧ Frame.Passes code.instrs 0 front stop ∧
    code.instrs[stop]? = some .ret

/-- What is done along a path. -/
def acts (code : Code) (path : List Nat) : List Act :=
  path.filterMap fun index => code.instrs[index]?.map Instr.act

variable {code : Code}

theorem acts_append (first second : List Nat) :
    code.acts (first ++ second) = code.acts first ++ code.acts second :=
  List.filterMap_append

theorem acts_flatMap (path : List Nat) (steps : Nat → List Nat) :
    code.acts (path.flatMap steps) = path.flatMap fun index => code.acts (steps index) := by
  induction path with
  | nil => rfl
  | cons index more ih => rw [List.flatMap_cons, List.flatMap_cons, acts_append, ih]

/-- What is done along a stretch of code. -/
theorem acts_range' {start : Nat} {stretch : List Instr}
    (there : ∀ offset < stretch.length, code.instrs[start + offset]? = stretch[offset]?) :
    code.acts (List.range' start stretch.length) = stretch.map Instr.act := by
  induction stretch generalizing start with
  | nil => rfl
  | cons instr more ih =>
    have here : code.instrs[start]? = some instr := there 0 (Nat.succ_pos _)
    have rest : code.acts (List.range' (start + 1) more.length) = more.map Instr.act := by
      refine ih fun offset inside => ?_
      rw [Nat.add_right_comm, Nat.add_assoc]
      exact there (offset + 1) (Nat.succ_lt_succ inside)
    rw [List.length_cons, List.range'_succ, List.map_cons, ← rest]
    simp only [acts, List.filterMap_cons, here, Option.map_some]

end Code

end NativeWeave
