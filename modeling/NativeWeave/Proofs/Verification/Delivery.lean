import NativeWeave.Proofs.Verification.Levels

namespace NativeWeave

/-!
# Fragments that deliver values

A fragment that delivers some values runs to its end on every path through its jumps, takes nothing
from the stack but what it has put there, and leaves the values on top.  It does so wherever there is
room for the few values that it works with, and it is enough to have its levels at an empty stack and
at the fullest stack in question: an instruction that changes the depth by as much on the one as it
does on the other finds its operands and its room at every depth between them.
-/

/-! ## Control that goes ahead -/

/-- Every instruction hands control on, and always to a place behind it. -/
structure Fragment.Onward (code : Fragment) : Prop where
  goesOn : ∀ instr ∈ code, instr.isTerminator = false
  ahead : ∀ {index target : Nat} {instr : Instr}, code[index]? = some instr →
    instr.target? = some target → index < target

namespace Fragment

theorem onward_of_straight {code : Fragment} (straight : ∀ instr ∈ code, instr.Straight) :
    code.Onward where
  goesOn instr member := (straight instr member).goesOn
  ahead here leads := by
    cases (straight _ (List.mem_of_getElem? here)).leadsNowhere.symm.trans leads

namespace Onward

theorem append {first second : Fragment} (front : first.Onward) (back : second.Onward) :
    (first.append second).Onward where
  goesOn := by
    refine List.forall_mem_append.mpr ⟨front.goesOn, List.forall_mem_map.mpr ?_⟩
    intro instr member
    rw [Instruction.isTerminator_mapTarget]
    exact back.goesOn instr member
  ahead {index target instr} here leads := by
    by_cases order : index < first.length
    · exact front.ahead ((List.getElem?_append_left order).symm.trans here) leads
    · unfold Fragment.append shift at here
      rw [List.getElem?_append_right (Nat.le_of_not_lt order), List.getElem?_map] at here
      rcases Option.map_eq_some_iff.mp here with ⟨original, there, rfl⟩
      rw [Instruction.target?_mapTarget] at leads
      rcases Option.map_eq_some_iff.mp leads with ⟨aimed, inner, rfl⟩
      have := back.ahead there inner
      omega

/-- A jump past a fragment leads to its end. -/
theorem skip {jump : JumpOp} {body : Fragment} (conditional : jump ≠ .always)
    (onward : body.Onward) : (Fragment.skip jump body).Onward := by
  have alone : Onward [.jump jump (body.length + 1)] := by
    refine ⟨List.forall_mem_singleton.mpr ?_, fun {index target instr} here leads => ?_⟩
    · cases jump with
      | always => exact (conditional rfl).elim
      | ifTrue => rfl
      | ifFalse => rfl
    · cases index with
      | zero =>
        cases here
        cases leads
        exact Nat.succ_pos _
      | succ index => cases here
  exact alone.append onward

end Onward

end Fragment

namespace Frame

variable {frame : Frame}

/-! ## Straight code on a fuller stack -/

/-- No instruction leaves more than one value above those that it takes. -/
theorem pushes_effect_le (frame : Frame) (instr : Instr) :
    (frame.effect instr).pushes ≤ (frame.effect instr).pops + 1 := by
  cases instr with
  | plain op => cases op <;> simp [effect, plainEffect]
  | slot op index => cases op <;> simp [effect]
  | jump op target => cases op <;> simp [effect]
  | type op token => cases op <;> simp [effect]
  | indirect op kind => cases op <;> simp [effect]
  | member op token =>
    change (memberEffect op ((frame.tables.member? token).bind (·.methodSignature?))).pushes ≤
      (memberEffect op ((frame.tables.member? token).bind (·.methodSignature?))).pops + 1
    cases (frame.tables.member? token).bind (·.methodSignature?) with
    | none => cases op <;> simp [memberEffect]
    | some signature =>
      have result : (if signature.result.isVoid then 0 else 1) ≤ 1 := by split <;> simp
      cases op <;> simp [memberEffect] <;> omega
  | _ => simp [effect]

/-- Straight code may run on a fuller stack, if there is room for a value from each instruction. -/
theorem Moves.lift {code : Fragment} {before after : Nat} (moves : frame.Moves code before after)
    {more : Nat} (room : before + more + code.length ≤ 1024) :
    frame.Moves code (before + more) (after + more) := by
  induction moves with
  | done => exact .done
  | @step instr rest before middle after straight fits allows _ ih =>
    have enough := allows.enough
    have change := allows.change
    have most := frame.pushes_effect_le instr
    rw [List.length_cons] at room
    refine .step straight fits ⟨by omega, by omega, ?_, ?_⟩ (ih (by omega))
    · unfold maxDepth
      omega
    · rintro rfl
      cases straight.goesOn

/-! ## Code that runs to its end -/

/-- Control that enters the code at a depth of the stack always comes to its end, with another
depth. -/
structure Runs (frame : Frame) (code : Fragment) (start stop : Nat) : Prop where
  onward : code.Onward
  carries : frame.Carries code start (some stop)

theorem Moves.runs {code : Fragment} {before after : Nat} (moves : frame.Moves code before after) :
    frame.Runs code before after :=
  ⟨Fragment.onward_of_straight moves.straight, moves.carries⟩

theorem runs_concat_nil (frame : Frame) (depth : Nat) :
    frame.Runs (Fragment.concat []) depth depth :=
  Moves.done.runs

theorem Runs.concat_cons {fragment : Fragment} {more : List Fragment} {start middle stop : Nat}
    (first : frame.Runs fragment start middle)
    (rest : frame.Runs (Fragment.concat more) middle stop) :
    frame.Runs (Fragment.concat (fragment :: more)) start stop :=
  ⟨first.onward.append rest.onward, first.carries.append rest.carries⟩

theorem Runs.skip {jump : JumpOp} {body : Fragment} {depth : Nat} (conditional : jump ≠ .always)
    (shallow : depth ≤ maxDepth) (runs : frame.Runs body depth depth) :
    frame.Runs (Fragment.skip jump body) (depth + 1) depth :=
  ⟨runs.onward.skip conditional,
    runs.carries.skip conditional shallow fun _ same => (Option.some.inj same).symm⟩

/-! ## Delivery -/

/-- Started with any number of values on the stack up to 1000, the code comes to its end on every
path and leaves the values that were there and some more.  Depths along a path are counted from the
depth at which the code is started. -/
structure Delivers (frame : Frame) (code : Fragment) (gain : Nat) : Prop where
  /-- Every operand names something of the kind that its instruction works on. -/
  operands : ∀ instr ∈ code, frame.OperandFits instr
  /-- Jumps stay inside, or lead to the end. -/
  targets : ∀ instr ∈ code, ∀ target ∈ instr.target?, target ≤ code.length
  /-- No path stops before the end. -/
  goesOn : ∀ instr ∈ code, instr.isTerminator = false
  /-- No path goes on forever, or past the end. -/
  inside : ∀ {steps place depth}, Path frame code steps place depth →
    steps ≤ place ∧ place ≤ code.length
  /-- No instruction takes a value that was there at the start. -/
  enough : ∀ {steps index depth instr}, Path frame code steps index depth →
    code[index]? = some instr → ((frame.effect instr).pops : Int) ≤ depth
  /-- There is room for what an instruction leaves. -/
  bounded : ∀ {steps index depth instr}, Path frame code steps index depth →
    code[index]? = some instr → ∀ start ≤ 1000, start + depth + frame.change instr ≤ 1024
  /-- At the end there are exactly the new values. -/
  final : ∀ {steps depth}, Path frame code steps code.length depth → depth = gain

/-- Each step of a path through code whose control goes ahead leads further on. -/
theorem steps_le_of_path {code : Fragment} (onward : code.Onward) {steps place : Nat} {depth : Int}
    (path : Path frame code steps place depth) : steps ≤ place := by
  induction path with
  | entry => exact Nat.le_refl 0
  | step before here flows ih =>
    cases flows with
    | next _ _ => exact Nat.succ_le_succ ih
    | jump there leads => exact Nat.lt_of_le_of_lt ih (onward.ahead there leads)

section Apart

variable {code : Fragment} {low high : Nat → Option Nat}

/-- The place has a level at the empty stack, and one that is higher by 1000 at the fuller one. -/
def Apart (low high : Nat → Option Nat) (place depth : Nat) : Prop :=
  low place = some depth ∧ high place = some (depth + 1000)

/-- What is apart by 1000 before an instruction is so after it. -/
theorem Apart.step (one : frame.Levels code low) (other : frame.Levels code high) {index depth : Nat}
    {instr : Instr} (apart : Apart low high index depth) (here : code[index]? = some instr) :
    ∃ after, frame.Allows instr depth after ∧ after + 1000 ≤ 1024 ∧
      ∀ place, Flows code index place → Apart low high place after := by
  rcases one index instr depth apart.1 here with ⟨after, allows, onward⟩
  rcases other index instr _ apart.2 here with ⟨later, also, further⟩
  have same : later = after + 1000 := by
    have one := allows.change
    have two := also.change
    omega
  subst same
  exact ⟨after, allows, also.bounded, fun place flows => ⟨onward place flows, further place flows⟩⟩

end Apart

/-- Code delivers values if it runs from an empty stack to these values, and from a full stack to
these values above those that were there. -/
theorem Runs.delivers {code : Fragment} {gain : Nat} (shallow : frame.Runs code 0 gain)
    (deep : frame.Runs code 1000 (1000 + gain)) : frame.Delivers code gain := by
  rcases shallow.carries.levels with ⟨low, one, entry, stop, beyond⟩
  rcases deep.carries.levels with ⟨high, other, entered, _, _⟩
  have start : Apart low high 0 0 := ⟨entry, entered⟩
  have step : ∀ index instr depth, Apart low high index depth → code[index]? = some instr →
      ∃ after, frame.Allows instr depth after ∧
        ∀ place, Flows code index place → Apart low high place after := by
    intro index instr depth apart here
    rcases apart.step one other here with ⟨after, allows, _, further⟩
    exact ⟨after, allows, further⟩
  refine {
    operands := shallow.carries.operands
    targets := shallow.carries.inside
    goesOn := shallow.onward.goesOn
    inside := fun path => ?inside
    enough := fun path here => ?enough
    bounded := fun path here base room => ?bounded
    final := fun path => ?final }
  case inside =>
    rcases exists_of_path start step path with ⟨level, apart, rfl⟩
    refine ⟨steps_le_of_path shallow.onward path, Nat.le_of_not_lt fun past => ?_⟩
    cases (beyond _ past).symm.trans apart.1
  case enough =>
    rcases exists_of_path start step path with ⟨level, apart, rfl⟩
    rcases apart.step one other here with ⟨after, allows, _, _⟩
    exact Int.ofNat_le.mpr allows.enough
  case bounded =>
    rcases exists_of_path start step path with ⟨level, apart, rfl⟩
    rcases apart.step one other here with ⟨after, allows, fits, _⟩
    have change := allows.change
    unfold Frame.change
    omega
  case final =>
    rcases exists_of_path start step path with ⟨level, apart, rfl⟩
    exact congrArg Nat.cast (Option.some.inj (apart.1.symm.trans stop))

end Frame

end NativeWeave
