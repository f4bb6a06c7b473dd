import Mathlib
import NativeWeave.Proofs.Outcome
import NativeWeave.Proofs.Verification.Paths

namespace NativeWeave

/-!
# The check of stack depths decides safety of all paths

The check looks at each instruction once, although loops make infinitely many paths.  That it
accepts only code whose paths are all safe rests on the table of depths that it leaves behind: every
depth in it belongs to an instruction whose successors have theirs, so each path stays on the
table.  That it refuses only code with an unsafe path rests on where pending arrivals come from: each
of them is the end of a path.
-/

namespace Frame

/-- What holds of an instruction that passes with a depth of the stack. -/
theorem depthAfter_eq_ok_iff {frame : Frame} {instr : Instr} {offset depth after : Nat} :
    frame.depthAfter instr offset depth = .ok after ↔
      (frame.effect instr).pops ≤ depth ∧ (after : Int) = depth + frame.change instr ∧
        after ≤ 1024 ∧ (instr = Instr.ret → after = 0) := by
  unfold depthAfter change maxDepth
  by_cases enough : depth < (frame.effect instr).pops
  · simp only [if_pos enough, reduceCtorEq, false_iff]
    omega
  by_cases deep : 1024 < depth - (frame.effect instr).pops + (frame.effect instr).pushes
  · simp only [if_neg enough, if_pos deep, reduceCtorEq, false_iff]
    omega
  by_cases leftover : instr = Instr.ret ∧
      depth - (frame.effect instr).pops + (frame.effect instr).pushes ≠ 0
  · simp only [if_neg enough, if_neg deep, if_pos leftover, reduceCtorEq, false_iff]
    rintro ⟨_, same, _, balanced⟩
    have := balanced leftover.1
    omega
  · simp only [if_neg enough, if_neg deep, if_neg leftover, Except.ok.injEq]
    constructor
    · rintro rfl
      refine ⟨by omega, by omega, by omega, fun returns => ?_⟩
      by_contra other
      exact leftover ⟨returns, other⟩
    · rintro ⟨_, same, _, _⟩
      omega

end Frame

namespace StackCheck

variable {setting : Setting}

/-! ## One instruction -/

theorem successors_eq_ok_iff {instr : Instr} {arrival : Arrival} {next : List Arrival} :
    setting.successors instr arrival = .ok next ↔
      ∃ depth, setting.frame.depthAfter instr (setting.offsetAt arrival.index) arrival.depth
          = .ok depth ∧
        (instr.isTerminator = false → arrival.index + 1 < setting.instrs.length) ∧
        next = (if instr.isTerminator then [] else [⟨arrival.index + 1, depth⟩])
          ++ instr.target?.toList.map (Arrival.mk · depth) := by
  unfold Setting.successors
  dsimp only
  rw [bind_eq_ok_iff]
  apply exists_congr
  intro depth
  apply and_congr_right
  intro _
  cases ends : instr.isTerminator with
  | true => simp [pure, Except.pure, eq_comm]
  | false =>
    by_cases inside : arrival.index + 1 < setting.instrs.length
    · simp [inside, pure, Except.pure, eq_comm]
    · simp [inside, throw, throwThe, MonadExceptOf.throw]

/-- An instruction that passes hands its depth to every place that control can move to from it, and
to no other. -/
theorem mem_successors_iff {instr : Instr} {arrival : Arrival} {next : List Arrival}
    (here : setting.instrs[arrival.index]? = some instr)
    (passed : setting.successors instr arrival = .ok next) (other : Arrival) :
    other ∈ next ↔ Frame.Flows setting.instrs arrival.index other.index ∧
      (other.depth : Int) = arrival.depth + setting.frame.change instr := by
  rcases successors_eq_ok_iff.mp passed with ⟨depth, after, _, rfl⟩
  rcases Frame.depthAfter_eq_ok_iff.mp after with ⟨_, change, _, _⟩
  rw [← change, List.mem_append, List.mem_map]
  constructor
  · rintro (goesOn | ⟨place, leads, rfl⟩)
    · cases ends : instr.isTerminator with
      | true => simp [ends] at goesOn
      | false =>
        obtain rfl : other = ⟨arrival.index + 1, depth⟩ := by simpa [ends] using goesOn
        exact ⟨.next here ends, rfl⟩
    · exact ⟨.jump here (by simpa using leads), rfl⟩
  · rcases other with ⟨place, reached⟩
    rintro ⟨flows, same⟩
    obtain rfl : reached = depth := by exact_mod_cast same
    cases flows with
    | next found ends =>
      rcases Option.some.inj (here.symm.trans found) with rfl
      exact Or.inl (by simp [ends])
    | jump found leads =>
      rcases Option.some.inj (here.symm.trans found) with rfl
      exact Or.inr ⟨place, by simp [leads], rfl⟩

/-! ## One round -/

theorem follow_noted {depths : List (Option Nat)} {arrival : Arrival} {pending : List Arrival}
    (known : depths[arrival.index]? = some (some arrival.depth)) :
    follow setting depths (arrival :: pending) = follow setting depths pending := by
  rw [follow]
  split
  next depth found =>
    obtain rfl : depth = arrival.depth := by simpa [known, eq_comm] using found
    rw [if_pos rfl]
  next free _ => simp [known] at free
  next unknown _ => exact (unknown _ known).elim

theorem follow_mismatch {depths : List (Option Nat)} {arrival : Arrival} {pending : List Arrival}
    {depth : Nat} (known : depths[arrival.index]? = some (some depth))
    (different : depth ≠ arrival.depth) :
    follow setting depths (arrival :: pending) =
      .error (.stackMismatch (setting.offsetAt arrival.index) depth arrival.depth) := by
  rw [follow]
  split
  next found known' =>
    obtain rfl : found = depth := by simpa [known, eq_comm] using known'
    rw [if_neg different]
  next free _ => simp [known] at free
  next unknown _ => exact (unknown _ known).elim

theorem follow_fresh {depths : List (Option Nat)} {arrival : Arrival} {pending : List Arrival}
    {instr : Instr} (free : depths[arrival.index]? = some none)
    (here : setting.instrs[arrival.index]? = some instr) :
    follow setting depths (arrival :: pending) = (setting.successors instr arrival).bind fun next =>
      follow setting (depths.set arrival.index (some arrival.depth)) (next ++ pending) := by
  rw [follow]
  split
  next known => simp [free] at known
  next found _ here' =>
    obtain rfl : found = instr := by simpa [here, eq_comm] using here'
    cases setting.successors found arrival <;> rfl
  next missing => exact (missing _ free here).elim

/-! ## The table of depths that is left behind -/

/-- The table has the depth of an arrival at its place. -/
def Noted (depths : List (Option Nat)) (arrival : Arrival) : Prop :=
  depths[arrival.index]? = some (some arrival.depth)

/-- The instruction that is arrived at passes, and where control goes from it has been noted. -/
def Settled (setting : Setting) (depths : List (Option Nat)) (arrival : Arrival) : Prop :=
  ∃ instr next, setting.instrs[arrival.index]? = some instr ∧
    setting.successors instr arrival = .ok next ∧ ∀ other ∈ next, Noted depths other

theorem noted_set {depths : List (Option Nat)} {arrival : Arrival}
    (free : depths[arrival.index]? = some none) (other : Arrival) :
    Noted (depths.set arrival.index (some arrival.depth)) other ↔
      Noted depths other ∨ other = arrival := by
  rcases arrival with ⟨index, depth⟩
  rcases other with ⟨place, reached⟩
  have inside : index < depths.length := (List.getElem?_eq_some_iff.mp free).1
  unfold Noted
  by_cases same : index = place
  · subst place
    simp [List.getElem?_set_self inside, free, eq_comm]
  · simp [List.getElem?_set_ne same, Ne.symm same]

/-- When the check accepts, it leaves a table with all depths that were noted or pending, in which
every depth that it noted itself is settled. -/
theorem exists_table_of_follow {depths : List (Option Nat)} {pending : List Arrival}
    (accepted : follow setting depths pending = .ok ()) :
    ∃ final, (∀ arrival, Noted depths arrival → Noted final arrival) ∧
      (∀ arrival ∈ pending, Noted final arrival) ∧
      ∀ arrival, Noted final arrival → Noted depths arrival ∨ Settled setting final arrival := by
  induction depths, pending using follow.induct setting with
  | case1 depths =>
    exact ⟨depths, fun _ noted => noted, by simp, fun _ noted => Or.inl noted⟩
  | case2 depths arrival pending known ih =>
    rw [follow_noted known] at accepted
    rcases ih accepted with ⟨final, kept, taken, settled⟩
    exact ⟨final, kept, List.forall_mem_cons.mpr ⟨kept arrival known, taken⟩, settled⟩
  | case3 depths arrival pending depth known different =>
    rw [follow_mismatch known different] at accepted
    cases accepted
  | case4 depths arrival pending instr free here cause refused =>
    rw [follow_fresh free here, refused] at accepted
    cases accepted
  | case5 depths arrival pending instr free here next passed ih =>
    rw [follow_fresh free here, passed] at accepted
    rcases ih accepted with ⟨final, kept, taken, settled⟩
    have arrived : Noted final arrival := kept arrival ((noted_set free arrival).mpr (Or.inr rfl))
    refine ⟨final, fun other noted => kept other ((noted_set free other).mpr (Or.inl noted)),
      List.forall_mem_cons.mpr ⟨arrived, fun other waits =>
        taken other (List.mem_append_right _ waits)⟩, fun other noted => ?_⟩
    rcases settled other noted with before | settled
    · rcases (noted_set free other).mp before with before | rfl
      · exact Or.inl before
      · exact Or.inr ⟨instr, next, here, passed, fun later member =>
          taken later (List.mem_append_left _ member)⟩
    · exact Or.inr settled
  | case6 depths arrival pending unknown missing =>
    rw [follow] at accepted
    split at accepted
    next known => exact (unknown _ known).elim
    next free here => exact (missing _ free here).elim
    next => cases accepted

/-! ## Acceptance -/

/-- Everything that a path reaches stands in a table with the first instruction in which all entries
are settled. -/
theorem noted_of_path {final : List (Option Nat)} (start : Noted final ⟨0, 0⟩)
    (settled : ∀ arrival, Noted final arrival → Settled setting final arrival)
    {steps place : Nat} {depth : Int}
    (path : Frame.Path setting.frame setting.instrs steps place depth) :
    ∃ reached : Nat, depth = reached ∧ Noted final ⟨place, reached⟩ := by
  induction path with
  | entry => exact ⟨0, rfl, start⟩
  | @step steps index place depth instr before here flows ih =>
    rcases ih with ⟨reached, rfl, noted⟩
    rcases settled _ noted with ⟨found, next, here', passed, later⟩
    rcases Option.some.inj (here.symm.trans here') with rfl
    have goesOn := mem_successors_iff here passed
    rcases successors_eq_ok_iff.mp passed with ⟨after, passes, _, _⟩
    rcases Frame.depthAfter_eq_ok_iff.mp passes with ⟨_, change, _, _⟩
    exact ⟨after, change.symm, later ⟨place, after⟩ ((goesOn _).mpr ⟨flows, change⟩)⟩

/-- Code that the check accepts is safe on every path. -/
theorem pathsSafe_of_run (accepted : run setting = .ok ()) :
    Frame.PathsSafe setting.frame setting.instrs := by
  rcases exists_table_of_follow accepted with ⟨final, _, taken, fromTable⟩
  have start : Noted final ⟨0, 0⟩ := taken _ List.mem_cons_self
  have settled : ∀ arrival, Noted final arrival → Settled setting final arrival := by
    intro arrival noted
    apply (fromTable arrival noted).resolve_left
    intro before
    simp [Noted, List.getElem?_replicate] at before
  have passes : ∀ {steps index : Nat} {depth : Int} {instr : Instr},
      Frame.Path setting.frame setting.instrs steps index depth →
      setting.instrs[index]? = some instr →
      ∃ reached after : Nat, depth = reached ∧
        setting.frame.depthAfter instr (setting.offsetAt index) reached = .ok after := by
    intro steps index depth instr path here
    rcases noted_of_path start settled path with ⟨reached, rfl, noted⟩
    rcases settled _ noted with ⟨found, next, here', passed, _⟩
    rcases Option.some.inj (here.symm.trans here') with rfl
    rcases successors_eq_ok_iff.mp passed with ⟨after, passes, _⟩
    exact ⟨reached, after, rfl, passes⟩
  constructor
  case inside =>
    intro steps place depth path
    rcases noted_of_path start settled path with ⟨reached, _, noted⟩
    rcases settled _ noted with ⟨instr, _, here, _⟩
    exact (List.getElem?_eq_some_iff.mp here).1
  case enough =>
    intro steps index depth instr path here
    rcases passes path here with ⟨reached, after, rfl, passed⟩
    exact_mod_cast (Frame.depthAfter_eq_ok_iff.mp passed).1
  case bounded =>
    intro steps index depth instr path here
    rcases passes path here with ⟨reached, after, rfl, passed⟩
    rcases Frame.depthAfter_eq_ok_iff.mp passed with ⟨_, change, bounded, _⟩
    omega
  case balanced =>
    intro steps index depth path here
    rcases passes path here with ⟨reached, after, rfl, passed⟩
    rcases Frame.depthAfter_eq_ok_iff.mp passed with ⟨_, change, _, balanced⟩
    rw [← change, balanced rfl, Int.natCast_zero]
  case unique =>
    intro steps others index depth other first second
    rcases noted_of_path start settled first with ⟨reached, rfl, noted⟩
    rcases noted_of_path start settled second with ⟨again, rfl, notedAgain⟩
    exact congrArg _ (Option.some.inj (Option.some.inj (noted.symm.trans notedAgain)))

/-! ## Refusal -/

/-- Where all paths are safe, an instruction that a path reaches passes. -/
theorem exists_successors_of_path {index depth steps : Nat} {instr : Instr}
    (safe : Frame.PathsSafe setting.frame setting.instrs)
    (path : Frame.Path setting.frame setting.instrs steps index depth)
    (here : setting.instrs[index]? = some instr) :
    ∃ next, setting.successors instr ⟨index, depth⟩ = .ok next := by
  have enough := safe.enough path here
  have bounded := safe.bounded path here
  have passes : setting.frame.depthAfter instr (setting.offsetAt index) depth
      = .ok (depth + setting.frame.change instr).toNat := by
    unfold Frame.change at bounded ⊢
    refine Frame.depthAfter_eq_ok_iff.mpr ⟨by omega, by unfold Frame.change; omega, by omega, ?_⟩
    rintro rfl
    have balanced := safe.balanced path here
    unfold Frame.change at balanced
    omega
  refine ⟨_, successors_eq_ok_iff.mpr ⟨_, passes, fun goesOn => ?_, rfl⟩⟩
  exact safe.inside (.step path here (.next here goesOn))

/-- Where all paths are safe, the check accepts from every point at which the arrivals that it has
noted or has yet to take up are ends of paths. -/
theorem follow_of_pathsSafe (safe : Frame.PathsSafe setting.frame setting.instrs)
    {depths : List (Option Nat)} {pending : List Arrival}
    (sized : depths.length = setting.instrs.length)
    (real : ∀ arrival, Noted depths arrival ∨ arrival ∈ pending →
      ∃ steps, Frame.Path setting.frame setting.instrs steps arrival.index arrival.depth) :
    follow setting depths pending = .ok () := by
  induction depths, pending using follow.induct setting with
  | case1 depths => rw [follow]
  | case2 depths arrival pending known ih =>
    rw [follow_noted known]
    exact ih sized fun other origin => real other (origin.imp id (List.mem_cons_of_mem _))
  | case3 depths arrival pending depth known different =>
    rcases real ⟨arrival.index, depth⟩ (Or.inl known) with ⟨_, first⟩
    rcases real arrival (Or.inr List.mem_cons_self) with ⟨_, second⟩
    exact absurd (by exact_mod_cast safe.unique first second) different
  | case4 depths arrival pending instr free here cause refused =>
    rcases real arrival (Or.inr List.mem_cons_self) with ⟨_, path⟩
    rcases exists_successors_of_path safe path here with ⟨next, passed⟩
    exact absurd (refused.symm.trans passed) (by simp)
  | case5 depths arrival pending instr free here next passed ih =>
    rw [follow_fresh free here, passed]
    apply ih (by simpa using sized)
    intro other origin
    rcases real arrival (Or.inr List.mem_cons_self) with ⟨steps, path⟩
    rcases origin with noted | waits
    · rcases (noted_set free other).mp noted with before | rfl
      · exact real other (Or.inl before)
      · exact ⟨steps, path⟩
    · rcases List.mem_append.mp waits with later | waits
      · rcases (mem_successors_iff here passed other).mp later with ⟨flows, change⟩
        exact ⟨steps + 1, change ▸ .step path here flows⟩
      · exact real other (Or.inr (List.mem_cons_of_mem _ waits))
  | case6 depths arrival pending unknown missing =>
    rcases real arrival (Or.inr List.mem_cons_self) with ⟨_, path⟩
    have inside := safe.inside path
    have here := List.getElem?_eq_getElem inside
    cases noted : depths[arrival.index]? with
    | none => exact absurd (List.getElem?_eq_none_iff.mp noted) (by omega)
    | some entry =>
      cases entry with
      | none => exact (missing _ noted here).elim
      | some depth => exact (unknown _ noted).elim

/-- The check accepts exactly the code that is safe on every path. -/
theorem run_eq_ok_iff : run setting = .ok () ↔ Frame.PathsSafe setting.frame setting.instrs := by
  refine ⟨pathsSafe_of_run, fun safe => follow_of_pathsSafe safe (by simp) ?_⟩
  rintro arrival (noted | first)
  · simp [Noted, List.getElem?_replicate] at noted
  · rcases List.mem_singleton.mp first with rfl
    exact ⟨0, .entry⟩

/-! ## How long the check takes -/

/-- What the check has between two rounds. -/
structure Loop where
  depths : List (Option Nat)
  pending : List Arrival

/-- The check before its first round. -/
def Setting.loop (setting : Setting) : Loop :=
  ⟨List.replicate setting.instrs.length none, [⟨0, 0⟩]⟩

/-- A round that does not end the check: it takes up the first pending arrival. -/
inductive Round (setting : Setting) : Loop → Loop → Prop
  | noted {depths : List (Option Nat)} {arrival : Arrival} {pending : List Arrival}
      (known : Noted depths arrival) : Round setting ⟨depths, arrival :: pending⟩ ⟨depths, pending⟩
  | fresh {depths : List (Option Nat)} {arrival : Arrival} {pending next : List Arrival}
      {instr : Instr} (free : depths[arrival.index]? = some none)
      (here : setting.instrs[arrival.index]? = some instr)
      (passed : setting.successors instr arrival = .ok next) :
      Round setting ⟨depths, arrival :: pending⟩
        ⟨depths.set arrival.index (some arrival.depth), next ++ pending⟩

/-- A number of rounds, one after another. -/
inductive Rounds (setting : Setting) : (count : Nat) → Loop → Loop → Prop
  | zero (loop : Loop) : Rounds setting 0 loop loop
  | succ {count : Nat} {first second last : Loop} (round : Round setting first second)
      (later : Rounds setting count second last) : Rounds setting (count + 1) first last

/-- How many rounds there can still be: an instruction without a depth makes two arrivals at most. -/
def Loop.budget (loop : Loop) : Nat :=
  2 * unknown loop.depths + loop.pending.length

theorem budget_loop (setting : Setting) :
    setting.loop.budget = 2 * setting.instrs.length + 1 := by
  simp [Loop.budget, Setting.loop, unknown, List.countP_replicate]

theorem length_successors_le {instr : Instr} {arrival : Arrival} {next : List Arrival}
    (passed : setting.successors instr arrival = .ok next) : next.length ≤ 2 := by
  rcases successors_eq_ok_iff.mp passed with ⟨depth, _, _, rfl⟩
  have one : (if instr.isTerminator then [] else [Arrival.mk (arrival.index + 1) depth]).length ≤ 1 := by
    cases instr.isTerminator <;> simp
  have other : (instr.target?.toList.map (Arrival.mk · depth)).length ≤ 1 := by
    cases instr.target? <;> simp
  rw [List.length_append]
  omega

theorem Round.budget_lt {first second : Loop} (round : Round setting first second) :
    second.budget < first.budget := by
  cases round with
  | noted known => simp [Loop.budget]
  | @fresh depths arrival pending next instr free here passed =>
    have fewer : unknown (depths.set arrival.index (some arrival.depth)) < unknown depths :=
      unknown_set_lt free
    have added := length_successors_le passed
    simp only [Loop.budget, List.length_append, List.length_cons]
    omega

/-- No round is left to do when the budget is used up. -/
theorem Rounds.count_add_budget_le {count : Nat} {first last : Loop}
    (rounds : Rounds setting count first last) : count + last.budget ≤ first.budget := by
  induction rounds with
  | zero loop => simp
  | succ round later ih =>
    have := round.budget_lt
    omega

/-- Rounds do not change the answer of the check. -/
theorem Round.follow_eq {first second : Loop} (round : Round setting first second) :
    follow setting first.depths first.pending = follow setting second.depths second.pending := by
  cases round with
  | noted known => exact follow_noted known
  | fresh free here passed => rw [follow_fresh free here, passed]; rfl

/-- The check comes to an end with its answer: to a loop from which no round goes on. -/
theorem exists_last_loop (setting : Setting) (first : Loop) :
    ∃ count last, Rounds setting count first last ∧ (∀ next, ¬ Round setting last next) ∧
      follow setting last.depths last.pending = follow setting first.depths first.pending := by
  by_cases goesOn : ∃ second, Round setting first second
  · rcases goesOn with ⟨second, round⟩
    have := round.budget_lt
    rcases exists_last_loop setting second with ⟨count, last, rounds, ends, answer⟩
    exact ⟨count + 1, last, .succ round rounds, ends, answer.trans round.follow_eq.symm⟩
  · exact ⟨0, first, .zero first, fun next round => goesOn ⟨next, round⟩, rfl⟩
termination_by first.budget

end StackCheck

/-! ## Verification of bodies and modules

A body is verified exactly if its code can be read and is in order.  A module is verified exactly if
its header is valid and all bodies of all types are. -/

namespace Frame

/-- Code passes all checks exactly if it is in order. -/
theorem checkCode_eq_ok_iff (frame : Frame) (code : Code) :
    frame.checkCode code = .ok () ↔ frame.InOrder code := by
  unfold checkCode
  cases final : code.instrs.getLast? with
  | none =>
    constructor
    · intro passed
      cases passed
    · rintro ⟨⟨last, found, _⟩, _, _⟩
      simp [final] at found
  | some last =>
    have operands := frame.checkOperands_eq_ok_iff 0 code.instrs
    have paths : StackCheck.run ⟨frame, code.instrs, code.offsets⟩ = .ok () ↔
        frame.PathsSafe code.instrs := StackCheck.run_eq_ok_iff
    constructor
    · intro passed
      rcases bind_eq_ok_iff.mp passed with ⟨_, checked, passed⟩
      cases ends : last.isTerminator with
      | false =>
        rw [ends] at passed
        cases passed
      | true =>
        rw [ends] at passed
        exact ⟨⟨last, final, ends⟩, operands.mp checked, paths.mp passed⟩
    · rintro ⟨⟨found, lastIs, ends⟩, fits, safe⟩
      rcases Option.some.inj (final.symm.trans lastIs) with rfl
      dsimp only
      rw [operands.mpr fits, ok_bind, ends]
      exact paths.mpr safe

end Frame

/-! ## Methods -/

theorem Method.verify_of_no_body {method : Method} (absent : method.body = none) (tables : Tables) :
    method.verify tables = .ok () := by
  rw [Method.verify, absent]

/-- A body is verified exactly if its code can be read and is in order. -/
theorem Method.verify_eq_ok_iff {method : Method} {body : Body} (present : method.body = some body)
    (tables : Tables) :
    method.verify tables = .ok () ↔
      ∃ code, Code.decode body.code = .ok code ∧ (method.frame tables body).InOrder code := by
  rw [Method.verify, present]
  cases read : Code.decode body.code with
  | error cause => simp [read]
  | ok code => simp [read, Frame.checkCode_eq_ok_iff]

/-- Verification decides whether all paths of a method are safe, and it comes to an end whatever
loops there are: after one round for each arrival, of which an instruction makes two at most. -/
theorem Method.verify_decides_paths (module : Module) (method : Method) (body : Body)
    (present : method.body = some body) :
    (method.verify module.tables = .ok () ↔
      ∃ code, Code.decode body.code = .ok code ∧ (method.frame module.tables body).InOrder code) ∧
    ∀ setting : StackCheck.Setting,
      (∀ count last, StackCheck.Rounds setting count setting.loop last →
        count ≤ 2 * setting.instrs.length + 1) ∧
      ∃ count last, StackCheck.Rounds setting count setting.loop last ∧
        (∀ next, ¬ StackCheck.Round setting last next) ∧
        StackCheck.follow setting last.depths last.pending = StackCheck.run setting := by
  refine ⟨Method.verify_eq_ok_iff present module.tables, fun setting => ⟨?_, ?_⟩⟩
  · intro count last rounds
    have within := rounds.count_add_budget_le
    rw [StackCheck.budget_loop] at within
    omega
  · exact StackCheck.exists_last_loop setting setting.loop

/-- A body that goes round a loop until a truth value says otherwise. -/
def Body.looping : Body where
  code := [0x07, 1, 0, 0, 0, 0x91, 0xF6, 0xFF, 0xFF, 0xFF, 0xA3]

/-- The body with a loop is verified, so that all of its infinitely many paths are safe. -/
theorem Method.verify_decides_paths_of_loop :
    ({ name := "Wait", body := some .looping } : Method).body = some .looping ∧
      ∃ code, Code.decode Body.looping.code = .ok code ∧
        (({ name := "Wait", body := some .looping } : Method).frame {} .looping).InOrder code :=
  ⟨rfl, (Method.verify_decides_paths (Module.empty "Loops") { name := "Wait", body := some .looping }
    .looping rfl).1.mp (by cbv)⟩

/-! ## Modules -/

theorem verifyMethods_eq_ok_iff (tables : Tables) (methods : List Method) :
    verifyMethods tables methods = .ok () ↔ ∀ method ∈ methods, method.verify tables = .ok () := by
  induction methods with
  | nil => simp [verifyMethods]
  | cons method more ih =>
    rw [List.forall_mem_cons, ← ih, verifyMethods]
    cases method.verify tables <;> simp

theorem verifyTypes_eq_ok_iff (tables : Tables) (types : List TypeDef) :
    verifyTypes tables types = .ok () ↔
      ∀ type ∈ types, ∀ method ∈ type.methods, method.verify tables = .ok () := by
  induction types with
  | nil => simp [verifyTypes]
  | cons type more ih =>
    rw [List.forall_mem_cons, ← ih, ← verifyMethods_eq_ok_iff, verifyTypes, TypeDef.verify]
    cases verifyMethods tables type.methods <;> simp

/-- A module is verified exactly if its header is valid and every method of every type is. -/
theorem Module.verify_eq_ok_iff (module : Module) :
    module.verify = .ok () ↔ module.validate = .ok () ∧
      ∀ type ∈ module.types, ∀ method ∈ type.methods, method.verify module.tables = .ok () := by
  rw [← verifyTypes_eq_ok_iff, Module.verify]
  cases module.validate <;> simp

end NativeWeave
