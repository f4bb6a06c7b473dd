import NativeWeave.Marshalling.Fragment
import NativeWeave.Proofs.Code.Rearrangement
import NativeWeave.Proofs.Verification.Paths

namespace NativeWeave

/-!
# Depths of the stack as a certificate

A depth of the stack for every place that control reaches certifies that code is safe: each
instruction may run at the depth of its place, and it leaves the depth of every place to which
control goes on.  Safe code has such depths, namely those with which its paths arrive.

Fragments are certified from the depth with which they are entered to the depth with which control
comes to their end, if it comes there at all.  Certificates of fragments that follow one another
make a certificate of the whole.
-/

/-- The code ends with an instruction that does not go on, and all jumps lead to instructions. -/
structure Fragment.Closed (code : Fragment) : Prop where
  ends : ∃ last, code.getLast? = some last ∧ last.isTerminator = true
  targets : ∀ instr ∈ code, ∀ target ∈ instr.target?, target < code.length

namespace Fragment

/-- Code without jumps is the same wherever it stands. -/
theorem shift_eq {fragment : Fragment} (still : ∀ instr ∈ fragment, instr.target? = none)
    (distance : Nat) : fragment.shift distance = fragment :=
  (List.map_congr_left fun instr member => Instr.mapTarget_eq (still instr member) _).trans
    (List.map_id _)

/-- Fragments without jumps stay as they are when they are joined. -/
theorem concat_eq_flatten {fragments : List Fragment}
    (still : ∀ instr ∈ fragments.flatten, instr.target? = none) :
    concat fragments = fragments.flatten := by
  induction fragments with
  | nil => rfl
  | cons fragment more ih =>
    rw [List.flatten_cons, List.forall_mem_append] at still
    change fragment ++ (concat more).shift fragment.length = _
    rw [ih still.2, shift_eq still.2, List.flatten_cons]

end Fragment

namespace Frame

/-- The instruction may run at a depth of the stack and leaves another one. -/
structure Allows (frame : Frame) (instr : Instr) (before after : Nat) : Prop where
  enough : (frame.effect instr).pops ≤ before
  change : after + (frame.effect instr).pops = before + (frame.effect instr).pushes
  bounded : after ≤ maxDepth
  balanced : instr = .ret → after = 0

/-- Every instruction may run at the level of its place and leaves the level of each place to which
control goes on. -/
def Levels (frame : Frame) (instrs : List Instr) (level : Nat → Option Nat) : Prop :=
  ∀ index instr depth, level index = some depth → instrs[index]? = some instr →
    ∃ after, frame.Allows instr depth after ∧
      ∀ place, Flows instrs index place → level place = some after

variable {frame : Frame} {instrs : List Instr} {level : Nat → Option Nat}

section Certificate

variable {holds : Nat → Nat → Prop} (entry : holds 0 0)
  (step : ∀ index instr depth, holds index depth → instrs[index]? = some instr →
    ∃ after, frame.Allows instr depth after ∧ ∀ place, Flows instrs index place → holds place after)
include entry step

/-- A path arrives with a depth that is known of the place. -/
theorem exists_of_path {steps place : Nat} {depth : Int}
    (path : Path frame instrs steps place depth) :
    ∃ here : Nat, holds place here ∧ depth = here := by
  induction path with
  | entry => exact ⟨0, entry, rfl⟩
  | step before there flows ih =>
    rcases ih with ⟨here, known, rfl⟩
    rcases step _ _ _ known there with ⟨after, allows, onward⟩
    refine ⟨after, onward _ flows, ?_⟩
    have change := allows.change
    have enough := allows.enough
    unfold Frame.change
    omega

/-- Code is safe if the depths that control brings from one place to the next are one for each place
and none for the end. -/
theorem pathsSafe_of_holds
    (inside : ∀ place depth, holds place depth → place < instrs.length)
    (unique : ∀ place one other, holds place one → holds place other → one = other) :
    frame.PathsSafe instrs where
  inside path := by
    rcases exists_of_path entry step path with ⟨here, known, _⟩
    exact inside _ _ known
  enough path there := by
    rcases exists_of_path entry step path with ⟨here, known, rfl⟩
    rcases step _ _ _ known there with ⟨after, allows, _⟩
    exact Int.ofNat_le.mpr allows.enough
  bounded path there := by
    rcases exists_of_path entry step path with ⟨here, known, rfl⟩
    rcases step _ _ _ known there with ⟨after, allows, _⟩
    have change := allows.change
    have bounded : after ≤ 1024 := allows.bounded
    unfold Frame.change
    omega
  balanced path there := by
    rcases exists_of_path entry step path with ⟨here, known, rfl⟩
    rcases step _ _ _ known there with ⟨after, allows, _⟩
    have change := allows.change
    have balanced := allows.balanced rfl
    unfold Frame.change
    omega
  unique path other := by
    rcases exists_of_path entry step path with ⟨here, known, rfl⟩
    rcases exists_of_path entry step other with ⟨there, same, rfl⟩
    exact congrArg Nat.cast (unique _ _ _ known same)

end Certificate

/-- Code with a level for every place that control reaches is safe. -/
theorem Levels.pathsSafe (levels : frame.Levels instrs level) (entry : level 0 = some 0)
    (inside : ∀ place depth, level place = some depth → place < instrs.length) :
    frame.PathsSafe instrs :=
  let holds := fun place depth => level place = some depth
  have unique : ∀ place one other, holds place one → holds place other → one = other :=
    fun _ _ _ one other => Option.some.inj (one.symm.trans other)
  pathsSafe_of_holds entry levels inside unique

open Classical in
/-- The depth with which paths arrive at a place. -/
noncomputable def arrival (frame : Frame) (instrs : List Instr) (place : Nat) : Option Nat :=
  if reached : ∃ depth : Nat, ∃ steps, Path frame instrs steps place depth then
    some reached.choose
  else
    none

theorem exists_path_of_arrival {place depth : Nat}
    (reached : frame.arrival instrs place = some depth) :
    ∃ steps, Path frame instrs steps place depth := by
  unfold arrival at reached
  split at reached
  · next found =>
    cases reached
    exact found.choose_spec
  · cases reached

theorem PathsSafe.arrival_eq (safe : frame.PathsSafe instrs) {steps place depth : Nat}
    (path : Path frame instrs steps place depth) : frame.arrival instrs place = some depth := by
  unfold arrival
  have found : ∃ depth : Nat, ∃ steps, Path frame instrs steps place depth := ⟨depth, steps, path⟩
  rw [dif_pos found]
  rcases found.choose_spec with ⟨others, other⟩
  exact congrArg some (Int.ofNat_inj.mp (safe.unique other path))

/-- The depths with which its paths arrive are levels of safe code. -/
theorem PathsSafe.levels (safe : frame.PathsSafe instrs) :
    frame.Levels instrs (frame.arrival instrs) := by
  intro index instr depth reached here
  rcases exists_path_of_arrival reached with ⟨steps, path⟩
  have enough := safe.enough path here
  have bounded := safe.bounded path here
  have balanced : instr = .ret → (depth : Int) + frame.change instr = 0 := by
    rintro rfl
    exact safe.balanced path here
  unfold Frame.change at bounded balanced
  refine ⟨depth - (frame.effect instr).pops + (frame.effect instr).pushes,
    ⟨by omega, by omega, ?_, fun returns => ?_⟩, fun place flows => ?_⟩
  · unfold maxDepth
    omega
  · have := balanced returns
    omega
  · have next := path.step here flows
    have same : (depth : Int) + frame.change instr =
        (depth - (frame.effect instr).pops + (frame.effect instr).pushes : Nat) := by
      unfold Frame.change
      omega
    rw [same] at next
    exact safe.arrival_eq next

/-! ## Fragments -/

/-- Control that enters the code at a depth of the stack stays inside of it and comes to its end with
another depth, if it comes there at all. -/
structure Carries (frame : Frame) (code : Fragment) (start : Nat) (stop : Option Nat) : Prop where
  operands : ∀ instr ∈ code, frame.OperandFits instr
  inside : ∀ instr ∈ code, ∀ target ∈ instr.target?, target ≤ code.length
  /-- Control that never comes to the end cannot run there at all. -/
  closed : stop = none → code.Closed
  levels : ∃ level, frame.Levels code level ∧ level 0 = some start ∧ level code.length = stop ∧
    ∀ place, code.length < place → level place = none

theorem carries_nil (frame : Frame) (depth : Nat) : frame.Carries [] depth (some depth) where
  operands := List.forall_mem_nil _
  inside := List.forall_mem_nil _
  closed impossible := nomatch impossible
  levels := by
    refine ⟨fun place => if place = 0 then some depth else none, ?_, rfl, rfl, fun place behind => ?_⟩
    · intro index instr here _ impossible
      cases impossible
    · exact if_neg (Nat.ne_of_gt behind)

theorem OperandFits.mapTarget {instr : Instr} (fits : frame.OperandFits instr)
    (rename : Nat → Nat) : frame.OperandFits (instr.mapTarget rename) := by
  cases instr <;> exact fits

@[simp] theorem effect_mapTarget (frame : Frame) (rename : Nat → Nat) (instr : Instr) :
    frame.effect (instr.mapTarget rename) = frame.effect instr := by
  cases instr with
  | jump op target => cases op <;> rfl
  | _ => rfl

theorem eq_ret_of_mapTarget {rename : Nat → Nat} {instr : Instr}
    (returns : instr.mapTarget rename = Instr.ret) : instr = .ret := by
  cases instr <;> first | exact returns | cases returns

theorem Allows.mapTarget {instr : Instr} {before after : Nat}
    (allows : frame.Allows instr before after) (rename : Nat → Nat) :
    frame.Allows (instr.mapTarget rename) before after := by
  refine ⟨?_, ?_, allows.bounded, fun returns => allows.balanced (eq_ret_of_mapTarget returns)⟩
  · rw [effect_mapTarget]
    exact allows.enough
  · rw [effect_mapTarget]
    exact allows.change

/-- Control moves in the second of two fragments as it moves in that fragment alone. -/
theorem Flows.of_append_right {first second : Fragment} {index place : Nat}
    (flows : Flows (first.append second) (index + first.length) place) :
    ∃ inner, Flows second index inner ∧ place = inner + first.length := by
  have there : (first.append second)[index + first.length]? =
      second[index]?.map (·.mapTarget (· + first.length)) := by
    unfold Fragment.append Fragment.shift
    rw [List.getElem?_append_right (Nat.le_add_left _ _), Nat.add_sub_cancel, List.getElem?_map]
  cases flows with
  | next here goesOn =>
    rw [there] at here
    rcases Option.map_eq_some_iff.mp here with ⟨original, inner, rfl⟩
    rw [Instruction.isTerminator_mapTarget] at goesOn
    exact ⟨index + 1, .next inner goesOn, Nat.add_right_comm _ _ _⟩
  | jump here leads =>
    rw [there] at here
    rcases Option.map_eq_some_iff.mp here with ⟨original, inner, rfl⟩
    rw [Instruction.target?_mapTarget] at leads
    rcases Option.map_eq_some_iff.mp leads with ⟨target, aimed, rfl⟩
    exact ⟨target, .jump inner aimed, rfl⟩

theorem Flows.of_append_left {first second : Fragment} {index place : Nat}
    (inside : index < first.length) (flows : Flows (first.append second) index place) :
    Flows first index place := by
  have there : (first.append second)[index]? = first[index]? :=
    List.getElem?_append_left inside
  cases flows with
  | next here goesOn => exact .next (there.symm.trans here) goesOn
  | jump here leads => exact .jump (there.symm.trans here) leads

/-- Where control comes to the end of a fragment, it goes on with the next one. -/
theorem Carries.append {first second : Fragment} {start middle : Nat} {stop : Option Nat}
    (front : frame.Carries first start (some middle)) (back : frame.Carries second middle stop) :
    frame.Carries (first.append second) start stop := by
  have length : (first.append second).length = second.length + first.length := by
    unfold Fragment.append Fragment.shift
    rw [List.length_append, List.length_map, Nat.add_comm]
  refine ⟨?_, ?_, ?_, ?_⟩
  · refine List.forall_mem_append.mpr ⟨front.operands, List.forall_mem_map.mpr ?_⟩
    exact fun instr member => (back.operands instr member).mapTarget _
  · refine List.forall_mem_append.mpr ⟨fun instr member target leads => ?_,
      List.forall_mem_map.mpr fun instr member target leads => ?_⟩
    · have := front.inside instr member target leads
      omega
    · rw [Instruction.target?_mapTarget] at leads
      rcases Option.map_eq_some_iff.mp leads with ⟨inner, aimed, rfl⟩
      have := back.inside instr member inner aimed
      omega
  · intro never
    rcases back.closed never with ⟨⟨last, final, terminates⟩, targets⟩
    refine ⟨⟨last.mapTarget (· + first.length), ?_, ?_⟩,
      List.forall_mem_append.mpr ⟨fun instr member target leads => ?_,
        List.forall_mem_map.mpr fun instr member target leads => ?_⟩⟩
    · unfold Fragment.append Fragment.shift
      rw [List.getLast?_append, List.getLast?_map, final]
      rfl
    · rw [Instruction.isTerminator_mapTarget]
      exact terminates
    · have nonempty := List.length_pos_of_mem (List.mem_of_getLast? final)
      have := front.inside instr member target leads
      omega
    · rw [Instruction.target?_mapTarget] at leads
      rcases Option.map_eq_some_iff.mp leads with ⟨inner, aimed, rfl⟩
      have := targets instr member inner aimed
      omega
  · rcases front.levels with ⟨early, one, entry, joint, beyond⟩
    rcases back.levels with ⟨late, other, entered, final, behind⟩
    -- At the joint both certificates have the same depth.
    have joined : ∀ place, early place ≠ none → first.length ≤ place →
        early place = late (place - first.length) := by
      intro place reached order
      rcases Nat.eq_or_lt_of_le order with rfl | further
      · rw [Nat.sub_self, joint, entered]
      · exact (reached (beyond place further)).elim
    let level : Nat → Option Nat := fun place =>
      if place < first.length then early place else late (place - first.length)
    have inFront : ∀ place depth, early place = some depth → level place = some depth := by
      intro place depth known
      by_cases order : place < first.length
      · exact (if_pos order).trans known
      · refine (if_neg order).trans ?_
        rw [← joined place (by rw [known]; exact Option.some_ne_none _) (Nat.le_of_not_lt order)]
        exact known
    have inBack : ∀ place, level (place + first.length) = late place := by
      intro place
      refine (if_neg (by omega)).trans ?_
      rw [Nat.add_sub_cancel]
    refine ⟨level, ?_, inFront 0 start entry, ?_, fun place outside => ?_⟩
    · intro index instr depth known here
      by_cases order : index < first.length
      · have known : early index = some depth := (if_pos order).symm.trans known
        have here : first[index]? = some instr := (List.getElem?_append_left order).symm.trans here
        rcases one index instr depth known here with ⟨after, allows, onward⟩
        exact ⟨after, allows, fun place flows =>
          inFront place after (onward place (flows.of_append_left order))⟩
      · obtain ⟨inner, rfl⟩ := Nat.exists_eq_add_of_le' (Nat.le_of_not_lt order)
        rw [inBack] at known
        unfold Fragment.append Fragment.shift at here
        rw [List.getElem?_append_right (Nat.le_add_left _ _), Nat.add_sub_cancel,
          List.getElem?_map] at here
        rcases Option.map_eq_some_iff.mp here with ⟨original, there, rfl⟩
        rcases other inner original depth known there with ⟨after, allows, onward⟩
        refine ⟨after, allows.mapTarget _, fun place flows => ?_⟩
        rcases flows.of_append_right with ⟨target, moved, rfl⟩
        rw [inBack]
        exact onward target moved
    · rw [length, inBack]
      exact final
    · rw [length] at outside
      refine (if_neg (by omega)).trans (behind _ (by omega))

/-- A return takes what is returned and leaves nothing behind. -/
theorem carries_ret {depth : Nat} (takes : (if frame.returnsValue then 1 else 0) = depth) :
    frame.Carries [.ret] depth none where
  operands := List.forall_mem_singleton.mpr trivial
  inside := List.forall_mem_singleton.mpr fun _ impossible => nomatch impossible
  closed _ := ⟨⟨_, rfl, rfl⟩, List.forall_mem_singleton.mpr fun _ impossible => nomatch impossible⟩
  levels := by
    refine ⟨fun place => if place = 0 then some depth else none, ?_, rfl, rfl, fun place behind => ?_⟩
    · intro index instr here known there
      dsimp only at known
      split at known
      · next first =>
        subst first
        cases known
        cases there
        refine ⟨0, ⟨Nat.le_of_eq takes, ?_, Nat.zero_le _, fun _ => rfl⟩, fun place flows => ?_⟩
        · exact (Nat.zero_add _).trans takes
        · cases flows with
          | next here goesOn =>
            cases here
            cases goesOn
          | jump here leads =>
            cases here
            cases leads
      · cases known
    · exact if_neg (by simp only [List.length_singleton] at behind; omega)

/-- A jump past a fragment that comes to its end with the depth at which the jump leads there, or does
not come there at all. -/
theorem Carries.skip {jump : JumpOp} {body : Fragment} {depth : Nat} {stop : Option Nat}
    (conditional : jump ≠ .always) (shallow : depth ≤ maxDepth)
    (carries : frame.Carries body depth stop) (ends : ∀ other, stop = some other → other = depth) :
    frame.Carries (Fragment.skip jump body) (depth + 1) (some depth) := by
  have length : (Fragment.skip jump body).length = body.length + 1 := by
    unfold Fragment.skip Fragment.append Fragment.shift
    rw [List.length_append, List.length_map, List.length_singleton, Nat.add_comm]
  have effect : frame.effect (.jump jump (body.length + 1)) = ⟨1, 0⟩ := by
    cases jump with
    | always => exact (conditional rfl).elim
    | ifTrue => rfl
    | ifFalse => rfl
  have behind : ∀ index, (Fragment.skip jump body)[index + 1]? =
      body[index]?.map (·.mapTarget (· + 1)) := fun index => List.getElem?_map ..
  refine ⟨?_, ?_, (fun impossible => nomatch impossible), ?_⟩
  · refine List.forall_mem_cons.mpr ⟨trivial, List.forall_mem_map.mpr fun instr member => ?_⟩
    exact (carries.operands instr member).mapTarget _
  · rw [length]
    refine List.forall_mem_cons.mpr ⟨?_, List.forall_mem_map.mpr fun instr member target leads => ?_⟩
    · rintro target ⟨rfl⟩
      exact Nat.le_refl _
    · rw [Instruction.target?_mapTarget] at leads
      rcases Option.map_eq_some_iff.mp leads with ⟨inner, aimed, rfl⟩
      exact Nat.succ_le_succ (carries.inside instr member inner aimed)
  · rcases carries.levels with ⟨inner, levels, entry, final, beyond⟩
    let level : Nat → Option Nat := fun place =>
      if place = 0 then some (depth + 1)
      else if place = body.length + 1 then some depth
      else inner (place - 1)
    have last : level (body.length + 1) = some depth :=
      (if_neg (Nat.succ_ne_zero _)).trans (if_pos rfl)
    have within : ∀ place after, inner place = some after → level (place + 1) = some after := by
      intro place after known
      by_cases ending : place = body.length
      · subst ending
        rw [last, ends after (final.symm.trans known)]
      · exact (if_neg (Nat.succ_ne_zero _)).trans ((if_neg (by omega)).trans known)
    refine ⟨level, ?_, rfl, length ▸ last, fun place outside => ?_⟩
    · intro index instr here known there
      cases index with
      | zero =>
        cases known
        cases there
        refine ⟨depth, ⟨?_, ?_, shallow, fun impossible => nomatch impossible⟩, fun place flows => ?_⟩
        · rw [effect]
          exact Nat.succ_le_succ (Nat.zero_le _)
        · rw [effect]
          exact rfl
        · cases flows with
          | next _ _ => exact within 0 depth entry
          | jump here leads =>
            cases here
            cases leads
            exact last
      | succ index =>
        rw [behind] at there
        rcases Option.map_eq_some_iff.mp there with ⟨original, inside, rfl⟩
        have order := (List.getElem?_eq_some_iff.mp inside).1
        have known : inner index = some here := by
          refine Eq.trans ?_ known
          exact ((if_neg (Nat.succ_ne_zero _)).trans (if_neg (by omega))).symm
        rcases levels index original here known inside with ⟨after, allows, onward⟩
        refine ⟨after, allows.mapTarget _, fun place flows => ?_⟩
        have behind : Flows (Fragment.append [.jump jump (body.length + 1)] body)
            (index + [Instruction.jump jump (body.length + 1)].length) place := flows
        rcases Flows.of_append_right behind with ⟨target, moved, rfl⟩
        exact within target after (onward target moved)
    · rw [length] at outside
      exact (if_neg (by omega)).trans ((if_neg (by omega)).trans (beyond _ (by omega)))

/-! ## Instructions in place of others -/

/-- The second instruction may stand wherever the first one does. -/
structure Stands (frame : Frame) (instr other : Instr) : Prop where
  fits : frame.OperandFits instr → frame.OperandFits other
  effect : frame.effect other = frame.effect instr
  target : other.target? = instr.target?
  terminator : other.isTerminator = instr.isTerminator
  returns : other = .ret → instr = .ret

theorem Stands.refl (frame : Frame) (instr : Instr) : frame.Stands instr instr :=
  ⟨id, rfl, rfl, rfl, id⟩

theorem Stands.allows {instr other : Instr} {before after : Nat} (stands : frame.Stands instr other)
    (allows : frame.Allows instr before after) : frame.Allows other before after := by
  refine ⟨?_, ?_, allows.bounded, fun returns => allows.balanced (stands.returns returns)⟩
  · rw [stands.effect]
    exact allows.enough
  · rw [stands.effect]
    exact allows.change

theorem Carries.map {code : Fragment} {replace : Instr → Instr} {start : Nat} {stop : Option Nat}
    (carries : frame.Carries code start stop)
    (stands : ∀ instr ∈ code, frame.Stands instr (replace instr)) :
    frame.Carries (code.map replace) start stop := by
  have original : ∀ {index : Nat} {instr}, (code.map replace)[index]? = some instr →
      ∃ source, code[index]? = some source ∧ source ∈ code ∧ instr = replace source := by
    intro index instr here
    rw [List.getElem?_map] at here
    rcases Option.map_eq_some_iff.mp here with ⟨source, there, rfl⟩
    exact ⟨source, there, List.mem_of_getElem? there, rfl⟩
  refine ⟨?_, ?_, fun never => ?_, ?_⟩
  · exact List.forall_mem_map.mpr fun instr member =>
      (stands instr member).fits (carries.operands instr member)
  · refine List.forall_mem_map.mpr fun instr member target leads => ?_
    rw [(stands instr member).target] at leads
    rw [List.length_map]
    exact carries.inside instr member target leads
  · rcases carries.closed never with ⟨⟨last, final, terminates⟩, targets⟩
    refine ⟨⟨replace last, ?_, ?_⟩, List.forall_mem_map.mpr fun instr member target leads => ?_⟩
    · rw [List.getLast?_map, final]
      rfl
    · rw [(stands last (List.mem_of_getLast? final)).terminator]
      exact terminates
    · rw [(stands instr member).target] at leads
      rw [List.length_map]
      exact targets instr member target leads
  · rcases carries.levels with ⟨level, levels, entry, final, beyond⟩
    rw [List.length_map]
    refine ⟨level, fun index instr depth known here => ?_, entry, final, beyond⟩
    rcases original here with ⟨source, there, member, rfl⟩
    rcases levels index source depth known there with ⟨after, allows, onward⟩
    refine ⟨after, (stands source member).allows allows, fun place flows => onward place ?_⟩
    cases flows with
    | next same goesOn =>
      cases here.symm.trans same
      exact .next there ((stands source member).terminator ▸ goesOn)
    | jump same leads =>
      cases here.symm.trans same
      exact .jump there ((stands source member).target ▸ leads)

/-! ## Straight code -/

/-- Control runs straight through the code, which changes one depth of the stack into another. -/
inductive Moves (frame : Frame) : (code : Fragment) → (before after : Nat) → Prop
  | done {depth : Nat} : Moves frame [] depth depth
  | step {instr : Instr} {more : Fragment} {before middle after : Nat}
      (straight : instr.Straight) (fits : frame.OperandFits instr)
      (allows : frame.Allows instr before middle) (rest : Moves frame more middle after) :
      Moves frame (instr :: more) before after

theorem Moves.append {first second : Fragment} {before middle after : Nat}
    (front : frame.Moves first before middle) (back : frame.Moves second middle after) :
    frame.Moves (first ++ second) before after := by
  induction front with
  | done => exact back
  | step straight fits allows _ ih => exact .step straight fits allows (ih back)

theorem Moves.straight {code : Fragment} {before after : Nat} (moves : frame.Moves code before after) :
    ∀ instr ∈ code, instr.Straight := by
  induction moves with
  | done => exact List.forall_mem_nil _
  | step straight _ _ _ ih => exact List.forall_mem_cons.mpr ⟨straight, ih⟩

/-- Straight code is the same wherever it stands. -/
theorem Moves.shift_eq {code : Fragment} {before after : Nat}
    (moves : frame.Moves code before after) (distance : Nat) : code.shift distance = code :=
  Fragment.shift_eq (fun instr member => (moves.straight instr member).leadsNowhere) distance

theorem carries_of_straight {instr : Instr} {before after : Nat} (straight : instr.Straight)
    (fits : frame.OperandFits instr) (allows : frame.Allows instr before after) :
    frame.Carries [instr] before (some after) where
  operands := List.forall_mem_singleton.mpr fits
  inside := by
    refine List.forall_mem_singleton.mpr fun target leads => ?_
    cases straight.leadsNowhere.symm.trans leads
  closed impossible := nomatch impossible
  levels := by
    refine ⟨fun place => if place = 0 then some before else if place = 1 then some after else none,
      ?_, rfl, rfl, fun place outside => ?_⟩
    · intro index other depth known here
      cases index with
      | zero =>
        cases known
        cases here
        refine ⟨after, allows, fun place flows => ?_⟩
        rw [flows.eq_next rfl straight]
        rfl
      | succ index => cases here
    · rw [List.length_singleton] at outside
      exact (if_neg (by omega)).trans (if_neg (by omega))

theorem Moves.carries {code : Fragment} {before after : Nat}
    (moves : frame.Moves code before after) : frame.Carries code before (some after) := by
  induction moves with
  | done => exact carries_nil frame _
  | @step instr more _ _ _ straight fits allows rest ih =>
    have whole := (carries_of_straight straight fits allows).append ih
    have same : Fragment.append [instr] more = instr :: more :=
      congrArg (instr :: ·) (rest.shift_eq 1)
    rwa [same] at whole

/-- An instruction takes some values, which are there, and leaves others, for which there is room. -/
theorem moves_of_effect {instr : Instr} {takes leaves before after : Nat}
    (goesOn : instr.isTerminator = false) (leadsNowhere : instr.target? = none)
    (fits : frame.OperandFits instr) (effect : frame.effect instr = ⟨takes, leaves⟩)
    (counts : takes ≤ before ∧ after + takes = before + leaves ∧ after ≤ 1024) :
    frame.Moves [instr] before after := by
  refine .step ⟨goesOn, leadsNowhere⟩ fits ⟨?_, ?_, counts.2.2, ?_⟩ .done
  · rw [effect]
    exact counts.1
  · rw [effect]
    exact counts.2.1
  · rintro rfl
    cases goesOn

end Frame

end NativeWeave
