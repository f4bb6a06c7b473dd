import NativeWeave.Proofs.Code.Execution
import NativeWeave.Proofs.Format.Code

namespace NativeWeave

/-!
# Code with instructions taken out and put in

When instructions are taken out of code, those that stay keep their order, and a jump to one that
goes leads to what comes after it.  That is said by the new place of every old one: the place of an
instruction that goes is that of its successor.  Removals one after another are again one removal.

Instructions that are put in stand behind the one before them; a jump to the place where they are
put leads past them.
-/

namespace Instruction

variable {First Second Third : Type}

@[simp] theorem mapTarget_mapTarget (rename : First → Second) (again : Second → Third)
    (instr : Instruction First) :
    (instr.mapTarget rename).mapTarget again = instr.mapTarget (again ∘ rename) := by
  cases instr <;> rfl

@[simp] theorem mapTarget_id (instr : Instruction First) : instr.mapTarget id = instr := by
  cases instr <;> rfl

@[simp] theorem target?_mapTarget (rename : First → Second) (instr : Instruction First) :
    (instr.mapTarget rename).target? = instr.target?.map rename := by
  cases instr <;> rfl

@[simp] theorem isTerminator_mapTarget (rename : First → Second) (instr : Instruction First) :
    (instr.mapTarget rename).isTerminator = instr.isTerminator := by
  cases instr <;> rfl

end Instruction

@[simp] theorem Instr.act_mapTarget (rename : Nat → Nat) (instr : Instr) :
    Instr.act (instr.mapTarget rename) = instr.act :=
  Instruction.mapTarget_mapTarget rename _ instr

/-- An instruction without a target is the same wherever it stands. -/
theorem Instr.mapTarget_eq {instr : Instr} (leadsNowhere : instr.target? = none)
    (rename : Nat → Nat) : instr.mapTarget rename = instr := by
  cases instr with
  | jump op target => cases leadsNowhere
  | _ => rfl

namespace Code

/-- The second sequence is the first one without the instructions that are dropped; `place` says
where each instruction is found, and where a jump to it leads. -/
structure Drops (source target : List Instr) (place : Nat → Nat) (dropped : Nat → Prop) : Prop where
  start : place 0 = 0
  gone : ∀ {index}, dropped index → place (index + 1) = place index
  kept : ∀ {index}, ¬ dropped index → place (index + 1) = place index + 1
  there : ∀ {index}, ¬ dropped index →
    target[place index]? = source[index]?.map (·.mapTarget place)

namespace Drops

variable {source middle target : List Instr} {place further : Nat → Nat}
  {dropped others : Nat → Prop}

theorem refl (source : List Instr) : Drops source source id fun _ => False where
  start := rfl
  gone impossible := impossible.elim
  kept _ := rfl
  there {index} _ := by
    change source[index]? = _
    cases source[index]? with
    | none => rfl
    | some instr => exact congrArg some instr.mapTarget_id.symm

theorem congr (drops : Drops source target place dropped)
    (same : ∀ index, dropped index ↔ others index) : Drops source target place others := by
  rwa [← show dropped = others from funext fun index => propext (same index)]

/-- Removals one after another. -/
theorem trans (first : Drops source middle place dropped)
    (second : Drops middle target further others) :
    Drops source target (further ∘ place) fun index => dropped index ∨ others (place index) where
  start := (congrArg further first.start).trans second.start
  gone {index} either := by
    change further (place (index + 1)) = further (place index)
    by_cases one : dropped index
    · rw [first.gone one]
    · rw [first.kept one]
      exact second.gone (either.resolve_left one)
  kept {index} neither := by
    change further (place (index + 1)) = further (place index) + 1
    rw [not_or] at neither
    rw [first.kept neither.1]
    exact second.kept neither.2
  there {index} neither := by
    rw [not_or] at neither
    change target[further (place index)]? = _
    rw [second.there neither.2, first.there neither.1, Option.map_map]
    congr 1
    funext instr
    exact instr.mapTarget_mapTarget place further

theorem monotone (drops : Drops source target place dropped) {index later : Nat}
    (order : index ≤ later) : place index ≤ place later := by
  induction order with
  | refl => exact Nat.le_refl _
  | @step middle _ ih =>
    refine Nat.le_trans ih ?_
    by_cases goes : dropped middle
    · exact Nat.le_of_eq (drops.gone goes).symm
    · rw [drops.kept goes]
      exact Nat.le_succ _

/-- What stays is found in front of what came after it. -/
theorem lt_of_lt (drops : Drops source target place dropped) {index later : Nat}
    (stays : ¬ dropped index) (order : index < later) : place index < place later := by
  have next : place (index + 1) ≤ place later := drops.monotone order
  rw [drops.kept stays] at next
  exact next

/-- Everything in the target comes from an instruction that stays. -/
theorem exists_kept (drops : Drops source target place dropped) {bound found : Nat}
    (inside : found < place bound) : ∃ index < bound, ¬ dropped index ∧ place index = found := by
  induction bound with
  | zero =>
    rw [drops.start] at inside
    cases inside
  | succ bound ih =>
    by_cases goes : dropped bound
    · rw [drops.gone goes] at inside
      rcases ih inside with ⟨index, before, stays, same⟩
      exact ⟨index, Nat.lt_succ_of_lt before, stays, same⟩
    · rw [drops.kept goes] at inside
      rcases Nat.lt_succ_iff_lt_or_eq.mp inside with earlier | rfl
      · rcases ih earlier with ⟨index, before, stays, same⟩
        exact ⟨index, Nat.lt_succ_of_lt before, stays, same⟩
      · exact ⟨bound, Nat.lt_succ_self bound, goes, rfl⟩

/-- If nothing is dropped at the end or behind it, the end of the target is the place of the end. -/
theorem length_eq (drops : Drops source target place dropped)
    (behind : ¬ dropped source.length) : target.length = place source.length := by
  have ending := drops.there behind
  rw [List.getElem?_eq_none (Nat.le_refl _)] at ending
  refine Nat.le_antisymm (List.getElem?_eq_none_iff.mp ending) (Nat.le_of_not_lt fun short => ?_)
  rcases drops.exists_kept short with ⟨index, before, stays, same⟩
  have present := drops.there stays
  rw [same, List.getElem?_eq_none (Nat.le_refl _), List.getElem?_eq_getElem before] at present
  cases present

theorem exists_of_mem (drops : Drops source target place dropped)
    (behind : ¬ dropped source.length) {instr : Instr} (member : instr ∈ target) :
    ∃ original ∈ source, instr = original.mapTarget place := by
  rcases List.mem_iff_getElem?.mp member with ⟨spot, here⟩
  have within := (List.getElem?_eq_some_iff.mp here).1
  rw [drops.length_eq behind] at within
  rcases drops.exists_kept within with ⟨index, before, stays, rfl⟩
  rw [drops.there stays] at here
  rcases Option.map_eq_some_iff.mp here with ⟨original, there, rfl⟩
  exact ⟨original, List.mem_of_getElem? there, rfl⟩

/-- Jumps keep to the code when its last instruction stays. -/
theorem targetsInside (drops : Drops source target place dropped)
    (behind : ∀ index, source.length ≤ index + 1 → ¬ dropped index)
    (inside : ({ instrs := source } : Code).TargetsInside) :
    ({ instrs := target } : Code).TargetsInside := by
  intro instr member found leads
  rcases drops.exists_of_mem (behind _ (Nat.le_succ _)) member with ⟨original, old, rfl⟩
  rw [Instruction.target?_mapTarget] at leads
  rcases Option.map_eq_some_iff.mp leads with ⟨aim, aimed, rfl⟩
  have near : aim < source.length := inside original old aim aimed
  change place aim < target.length
  rw [drops.length_eq (behind _ (Nat.le_succ _))]
  have last : aim ≤ source.length - 1 := Nat.le_sub_one_of_lt near
  refine Nat.lt_of_le_of_lt (drops.monotone last) (drops.lt_of_lt (behind _ ?_) ?_) <;> omega

end Drops

variable {code rest : Code}

/-! ## What the editor does -/

theorem drops_of_remove? {index : Nat} {removed : Instr}
    (edited : code.remove? index = some (removed, rest)) :
    Drops code.instrs rest.instrs (fun place => if index < place then place - 1 else place)
      (· = index) := by
  unfold remove? at edited
  cases here : code.instrs[index]? with
  | none =>
    rw [here] at edited
    cases edited
  | some instr =>
    rw [here] at edited
    cases edited
    refine ⟨rfl, fun {place} same => ?_, fun {place} other => ?_, fun {place} other => ?_⟩
    · subst same
      rw [if_pos (Nat.lt_succ_self _), if_neg (Nat.lt_irrefl _), Nat.add_sub_cancel]
    · split <;> split <;> omega
    · change (List.map _ (code.instrs.eraseIdx index))[_]? = _
      rw [List.getElem?_map, List.getElem?_eraseIdx]
      congr 1
      split
      · next before =>
        rw [if_neg (by omega), Nat.sub_add_cancel (by omega)]
      · rw [if_pos (by omega)]

theorem drops_of_removeRange? {index count : Nat} {removed : List Instr}
    (edited : code.removeRange? index count = some (removed, rest)) :
    ∃ place, Drops code.instrs rest.instrs place (fun old => index ≤ old ∧ old < index + count) ∧
      (∀ old ≤ index, place old = old) ∧ ∀ old, index + count ≤ old → place old + count = old := by
  induction count generalizing code removed with
  | zero =>
    cases edited
    refine ⟨id, (Drops.refl _).congr ?_, fun _ _ => rfl, fun _ _ => rfl⟩
    intro old
    constructor
    · exact False.elim
    · omega
  | succ count ih =>
    rcases Option.bind_eq_some_iff.mp edited with ⟨⟨first, shorter⟩, one, edited⟩
    rcases Option.bind_eq_some_iff.mp edited with ⟨⟨others, last⟩, more, final⟩
    cases final
    rcases ih more with ⟨further, drops, before, behind⟩
    refine ⟨_, ((drops_of_remove? one).trans drops).congr ?_, ?_, ?_⟩
    · intro old
      split <;> omega
    · intro old order
      change further (if index < old then old - 1 else old) = old
      rw [if_neg (by omega)]
      exact before old order
    · intro old order
      change further (if index < old then old - 1 else old) + (count + 1) = old
      rw [if_pos (by omega)]
      have := behind (old - 1) (by omega)
      omega

theorem size_of_remove? {index : Nat} {removed : Instr}
    (cut : code.remove? index = some (removed, rest)) : rest.size + 1 = code.size := by
  unfold remove? at cut
  split at cut
  · cases cut
  · next here =>
    cases cut
    have within := (List.getElem?_eq_some_iff.mp here).1
    change ((code.instrs.eraseIdx index).map _).length + 1 = code.instrs.length
    rw [List.length_map, List.length_eraseIdx_of_lt within]
    exact Nat.sub_add_cancel (Nat.one_le_of_lt within)

theorem size_of_removeRange? {index count : Nat} {removed : List Instr}
    (cut : code.removeRange? index count = some (removed, rest)) :
    rest.size + count = code.size := by
  induction count generalizing code removed with
  | zero =>
    cases cut
    rfl
  | succ count ih =>
    rcases Option.bind_eq_some_iff.mp cut with ⟨⟨first, shorter⟩, one, cut⟩
    rcases Option.bind_eq_some_iff.mp cut with ⟨⟨others, last⟩, more, final⟩
    cases final
    have := ih more
    have := size_of_remove? one
    omega

/-- An instruction that is there can be taken out. -/
theorem exists_remove? {index : Nat} (inside : index < code.size) :
    ∃ removed rest, code.remove? index = some (removed, rest) := by
  unfold remove?
  rw [List.getElem?_eq_getElem inside]
  exact ⟨_, _, rfl⟩

theorem exists_removeRange? {index count : Nat} (inside : index + count ≤ code.size) :
    ∃ removed rest, code.removeRange? index count = some (removed, rest) := by
  induction count generalizing code with
  | zero => exact ⟨[], code, rfl⟩
  | succ count ih =>
    obtain ⟨first, shorter, one⟩ := exists_remove? (show index < code.size by omega)
    have size := size_of_remove? one
    obtain ⟨others, rest, more⟩ : ∃ others rest,
        shorter.removeRange? index count = some (others, rest) := ih (by omega)
    exact ⟨first :: others, rest, by simp [removeRange?, one, more]⟩

/-- Instructions can be put in front of every instruction, and behind all of them. -/
theorem exists_insert? {index : Nat} (inside : index ≤ code.size) (added : List Instr) :
    ∃ result, code.insert? index added = some result := by
  unfold insert?
  split <;> exact ⟨_, rfl⟩

/-- Where a place is found after an insertion at an index. -/
def placeBehind (index count place : Nat) : Nat :=
  if index ≤ place then place + count else place

theorem getElem?_spliced {α : Type} {items : List α} (added : List α) {index : Nat}
    (inside : index ≤ items.length) :
    (∀ place, (items.take index ++ added ++ items.drop index)[
      placeBehind index added.length place]? = items[place]?) ∧
    ∀ offset < added.length,
      (items.take index ++ added ++ items.drop index)[index + offset]? = added[offset]? := by
  have front : (items.take index).length = index := by
    rw [List.length_take]
    exact Nat.min_eq_left inside
  rw [List.append_assoc]
  constructor
  · intro place
    by_cases behind : index ≤ place
    · rw [placeBehind, if_pos behind, List.getElem?_append_right (by omega), front,
        List.getElem?_append_right (by omega), List.getElem?_drop]
      congr 1
      omega
    · rw [placeBehind, if_neg behind, List.getElem?_append_left (by omega),
        List.getElem?_take_of_lt (by omega)]
  · intro offset short
    rw [List.getElem?_append_right (by omega), front, Nat.add_sub_cancel_left,
      List.getElem?_append_left short]

theorem getElem?_of_insert? {index : Nat} {added : List Instr}
    (edited : code.insert? index added = some rest) :
    (∀ place, rest.instrs[placeBehind index added.length place]? =
      code.instrs[place]?.map (·.mapTarget (placeBehind index added.length))) ∧
    ∀ offset < added.length, rest.instrs[index + offset]? = added[offset]? := by
  unfold insert? at edited
  split at edited
  · next empty =>
    cases edited
    rw [List.isEmpty_iff.mp empty]
    have still : placeBehind index ([] : List Instr).length = id := by
      funext place
      exact ite_self place
    rw [still]
    refine ⟨fun place => ?_, fun offset impossible => nomatch impossible⟩
    rw [show (fun instr : Instr => instr.mapTarget id) = id from funext Instruction.mapTarget_id,
      Option.map_id]
    rfl
  · split at edited
    · next inside =>
      cases edited
      have sized :
          index ≤ (code.instrs.map (·.mapTarget (placeBehind index added.length))).length := by
        rw [List.length_map]
        exact inside
      have spliced := getElem?_spliced added sized
      refine ⟨fun place => ?_, spliced.2⟩
      rw [← List.getElem?_map]
      exact spliced.1 place
    · cases edited

theorem length_of_insert? {index : Nat} {added : List Instr}
    (edited : code.insert? index added = some rest) :
    rest.instrs.length = code.instrs.length + added.length := by
  unfold insert? at edited
  split at edited
  · next empty =>
    cases edited
    rw [List.isEmpty_iff.mp empty]
    rfl
  · split at edited
    · next inside =>
      cases edited
      change index ≤ code.instrs.length at inside
      simp only [renumber, List.length_append, List.length_take, List.length_drop, List.length_map]
      omega
    · cases edited

/-- What stands in the code afterwards stood there before or was put in. -/
theorem mem_of_insert? {index : Nat} {added : List Instr} {instr : Instr}
    (edited : code.insert? index added = some rest) (member : instr ∈ rest.instrs) :
    (∃ original ∈ code.instrs, instr = original.mapTarget (placeBehind index added.length)) ∨
      instr ∈ added := by
  rcases List.mem_iff_getElem?.mp member with ⟨place, here⟩
  have inside := (List.getElem?_eq_some_iff.mp here).1
  rcases getElem?_of_insert? edited with ⟨kept, put⟩
  have moved : ∀ {old : Nat}, placeBehind index added.length old = place →
      ∃ original ∈ code.instrs, instr = original.mapTarget (placeBehind index added.length) := by
    rintro old rfl
    rw [kept] at here
    rcases Option.map_eq_some_iff.mp here with ⟨original, there, rfl⟩
    exact ⟨original, List.mem_of_getElem? there, rfl⟩
  by_cases early : place < index
  · exact .inl (moved (if_neg (Nat.not_le_of_lt early)))
  · by_cases late : index + added.length ≤ place
    · have stood : placeBehind index added.length (place - added.length) = place := by
        rw [placeBehind, if_pos (by omega)]
        omega
      exact .inl (moved stood)
    · have new := put (place - index) (by omega)
      rw [Nat.add_sub_cancel' (Nat.le_of_not_lt early), here] at new
      exact .inr (List.mem_of_getElem? new.symm)

/-- Jumps keep to the code when straight instructions are put in. -/
theorem targetsInside_of_insert? {index : Nat} {added : List Instr}
    (edited : code.insert? index added = some rest) (straight : ∀ instr ∈ added, instr.Straight)
    (inside : code.TargetsInside) : rest.TargetsInside := by
  intro instr member found leads
  change found < rest.instrs.length
  rw [length_of_insert? edited]
  rcases mem_of_insert? edited member with ⟨original, old, rfl⟩ | new
  · rw [Instruction.target?_mapTarget] at leads
    rcases Option.map_eq_some_iff.mp leads with ⟨aim, aimed, rfl⟩
    have near : aim < code.instrs.length := inside original old aim aimed
    unfold placeBehind
    split <;> omega
  · cases (straight instr new).leadsNowhere.symm.trans leads

end Code

end NativeWeave
