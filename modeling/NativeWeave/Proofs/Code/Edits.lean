import Mathlib.Data.List.Induction
import Mathlib.Data.List.InsertIdx
import Mathlib.Logic.Function.Iterate
import NativeWeave.Proofs.Format.Body

namespace NativeWeave

/-!
# Edits one after another

An edit moves the instructions behind it.  What stays is found at its new place with the same
operation, its jumps lead to where their targets have been moved, and it comes from the same line of
the source.  One edit does so, and what several of them do is put together from that.

Jumps keep to the code as long as what is put in does, and as long as nothing is taken away at the
end that an instruction in front of it leads to.
-/

namespace Code

variable {source middle target code rest : Code}

/-! ## Source lines -/

theorem foldl_laterPoint {points : List SourcePoint}
    (ordered : points.Pairwise (·.index ≤ ·.index)) :
    points.foldl laterPoint none = points.getLast? := by
  induction points using List.reverseRecOn with
  | nil => rfl
  | append_singleton front last ih =>
    rw [List.pairwise_append] at ordered
    rw [List.foldl_append, List.foldl_cons, List.foldl_nil, ih ordered.1, List.getLast?_concat]
    cases found : front.getLast? with
    | none => rfl
    | some point =>
      have before : point.index ≤ last.index :=
        ordered.2.2 point (List.mem_of_getLast? found) last (List.mem_singleton_self _)
      exact if_neg (Nat.not_lt_of_le before)

/-- Of points in order the last one that is not behind an instruction covers it. -/
theorem Ordered.lineAt?_eq (ordered : code.Ordered) (index : Nat) :
    code.lineAt? index = (code.points.filter (·.index ≤ index)).getLast?.map fun point =>
      (point.line, point.column) := by
  rw [lineAt?, foldl_laterPoint (ordered.filter _)]

/-! ## What is left of code -/

/-- The instructions of the first code that stay stand in the second one at other places: in the
same order, with jumps that follow their targets, and at the same lines of the source. -/
structure Keeps (source target : Code) (place : Nat → Nat) (stays : Nat → Prop) : Prop where
  monotone : ∀ {first second}, first ≤ second → place first ≤ place second
  apart : ∀ {first second}, stays first → first < second → place first < place second
  there : ∀ {index instr}, stays index → source.instrs[index]? = some instr →
    target.instrs[place index]? = some (instr.mapTarget place)
  pointsInside : source.PointsInside → target.PointsInside
  ordered : source.Ordered → target.Ordered
  lineAt : source.Ordered → ∀ {index}, stays index → index < source.size →
    target.lineAt? (place index) = source.lineAt? index

namespace Keeps

variable {place further : Nat → Nat} {stays others : Nat → Prop}

theorem refl (code : Code) : code.Keeps code id fun _ => True where
  monotone order := order
  apart _ order := order
  there {index instr} _ here := by
    rw [Instruction.mapTarget_id]
    exact here
  pointsInside := id
  ordered := id
  lineAt _ _ _ _ := rfl

theorem trans (first : source.Keeps middle place stays)
    (second : middle.Keeps target further others) :
    source.Keeps target (further ∘ place) fun index => stays index ∧ others (place index) where
  monotone order := second.monotone (first.monotone order)
  apart both order := second.apart both.2 (first.apart both.1 order)
  there both here := by
    have moved := second.there both.2 (first.there both.1 here)
    rwa [Instruction.mapTarget_mapTarget] at moved
  pointsInside := second.pointsInside ∘ first.pointsInside
  ordered := second.ordered ∘ first.ordered
  lineAt ordered {index} both inside := by
    have moved := first.there both.1 (List.getElem?_eq_getElem inside)
    have within : place index < middle.size := (List.getElem?_eq_some_iff.mp moved).1
    calc
      target.lineAt? (further (place index)) = middle.lineAt? (place index) :=
        second.lineAt (first.ordered ordered) both.2 within
      _ = source.lineAt? index := first.lineAt ordered both.1 inside

theorem congr (keeps : source.Keeps target place stays)
    (same : ∀ index, stays index ↔ others index) : source.Keeps target place others := by
  rwa [← show stays = others from funext fun index => propext (same index)]

/-- Source points that move with their instructions keep them at their lines, even if points go that
cover none of those that stay. -/
theorem of_points (kept : SourcePoint → Bool)
    (monotone : ∀ {first second}, first ≤ second → place first ≤ place second)
    (apart : ∀ {first second}, stays first → first < second → place first < place second)
    (there : ∀ {index instr}, stays index → source.instrs[index]? = some instr →
      target.instrs[place index]? = some (instr.mapTarget place))
    (points : target.points =
      (source.points.map fun point => { point with index := place point.index }).filter kept)
    (covers : ∀ point : SourcePoint, point.index < target.size → kept point = true)
    (within : ∀ point : SourcePoint, point.index < source.size →
      kept { point with index := place point.index } = true → place point.index < target.size) :
    source.Keeps target place stays := by
  have moved : source.Ordered → target.Ordered := by
    intro ordered
    rw [Ordered, points]
    apply List.Pairwise.filter
    apply List.pairwise_map.mpr
    exact ordered.imp monotone
  have covered : source.PointsInside → target.PointsInside := by
    intro inside point member
    rw [points] at member
    rcases List.mem_filter.mp member with ⟨member, keeps⟩
    rcases List.mem_map.mp member with ⟨original, old, rfl⟩
    exact within original (inside original old) keeps
  refine ⟨monotone, apart, there, covered, moved, fun ordered index staying inside => ?_⟩
  have found := there staying (List.getElem?_eq_getElem inside)
  have here : place index < target.size := (List.getElem?_eq_some_iff.mp found).1
  have covering : target.points.filter (·.index ≤ place index) =
      (source.points.filter (·.index ≤ index)).map fun point =>
        { point with index := place point.index } := by
    rw [points, List.filter_filter, List.filter_map]
    congr 1
    apply List.filter_congr
    intro point _
    by_cases before : point.index ≤ index
    · have order : place point.index ≤ place index := monotone before
      have stays := covers { point with index := place point.index }
        (Nat.lt_of_le_of_lt order here)
      simp [before, order, stays]
    · have order := apart staying (Nat.lt_of_not_le before)
      simp [before, Nat.not_le_of_lt order]
  rw [(moved ordered).lineAt?_eq, ordered.lineAt?_eq, covering, List.getLast?_map, Option.map_map]
  rfl

end Keeps

/-! ## Single edits -/

theorem keeps_of_insert? {index : Nat} {added : List Instr}
    (edited : code.insert? index added = some rest) :
    code.Keeps rest (placeBehind index added.length) fun _ => True := by
  have sized : rest.size = code.size + added.length := length_of_insert? edited
  refine .of_points (fun _ => true) ?_ ?_ ?_ ?_ (fun _ _ => rfl) fun point inside _ => ?_
  · intro first second order
    unfold placeBehind
    split <;> split <;> omega
  · intro first second _ order
    unfold placeBehind
    split <;> split <;> omega
  · intro place instr _ here
    rw [(getElem?_of_insert? edited).1, here]
    rfl
  · rw [List.filter_true]
    unfold insert? at edited
    split at edited
    · next empty =>
      cases edited
      rw [List.isEmpty_iff.mp empty]
      simp [placeBehind]
    · split at edited
      · cases edited
        rfl
      · cases edited
  · rw [sized]
    unfold placeBehind
    split <;> omega

/-- Where a place is found after so many instructions have been put in place of the one at an
index. -/
def placeInstead (index count place : Nat) : Nat :=
  if index < place then place + count - 1 else place

theorem placeInstead_mono {index count first second : Nat} (order : first ≤ second) :
    placeInstead index count first ≤ placeInstead index count second := by
  unfold placeInstead
  split <;> split <;> omega

theorem placeInstead_lt {index count first second : Nat} (stays : first ≠ index)
    (order : first < second) :
    placeInstead index count first < placeInstead index count second := by
  unfold placeInstead
  split <;> split <;> omega

/-- What is left when an instruction is taken out. -/
theorem eq_of_remove? {index : Nat} {removed : Instr}
    (edited : code.remove? index = some (removed, rest)) :
    rest.instrs = (code.instrs.eraseIdx index).map (·.mapTarget (placeInstead index 0)) ∧
      rest.points = (code.points.map fun point =>
        { point with index := placeInstead index 0 point.index }).filter (·.index < rest.size) := by
  unfold remove? at edited
  split at edited
  · cases edited
  · cases edited
    exact ⟨rfl, rfl⟩

theorem keeps_of_remove? {index : Nat} {removed : Instr}
    (edited : code.remove? index = some (removed, rest)) :
    code.Keeps rest (placeInstead index 0) (· ≠ index) := by
  refine .of_points _ placeInstead_mono placeInstead_lt ?_ (eq_of_remove? edited).2 ?_
    fun point _ kept => of_decide_eq_true kept
  · intro place instr stays here
    have moved := (drops_of_remove? edited).there stays
    rw [here] at moved
    exact moved
  · exact fun point inside => decide_eq_true inside

theorem getElem?_replaced {α : Type} {items : List α} (added : List α) {index place : Nat}
    (inside : index < items.length) (other : place ≠ index) :
    (items.take index ++ added ++ items.drop (index + 1))[placeInstead index added.length place]? =
      items[place]? := by
  have front : (items.take index).length = index :=
    List.length_take_of_le (Nat.le_of_lt inside)
  rw [List.append_assoc]
  by_cases behind : index < place
  · rw [placeInstead, if_pos behind, List.getElem?_append_right (by omega), front,
      List.getElem?_append_right (by omega), List.getElem?_drop]
    congr 1
    omega
  · rw [placeInstead, if_neg behind, List.getElem?_append_left (by omega),
      List.getElem?_take_of_lt (by omega)]

/-- What replacing makes of code, if there is something to put in. -/
theorem replace?_eq {index : Nat} {added : List Instr} (filled : added ≠ [])
    (inside : index < code.size) :
    code.replace? index added = some
      { instrs := (code.instrs.map (·.mapTarget (placeInstead index added.length))).take index ++
          added ++
          (code.instrs.map (·.mapTarget (placeInstead index added.length))).drop (index + 1)
        points := code.points.map fun point =>
          { point with index := placeInstead index added.length point.index } } := by
  have positive : 0 < added.length := List.length_pos_iff.mpr filled
  have same : (fun place => if index < place then place + (added.length - 1) else place) =
      placeInstead index added.length := by
    funext place
    unfold placeInstead
    split
    · omega
    · rfl
  unfold replace?
  rw [if_neg (by simpa using filled), if_pos inside, same]
  rfl

theorem index_lt_of_replace? {index : Nat} {added : List Instr} (filled : added ≠ [])
    (edited : code.replace? index added = some rest) : index < code.size := by
  unfold replace? at edited
  rw [if_neg (by simpa using filled)] at edited
  by_contra outside
  rw [if_neg outside] at edited
  cases edited

theorem size_of_replace? {index : Nat} {added : List Instr}
    (edited : code.replace? index added = some rest) :
    rest.size + 1 = code.size + added.length := by
  by_cases empty : added = []
  · subst empty
    rcases Option.map_eq_some_iff.mp edited with ⟨⟨removed, shorter⟩, cut, rfl⟩
    exact size_of_remove? cut
  · have inside := index_lt_of_replace? empty edited
    cases (replace?_eq empty inside).symm.trans edited
    unfold size at inside
    simp only [size, List.length_append, List.length_take, List.length_drop, List.length_map]
    omega

theorem keeps_of_replace? {index : Nat} {added : List Instr}
    (edited : code.replace? index added = some rest) :
    code.Keeps rest (placeInstead index added.length) (· ≠ index) := by
  by_cases empty : added = []
  · subst empty
    rcases Option.map_eq_some_iff.mp edited with ⟨⟨removed, shorter⟩, cut, rfl⟩
    exact keeps_of_remove? cut
  · have inside := index_lt_of_replace? empty edited
    have sized := size_of_replace? edited
    have positive : 0 < added.length := List.length_pos_iff.mpr empty
    cases (replace?_eq empty inside).symm.trans edited
    refine .of_points (fun _ => true) placeInstead_mono placeInstead_lt ?_
      (List.filter_true _).symm (fun _ _ => rfl) fun point near _ => ?_
    · intro place instr stays here
      have long :
          index < (code.instrs.map (·.mapTarget (placeInstead index added.length))).length := by
        rw [List.length_map]
        exact inside
      rw [getElem?_replaced added long stays, List.getElem?_map, here]
      rfl
    · have moved : placeInstead index added.length point.index + 1 < code.size + added.length := by
        unfold placeInstead
        split <;> omega
      omega

theorem keeps_of_removeRange? {index count : Nat} {removed : List Instr}
    (edited : code.removeRange? index count = some (removed, rest)) :
    code.Keeps rest (placeInstead index 0)^[count] fun place =>
      ¬ (index ≤ place ∧ place < index + count) := by
  induction count generalizing code removed with
  | zero =>
    cases edited
    refine (Keeps.refl _).congr fun place => ⟨fun _ within => ?_, fun _ => trivial⟩
    omega
  | succ count ih =>
    rcases Option.bind_eq_some_iff.mp edited with ⟨⟨first, shorter⟩, one, edited⟩
    rcases Option.bind_eq_some_iff.mp edited with ⟨⟨others, last⟩, more, final⟩
    cases final
    refine ((keeps_of_remove? one).trans (ih more)).congr fun place => ?_
    unfold placeInstead
    split <;> omega

/-! ## Where jumps lead -/

/-- So many instructions from an index on are not the last ones, or no instruction in front of them
leads to them. -/
def SparesEnd (code : Code) (index count : Nat) : Prop :=
  index + count = code.size →
    ∀ instr ∈ code.instrs.take index, ∀ target ∈ instr.target?, target < index

/-- The targets of jumps move along. -/
theorem forall_target_mapTarget {rename : Nat → Nat} {instr : Instr} {condition : Nat → Prop}
    (each : ∀ target ∈ instr.target?, condition (rename target)) :
    ∀ target ∈ (instr.mapTarget rename).target?, condition target := by
  intro target leads
  rw [Instruction.target?_mapTarget] at leads
  rcases Option.map_eq_some_iff.mp leads with ⟨aim, aimed, rfl⟩
  exact each aim aimed

theorem targetsInside_of_insert?_of_aimed {index : Nat} {added : List Instr}
    (edited : code.insert? index added = some rest) (inside : code.TargetsInside)
    (aimed : ∀ instr ∈ added, ∀ target ∈ instr.target?, target < code.size + added.length) :
    rest.TargetsInside := by
  have sized : rest.size = code.size + added.length := length_of_insert? edited
  intro instr member
  rw [sized]
  rcases mem_of_insert? edited member with ⟨original, old, rfl⟩ | new
  · apply forall_target_mapTarget
    intro target leads
    have near := inside original old target leads
    unfold placeBehind
    split <;> omega
  · exact aimed instr new

theorem index_lt_of_remove? {index : Nat} {removed : Instr}
    (edited : code.remove? index = some (removed, rest)) : index < code.size := by
  by_contra outside
  unfold remove? at edited
  rw [List.getElem?_eq_none (Nat.le_of_not_lt outside)] at edited
  cases edited

/-- If the last instruction is taken out, what is left stood in front of it. -/
theorem mem_of_remove? {index : Nat} {removed instr : Instr}
    (edited : code.remove? index = some (removed, rest)) (member : instr ∈ rest.instrs) :
    ∃ original ∈ code.instrs, instr = original.mapTarget (placeInstead index 0) ∧
      (index + 1 = code.size → original ∈ code.instrs.take index) := by
  rw [(eq_of_remove? edited).1] at member
  rcases List.mem_map.mp member with ⟨original, stays, rfl⟩
  refine ⟨original, List.mem_of_mem_eraseIdx stays, rfl, fun last => ?_⟩
  rw [List.eraseIdx_eq_take_drop_succ, List.drop_of_length_le (Nat.le_of_eq last.symm),
    List.append_nil] at stays
  exact stays

theorem targetsInside_of_remove? {index : Nat} {removed : Instr}
    (edited : code.remove? index = some (removed, rest)) (inside : code.TargetsInside)
    (spares : code.SparesEnd index 1) : rest.TargetsInside := by
  have sized := size_of_remove? edited
  have within := index_lt_of_remove? edited
  intro instr member
  rcases mem_of_remove? edited member with ⟨original, old, rfl, front⟩
  apply forall_target_mapTarget
  intro target leads
  have near := inside original old target leads
  by_cases last : index + 1 = code.size
  · have before := spares last original (front last) target leads
    unfold placeInstead
    split <;> omega
  · unfold placeInstead
    split <;> omega

/-- What stands in the code after replacing stood there before or was put in. -/
theorem mem_of_replace? {index : Nat} {added : List Instr} {instr : Instr} (filled : added ≠ [])
    (edited : code.replace? index added = some rest) (member : instr ∈ rest.instrs) :
    (∃ original ∈ code.instrs, instr = original.mapTarget (placeInstead index added.length)) ∨
      instr ∈ added := by
  have inside := index_lt_of_replace? filled edited
  cases (replace?_eq filled inside).symm.trans edited
  have moved : ∀ {other : Instr},
      other ∈ code.instrs.map (·.mapTarget (placeInstead index added.length)) →
        ∃ original ∈ code.instrs, other = original.mapTarget (placeInstead index added.length) := by
    intro other found
    rcases List.mem_map.mp found with ⟨original, old, rfl⟩
    exact ⟨original, old, rfl⟩
  rcases List.mem_append.mp member with front | back
  · rcases List.mem_append.mp front with front | new
    · exact .inl (moved (List.mem_of_mem_take front))
    · exact .inr new
  · exact .inl (moved (List.mem_of_mem_drop back))

theorem targetsInside_of_replace? {index : Nat} {added : List Instr}
    (edited : code.replace? index added = some rest) (inside : code.TargetsInside)
    (aimed : ∀ instr ∈ added, ∀ target ∈ instr.target?, target + 1 < code.size + added.length)
    (spares : added = [] → code.SparesEnd index 1) : rest.TargetsInside := by
  by_cases empty : added = []
  · subst empty
    rcases Option.map_eq_some_iff.mp edited with ⟨⟨removed, shorter⟩, cut, rfl⟩
    exact targetsInside_of_remove? cut inside (spares rfl)
  · have sized := size_of_replace? edited
    have positive : 0 < added.length := List.length_pos_iff.mpr empty
    intro instr member
    rcases mem_of_replace? empty edited member with ⟨original, old, rfl⟩ | new
    · apply forall_target_mapTarget
      intro target leads
      have near := inside original old target leads
      unfold placeInstead
      split <;> omega
    · intro target leads
      have near := aimed instr new target leads
      omega

theorem targetsInside_of_removeRange? {index count : Nat} {removed : List Instr}
    (edited : code.removeRange? index count = some (removed, rest)) (inside : code.TargetsInside)
    (spares : 0 < count → code.SparesEnd index count) : rest.TargetsInside := by
  induction count generalizing code removed with
  | zero =>
    cases edited
    exact inside
  | succ count ih =>
    rcases Option.bind_eq_some_iff.mp edited with ⟨⟨first, shorter⟩, one, edited⟩
    rcases Option.bind_eq_some_iff.mp edited with ⟨⟨others, last⟩, more, final⟩
    cases final
    have sized := size_of_remove? one
    refine ih more (targetsInside_of_remove? one inside fun ending => ?_) fun _ ending => ?_
    · cases count with
      | zero => exact spares (Nat.succ_pos _) ending
      | succ count =>
        rcases Option.bind_eq_some_iff.mp more with ⟨⟨second, _⟩, two, _⟩
        have within := index_lt_of_remove? two
        omega
    · -- In front of the index nothing has moved, and no jump from there leads behind it.
      rw [(eq_of_remove? one).1, ← List.map_take]
      intro instr member
      rcases List.mem_map.mp member with ⟨original, front, rfl⟩
      rw [List.take_eraseIdx_eq_take_of_le _ _ _ (Nat.le_refl _)] at front
      apply forall_target_mapTarget
      intro target leads
      have before := spares (Nat.succ_pos _) (by omega) original front target leads
      unfold placeInstead
      split <;> omega

end Code

/-! ## Sequences of edits -/

/-- An edit of code. -/
inductive Edit
  | insert (index : Nat) (added : List Instr)
  | replace (index : Nat) (added : List Instr)
  | remove (index : Nat)
  | removeRange (index count : Nat)

namespace Edit

variable {code rest : Code} {edit : Edit}

/-- The code after an edit.  There is none if the edit is at a place outside of the code. -/
def run? (code : Code) : Edit → Option Code
  | insert index added => code.insert? index added
  | replace index added => code.replace? index added
  | remove index => (code.remove? index).map (·.2)
  | removeRange index count => (code.removeRange? index count).map (·.2)

/-- Where an edit moves a place.  Removing a range moves places once for each instruction. -/
def move : Edit → Nat → Nat
  | insert index added => Code.placeBehind index added.length
  | replace index added => Code.placeInstead index added.length
  | remove index => Code.placeInstead index 0
  | removeRange index count => (Code.placeInstead index 0)^[count]

/-- The edit takes away the instruction at a place. -/
def Takes : Edit → Nat → Prop
  | insert _ _, _ => False
  | replace index _, place | remove index, place => place = index
  | removeRange index count, place => index ≤ place ∧ place < index + count

/-- The place of the edit is in code of a size. -/
def Fits : Edit → Nat → Prop
  | insert index _, size => index ≤ size
  | replace index _, size | remove index, size => index < size
  | removeRange index count, size => index + count ≤ size

/-- The size of code after the edit. -/
def sizeAfter : Edit → Nat → Nat
  | insert _ added, size => size + added.length
  | replace _ added, size => size + added.length - 1
  | remove _, size => size - 1
  | removeRange _ count, size => size - count

/-- What the edit puts in leads to places of the code as it is afterwards, and what it takes away at
the end is the target of nothing that is left. -/
def SparesTargets (code : Code) : Edit → Prop
  | insert _ added =>
    ∀ instr ∈ added, ∀ target ∈ instr.target?, target < code.size + added.length
  | replace index added =>
    (∀ instr ∈ added, ∀ target ∈ instr.target?, target + 1 < code.size + added.length) ∧
      (added = [] → code.SparesEnd index 1)
  | remove index => code.SparesEnd index 1
  | removeRange index count => 0 < count → code.SparesEnd index count

theorem keeps (edited : edit.run? code = some rest) :
    code.Keeps rest edit.move fun place => ¬ edit.Takes place := by
  cases edit with
  | insert index added =>
    exact (Code.keeps_of_insert? edited).congr fun _ => ⟨fun _ => id, fun _ => trivial⟩
  | replace index added => exact Code.keeps_of_replace? edited
  | remove index =>
    rcases Option.map_eq_some_iff.mp edited with ⟨⟨removed, shorter⟩, cut, rfl⟩
    exact Code.keeps_of_remove? cut
  | removeRange index count =>
    rcases Option.map_eq_some_iff.mp edited with ⟨⟨removed, shorter⟩, cut, rfl⟩
    exact Code.keeps_of_removeRange? cut

theorem size_of_run? (edited : edit.run? code = some rest) :
    rest.size = edit.sizeAfter code.size := by
  cases edit with
  | insert index added => exact Code.length_of_insert? edited
  | replace index added => exact Nat.eq_sub_of_add_eq (Code.size_of_replace? edited)
  | remove index =>
    rcases Option.map_eq_some_iff.mp edited with ⟨⟨removed, shorter⟩, cut, rfl⟩
    exact Nat.eq_sub_of_add_eq (Code.size_of_remove? cut)
  | removeRange index count =>
    rcases Option.map_eq_some_iff.mp edited with ⟨⟨removed, shorter⟩, cut, rfl⟩
    exact Nat.eq_sub_of_add_eq (Code.size_of_removeRange? cut)

theorem exists_run? (fits : edit.Fits code.size) : ∃ rest, edit.run? code = some rest := by
  cases edit with
  | insert index added => exact Code.exists_insert? fits added
  | replace index added =>
    by_cases empty : added = []
    · rcases Code.exists_remove? fits with ⟨removed, rest, cut⟩
      exact ⟨rest, by simp [run?, Code.replace?, empty, cut]⟩
    · exact ⟨_, Code.replace?_eq empty fits⟩
  | remove index =>
    rcases Code.exists_remove? fits with ⟨removed, rest, cut⟩
    exact ⟨rest, by simp [run?, cut]⟩
  | removeRange index count =>
    rcases Code.exists_removeRange? fits with ⟨removed, rest, cut⟩
    exact ⟨rest, by simp [run?, cut]⟩

theorem targetsInside (edited : edit.run? code = some rest) (inside : code.TargetsInside)
    (spares : edit.SparesTargets code) : rest.TargetsInside := by
  cases edit with
  | insert index added => exact Code.targetsInside_of_insert?_of_aimed edited inside spares
  | replace index added => exact Code.targetsInside_of_replace? edited inside spares.1 spares.2
  | remove index =>
    rcases Option.map_eq_some_iff.mp edited with ⟨⟨removed, shorter⟩, cut, rfl⟩
    exact Code.targetsInside_of_remove? cut inside spares
  | removeRange index count =>
    rcases Option.map_eq_some_iff.mp edited with ⟨⟨removed, shorter⟩, cut, rfl⟩
    exact Code.targetsInside_of_removeRange? cut inside spares

/-! The same for edits one after another, each of which is at a place of the code as it is then. -/

def runAll? : List Edit → Code → Option Code
  | [], code => some code
  | edit :: more, code => (edit.run? code).bind (runAll? more)

def moveAll : List Edit → Nat → Nat
  | [], place => place
  | edit :: more, place => moveAll more (edit.move place)

/-- No edit takes away the instruction at a place. -/
def Spared : List Edit → Nat → Prop
  | [], _ => True
  | edit :: more, place => ¬ edit.Takes place ∧ Spared more (edit.move place)

def AllFit : List Edit → Nat → Prop
  | [], _ => True
  | edit :: more, size => edit.Fits size ∧ AllFit more (edit.sizeAfter size)

def AllSpareTargets : List Edit → Code → Prop
  | [], _ => True
  | edit :: more, code => edit.SparesTargets code ∧
    ∀ next, edit.run? code = some next → AllSpareTargets more next

variable {edits : List Edit}

theorem exists_runAll? (fits : AllFit edits code.size) :
    ∃ result, runAll? edits code = some result := by
  induction edits generalizing code with
  | nil => exact ⟨code, rfl⟩
  | cons edit more ih =>
    rcases exists_run? fits.1 with ⟨next, edited⟩
    have others := fits.2
    rw [← size_of_run? edited] at others
    rcases ih others with ⟨result, run⟩
    exact ⟨result, by rw [runAll?, edited, Option.bind_some, run]⟩

theorem keepsAll {result : Code} (run : runAll? edits code = some result) :
    code.Keeps result (moveAll edits) (Spared edits) := by
  induction edits generalizing code with
  | nil =>
    cases run
    exact .refl _
  | cons edit more ih =>
    rcases Option.bind_eq_some_iff.mp run with ⟨next, edited, run⟩
    exact (keeps edited).trans (ih run)

theorem targetsInside_runAll? {result : Code} (run : runAll? edits code = some result)
    (inside : code.TargetsInside) (spare : AllSpareTargets edits code) : result.TargetsInside := by
  induction edits generalizing code with
  | nil =>
    cases run
    exact inside
  | cons edit more ih =>
    rcases Option.bind_eq_some_iff.mp run with ⟨next, edited, run⟩
    exact ih run (targetsInside edited inside spare.1) (spare.2 next edited)

end Edit

/-! ## Bodies that are edited -/

namespace Body

/-- After edits of a body, each at a place of the code as it is then, every instruction that none of
them takes away stands where the edits have moved its place, with the same operation and operand,
its jump leads to where they have moved the target, and it comes from the same line of the source.
What stays keeps its order.  All jumps keep to the code if what is put in does, and if what is taken
away at the end is the target of nothing that is left. -/
theorem edits_relocate (body : Body) (code : Code) (read : body.toCode = .ok code)
    (ordered : body.lines.Pairwise (·.offset ≤ ·.offset)) (edits : List Edit)
    (fits : Edit.AllFit edits code.size) :
    ∃ result, Edit.runAll? edits code = some result ∧
      (∀ place instr, code.instrs[place]? = some instr → Edit.Spared edits place →
        result.instrs[Edit.moveAll edits place]? = some (instr.mapTarget (Edit.moveAll edits)) ∧
        result.lineAt? (Edit.moveAll edits place) = code.lineAt? place) ∧
      (∀ first second, Edit.Spared edits first → first < second →
        Edit.moveAll edits first < Edit.moveAll edits second) ∧
      (Edit.AllSpareTargets edits code → result.TargetsInside) := by
  rcases Edit.exists_runAll? fits with ⟨result, run⟩
  have keeps := Edit.keepsAll run
  refine ⟨result, run, fun place instr here spared => ?_, fun first second => keeps.apart, ?_⟩
  · have inside : place < code.size := (List.getElem?_eq_some_iff.mp here).1
    exact ⟨keeps.there spared here, keeps.lineAt (Code.ordered_of_toCode read ordered) spared inside⟩
  · exact Edit.targetsInside_runAll? run (Code.storable_of_toCode read).targetsInside

/-- Code that leaves one or zero, depending on an argument. -/
def choice : Code where
  instrs := [.slot .loadArg 1, .jump .ifFalse 4, .constI32 1, .ret, .constI32 0, .ret]
  points := [⟨0, 3, 1⟩, ⟨4, 5, 1⟩]

/-- Its body, in which each of two lines of the source has a part of it. -/
def choosing : Body where
  code := choice.encode
  lines := [⟨0, 3, 1⟩, ⟨14, 5, 1⟩]

theorem toCode_choosing : choosing.toCode = .ok choice := by
  have inside : choice.TargetsInside := by
    simp [Code.TargetsInside, choice, Instruction.target?, Code.size, Instr.ret]
  exact bind_eq_ok_iff.mpr ⟨_, Code.decode_encode inside (by decide), rfl⟩

/-- One edit of each kind. -/
def rework : List Edit :=
  [.insert 2 [.plain .nop, .plain .nop], .replace 4 [.constI32 2, .constI32 3, .plain .add],
    .remove 0, .removeRange 1 2]

/-- The jump of the body leads to the instruction that it led to, which is still on its line. -/
theorem edits_relocate_choosing :
    choosing.toCode = .ok choice ∧ choosing.lines.Pairwise (·.offset ≤ ·.offset) ∧
      Edit.AllFit rework choice.size ∧ Edit.AllSpareTargets rework choice ∧
      ∃ result, Edit.runAll? rework choice = some result ∧
        result.instrs[0]? = some (.jump .ifFalse 5) ∧ result.instrs[5]? = some (.constI32 0) ∧
        result.lineAt? 5 = some (5, 1) ∧ result.TargetsInside := by
  have ordered : choosing.lines.Pairwise (·.offset ≤ ·.offset) := by decide
  have fits : Edit.AllFit rework choice.size := by
    simp [rework, Edit.AllFit, Edit.Fits, Edit.sizeAfter, choice, Code.size]
  have spare : Edit.AllSpareTargets rework choice := by
    refine ⟨by simp [Edit.SparesTargets, Instruction.target?], fun first one => ?_⟩
    refine ⟨by simp [Edit.SparesTargets, Instruction.target?], fun second two => ?_⟩
    refine ⟨by simp [Edit.SparesTargets, Code.SparesEnd], fun third three => ?_⟩
    refine ⟨fun _ ending => ?_, fun _ _ => trivial⟩
    rw [Edit.size_of_run? three, Edit.size_of_run? two, Edit.size_of_run? one] at ending
    exact absurd ending (by decide)
  rcases edits_relocate choosing choice toCode_choosing ordered rework fits with
    ⟨result, run, kept, _, inside⟩
  have jump := kept 1 _ rfl (by
    simp [rework, Edit.Spared, Edit.Takes, Edit.move, Code.placeBehind, Code.placeInstead])
  have aim := kept 4 _ rfl (by
    simp [rework, Edit.Spared, Edit.Takes, Edit.move, Code.placeBehind, Code.placeInstead])
  exact ⟨toCode_choosing, ordered, fits, spare, result, run, jump.1, aim.1, aim.2, inside spare⟩

end Body

end NativeWeave
