import NativeWeave.Proofs.Code.Edits

namespace NativeWeave

/-!
# Lines of code

The line of a place in stored code is found by halving the line table, and that of an instruction by
going through the source points.  Both mean the last entry that is not behind the place: halving finds
where a sorted table passes it, and the points of code that is read are the entries with instructions
in place of offsets, in the same order.

The line table of a body has one entry for each place.  Edits can put several source points at one
instruction, of which the last one says the line of the instruction; stored is the first of them.
So code that is stored after edits and read again has its instructions, and each instruction is on
the line of the first of the points that stand where the one that covers it stands.
-/

/-! ## Halving -/

section

variable {α : Type} {test : α → Bool} {items : List α}

/-- The element at an index is there and satisfies the test. -/
def PassesAt (test : α → Bool) (items : List α) (index : Nat) : Prop :=
  (items[index]?).any test = true

theorem PassesAt.lt_length {index : Nat} (passes : PassesAt test items index) :
    index < items.length := by
  by_contra outside
  rw [PassesAt, List.getElem?_eq_none (Nat.le_of_not_lt outside)] at passes
  cases passes

/-- With an element that satisfies the test all before it do. -/
theorem PassesAt.mono (front : items.Pairwise fun first second => test second → test first)
    {index earlier : Nat} (passes : PassesAt test items index) (before : earlier ≤ index) :
    PassesAt test items earlier := by
  have inside := passes.lt_length
  have also : earlier < items.length := Nat.lt_of_le_of_lt before inside
  rw [PassesAt, List.getElem?_eq_getElem inside] at passes
  rw [PassesAt, List.getElem?_eq_getElem also]
  rcases Nat.eq_or_lt_of_le before with rfl | order
  · exact passes
  · exact List.pairwise_iff_getElem.mp front earlier index also inside order passes

/-- A window is narrowed down to an element behind which none passes, and which passes itself unless
it is the first one. -/
theorem narrow_spec (front : items.Pairwise fun first second => test second → test first)
    {low width : Nat} (passed : low = 0 ∨ PassesAt test items low)
    (failed : ∀ index, low + width ≤ index → ¬ PassesAt test items index) :
    (narrow test items low width = 0 ∨ PassesAt test items (narrow test items low width)) ∧
      ∀ index, narrow test items low width < index → ¬ PassesAt test items index := by
  induction width using Nat.strongRecOn generalizing low with
  | _ width ih =>
    rw [narrow]
    split
    · exact ⟨passed, fun index behind => failed index (by omega)⟩
    · next wide =>
      dsimp only
      have smaller : width - width / 2 < width := by omega
      split
      · next middle =>
        exact ih _ smaller (.inr middle) fun index behind => failed index (by omega)
      · next middle =>
        refine ih _ smaller passed fun index behind passes => middle ?_
        exact passes.mono front (by omega)

/-- The elements that satisfy the test are those before the point that halving finds. -/
theorem lt_partitionPoint_iff (front : items.Pairwise fun first second => test second → test first)
    {index : Nat} : index < partitionPoint test items ↔ PassesAt test items index := by
  have outside : ∀ index, 0 + items.length ≤ index → ¬ PassesAt test items index := by
    intro index behind passes
    have := passes.lt_length
    omega
  rcases narrow_spec front (.inl rfl) outside with ⟨here, none⟩
  unfold partitionPoint
  dsimp only
  split
  · next passes =>
    constructor
    · exact fun before => PassesAt.mono front passes (Nat.le_of_lt_succ before)
    · intro found
      by_contra behind
      exact none index (Nat.lt_of_not_le fun before => behind (Nat.lt_succ_of_le before)) found
  · next fails =>
    have first := here.resolve_right fails
    rw [first] at fails none ⊢
    constructor
    · exact fun impossible => absurd impossible (Nat.not_lt_zero index)
    · intro found
      exact absurd (found.mono front (Nat.zero_le index)) fails

theorem filter_eq_take (front : items.Pairwise fun first second => test second → test first) :
    items.filter test = items.take (partitionPoint test items) := by
  have passing : ∀ item ∈ items.take (partitionPoint test items), test item = true := by
    intro item member
    rcases List.mem_take_iff_getElem.mp member with ⟨index, inside, rfl⟩
    have passes := (lt_partitionPoint_iff front).mp (Nat.lt_of_lt_of_le inside (Nat.min_le_left _ _))
    rwa [PassesAt, List.getElem?_eq_getElem (by omega)] at passes
  have failing : ∀ item ∈ items.drop (partitionPoint test items), ¬ test item = true := by
    intro item member passes
    rcases List.mem_drop_iff_getElem.mp member with ⟨index, inside, rfl⟩
    have within : partitionPoint test items + index < items.length := by omega
    have found : PassesAt test items (partitionPoint test items + index) := by
      rw [PassesAt, List.getElem?_eq_getElem within]
      exact passes
    have := (lt_partitionPoint_iff front).mpr found
    omega
  conv_lhs => rw [← List.take_append_drop (partitionPoint test items) items]
  rw [List.filter_append, List.filter_eq_self.mpr passing, List.filter_eq_nil_iff.mpr failing,
    List.append_nil]

/-- If any element satisfies the test, then the one before that point is the last that does. -/
theorem getElem?_partitionPoint
    (front : items.Pairwise fun first second => test second → test first)
    (positive : 0 < partitionPoint test items) :
    items[partitionPoint test items - 1]? = (items.filter test).getLast? := by
  have last : PassesAt test items (partitionPoint test items - 1) :=
    (lt_partitionPoint_iff front).mp (Nat.sub_one_lt_of_lt positive)
  rw [filter_eq_take front, List.getLast?_take, if_neg (Nat.ne_of_gt positive),
    List.getElem?_eq_getElem last.lt_length, Option.some_or]

end

/-! ## Lines by place and by instruction -/

namespace Body

variable {body : Body} {code : Code} {offset : UInt32}

/-- The entry for a place that the table does not begin behind is the last one that is not behind
it. -/
theorem lookupLine?_eq_getLast? (sorted : body.lines.Pairwise (·.offset ≤ ·.offset))
    (reached : ∀ first ∈ body.lines.head?, first.offset ≤ offset) :
    body.lookupLine? offset = (body.lines.filter (·.offset ≤ offset)).getLast? := by
  have front : body.lines.Pairwise fun first second =>
      decide (second.offset ≤ offset) = true → decide (first.offset ≤ offset) = true := by
    refine sorted.imp fun order before => ?_
    exact decide_eq_true (UInt32.le_trans order (of_decide_eq_true before))
  cases table : body.lines with
  | nil => rw [lookupLine?, table]; rfl
  | cons first more =>
    have passes : PassesAt (fun entry : LineEntry => decide (entry.offset ≤ offset)) body.lines 0 := by
      rw [PassesAt, table]
      exact decide_eq_true (reached first (by rw [table]; rfl))
    rw [← table]
    exact getElem?_partitionPoint front ((lt_partitionPoint_iff front).mpr passes)

/-- Source points that are not behind an instruction are made from the entries that are not behind its
place. -/
theorem filter_points_of_toCode (read : body.toCode = .ok code)
    (aligned : ∀ entry ∈ body.lines, entry.offset.toNat ∈ code.offsets) {index : Nat}
    (here : code.offsets[index]? = some offset.toNat) :
    (code.points.filter (·.index ≤ index)).map code.entry =
      body.lines.filter (·.offset ≤ offset) := by
  have inside : index < code.instrs.length := by
    have listed := (List.getElem?_eq_some_iff.mp here).1
    rwa [Code.offsets, Code.length_offsetsFrom] at listed
  have place : Code.firstByte code.instrs index = offset.toNat := by
    have found := Code.getElem?_offsetsFrom 0 code.instrs index inside
    rw [Nat.zero_add] at found
    exact Option.some.inj (found.symm.trans here)
  have entries : code.points.map code.entry = body.lines := by
    rw [Code.entries_of_toCode read]
    refine List.filter_eq_self.mpr fun entry member => ?_
    rw [List.isSome_idxOf?]
    exact aligned entry member
  rw [← entries, List.filter_map]
  congr 1
  refine List.filter_congr fun point member => ?_
  rcases Code.exists_entry_of_toCode read member with ⟨entry, _, found⟩
  rcases Code.entry_of_found found with ⟨within, start, _⟩
  have short : Code.firstByte code.instrs point.index < 2 ^ 32 := start ▸ entry.offset.toNat_lt
  have near : (code.entry point).offset.toNat = Code.firstByte code.instrs point.index :=
    UInt32.toNat_ofNat_of_lt' short
  simp only [Function.comp_apply, decide_eq_decide, UInt32.le_iff_toNat_le, near, ← place]
  constructor
  · exact Code.firstByte_le_firstByte within
  · intro order
    by_contra behind
    exact Nat.not_le_of_lt (Code.firstByte_lt_firstByte inside (Nat.lt_of_not_le behind)) order

/-- In code that is read from a body, whose line table is sorted and has all its entries at
instructions, an instruction that does not stand before the first entry is on the line that the table
has for its place. -/
theorem lineAt?_of_toCode (read : body.toCode = .ok code)
    (sorted : body.lines.Pairwise (·.offset ≤ ·.offset))
    (aligned : ∀ entry ∈ body.lines, entry.offset.toNat ∈ code.offsets) {index : Nat}
    {offset : UInt32} (here : code.offsets[index]? = some offset.toNat)
    (reached : ∀ first ∈ body.lines.head?, first.offset ≤ offset) :
    code.lineAt? index = (body.lookupLine? offset).map (fun entry => (entry.line, entry.column)) ∧
      (body.lines ≠ [] → (code.lineAt? index).isSome = true) := by
  have same : code.lineAt? index =
      (body.lookupLine? offset).map fun entry => (entry.line, entry.column) := by
    rw [(Code.ordered_of_toCode read sorted).lineAt?_eq, lookupLine?_eq_getLast? sorted reached,
      ← filter_points_of_toCode read aligned here, List.getLast?_map, Option.map_map]
    rfl
  refine ⟨same, fun something => ?_⟩
  rcases List.exists_cons_of_ne_nil something with ⟨first, more, table⟩
  have before := reached first (by rw [table]; rfl)
  have member : first ∈ body.lines.filter (·.offset ≤ offset) := by
    refine List.mem_filter.mpr ⟨?_, decide_eq_true before⟩
    rw [table]
    exact List.mem_cons_self
  rw [same, Option.isSome_map, lookupLine?_eq_getLast? sorted reached]
  exact List.getLast?_isSome.mpr (List.ne_nil_of_mem member)

/-- A body with two entries at its second instruction, of which the second one counts. -/
def charted : Body :=
  { choosing with lines := [⟨3, 3, 1⟩, ⟨3, 4, 1⟩, ⟨14, 5, 1⟩] }

/-- The return before the last entry is on the line of the second of the two, both by its place and by
its index. -/
theorem lineAt?_of_toCode_charted :
    ∃ code, charted.toCode = .ok code ∧ charted.lines.Pairwise (·.offset ≤ ·.offset) ∧
      (∀ entry ∈ charted.lines, entry.offset.toNat ∈ code.offsets) ∧
      code.offsets[3]? = some (13 : UInt32).toNat ∧
      (∀ first ∈ charted.lines.head?, first.offset ≤ 13) ∧
      (charted.lookupLine? 13).map (fun entry => (entry.line, entry.column)) = some (4, 1) ∧
      code.lineAt? 3 = some (4, 1) := by
  obtain ⟨code, read, instrs⟩ : ∃ code, charted.toCode = .ok code ∧ code.instrs = choice.instrs := by
    rcases bind_eq_ok_iff.mp toCode_choosing with ⟨stored, bytes, final⟩
    refine ⟨_, bind_eq_ok_iff.mpr ⟨stored, bytes, rfl⟩, ?_⟩
    have same := congrArg Code.instrs (Except.ok.inj final)
    exact same
  have offsets : code.offsets = [0, 3, 8, 13, 14, 19] := by
    rw [Code.offsets, instrs]
    rfl
  have sorted : charted.lines.Pairwise (·.offset ≤ ·.offset) := by decide
  have aligned : ∀ entry ∈ charted.lines, entry.offset.toNat ∈ code.offsets := by
    rw [offsets]
    decide
  have here : code.offsets[3]? = some (13 : UInt32).toNat := by
    rw [offsets]
    rfl
  have reached : ∀ first ∈ charted.lines.head?, first.offset ≤ 13 := by decide
  have found : (charted.lookupLine? 13).map (fun entry => (entry.line, entry.column)) =
      some (4, 1) := by decide +kernel
  have same := (lineAt?_of_toCode read sorted aligned here reached).1
  exact ⟨code, read, sorted, aligned, here, reached, found, same.trans found⟩

end Body

/-! ## Source points without repetitions -/

/-- Of neighbouring points at one instruction the first. -/
def SourcePoint.leading : List SourcePoint → List SourcePoint
  | [] => []
  | point :: more =>
    match leading more with
    | [] => [point]
    | next :: rest => if point.index = next.index then point :: rest else point :: next :: rest

namespace SourcePoint

variable {points : List SourcePoint} {point : SourcePoint} {place : Nat}

theorem mem_of_mem_leading (member : point ∈ leading points) : point ∈ points := by
  induction points with
  | nil => exact member
  | cons first more ih =>
    rw [leading] at member
    split at member
    · exact List.mem_cons.mpr (.inl (List.mem_singleton.mp member))
    · next next rest same =>
      rw [same] at ih
      split at member
      · rcases List.mem_cons.mp member with rfl | inside
        · exact List.mem_cons_self
        · exact List.mem_cons_of_mem _ (ih (List.mem_cons_of_mem _ inside))
      · rcases List.mem_cons.mp member with rfl | inside
        · exact List.mem_cons_self
        · exact List.mem_cons_of_mem _ (ih inside)

/-- Of points in order one is left at each instruction. -/
theorem pairwise_leading (ordered : points.Pairwise (·.index ≤ ·.index)) :
    (leading points).Pairwise (·.index < ·.index) := by
  induction points with
  | nil => exact .nil
  | cons first more ih =>
    rw [List.pairwise_cons] at ordered
    rw [leading]
    split
    · exact List.pairwise_singleton _ _
    · next next rest same =>
      have others := ih ordered.2
      rw [same, List.pairwise_cons] at others
      have near : first.index ≤ next.index :=
        ordered.1 next (mem_of_mem_leading (same ▸ List.mem_cons_self))
      split
      · next equal => exact List.pairwise_cons.mpr ⟨equal ▸ others.1, others.2⟩
      · next apart =>
        have before : first.index < next.index := Nat.lt_of_le_of_ne near apart
        refine List.pairwise_cons.mpr ⟨?_, List.pairwise_cons.mpr others⟩
        rw [List.forall_mem_cons]
        exact ⟨before, fun later inside => Nat.lt_trans before (others.1 later inside)⟩

/-- The first point at an instruction is left. -/
theorem mem_leading_of_find? (found : points.find? (·.index = place) = some point) :
    point ∈ leading points := by
  induction points with
  | nil => cases found
  | cons first more ih =>
    by_cases here : first.index = place
    · simp only [List.find?_cons, here, decide_true, Option.some.injEq] at found
      subst found
      rw [leading]
      split
      · exact List.mem_cons_self
      · split <;> exact List.mem_cons_self
    · simp only [List.find?_cons, here, decide_false] at found
      have left := ih found
      have there : point.index = place := by simpa using List.find?_some found
      rw [leading]
      split
      · next empty =>
        rw [empty] at left
        cases left
      · next next rest same =>
        rw [same] at left
        split
        · next equal =>
          rcases List.mem_cons.mp left with rfl | inside
          · exact absurd (equal.trans there) here
          · exact List.mem_cons_of_mem _ inside
        · exact List.mem_cons_of_mem _ left

end SourcePoint

namespace Code

variable {code : Code}

/-- Entries are dropped as their points are. -/
theorem dropRepeated_map {points : List SourcePoint} {entry : SourcePoint → LineEntry}
    (faithful : ∀ first ∈ points, ∀ second ∈ points,
      (entry first).offset = (entry second).offset ↔ first.index = second.index) :
    LineEntry.dropRepeated (points.map entry) = (SourcePoint.leading points).map entry := by
  induction points with
  | nil => rfl
  | cons first more ih =>
    have others := ih fun one inside other also =>
      faithful one (List.mem_cons_of_mem _ inside) other (List.mem_cons_of_mem _ also)
    rw [List.map_cons, LineEntry.dropRepeated, others, SourcePoint.leading]
    cases same : SourcePoint.leading more with
    | nil => rfl
    | cons next rest =>
      have listed : next ∈ more := SourcePoint.mem_of_mem_leading (same ▸ List.mem_cons_self)
      have equal := faithful first List.mem_cons_self next (List.mem_cons_of_mem _ listed)
      rw [List.map_cons]
      dsimp only
      by_cases here : first.index = next.index
      · rw [if_pos here, if_pos (equal.mpr here), List.map_cons]
      · rw [if_neg here, if_neg (mt equal.mp here), List.map_cons, List.map_cons]

/-- The code with the first of the points at each instruction. -/
def withLeading (code : Code) : Code :=
  { code with points := SourcePoint.leading code.points }

theorem settled_withLeading (ordered : code.Ordered) (inside : code.PointsInside)
    (near : code.PointsNear) : code.withLeading.Settled where
  ordered := SourcePoint.pairwise_leading ordered
  inside point member := inside point (SourcePoint.mem_of_mem_leading member)
  near point member := near point (SourcePoint.mem_of_mem_leading member)

theorem lineTable_withLeading (ordered : code.Ordered) (inside : code.PointsInside)
    (near : code.PointsNear) : code.withLeading.lineTable = code.lineTable := by
  rw [(settled_withLeading ordered inside near).lineTable_eq,
    lineTable_eq_dropRepeated ordered inside near]
  refine (dropRepeated_map fun first one second other => ?_).symm
  change (code.entry first).offset = (code.entry second).offset ↔ _
  rw [← UInt32.toNat_inj, near.toNat_entry one, near.toNat_entry other]
  constructor
  · intro same
    rcases Nat.lt_trichotomy first.index second.index with order | equal | order
    · exact absurd same (Nat.ne_of_lt (firstByte_lt_firstByte (inside first one) order))
    · exact equal
    · exact absurd same.symm (Nat.ne_of_lt (firstByte_lt_firstByte (inside second other) order))
  · exact fun same => congrArg _ same

/-- Stored code is read back with the first of the points at each instruction. -/
theorem toCode_toBody_of_ordered (storable : code.Storable) (ordered : code.Ordered)
    (inside : code.PointsInside) (near : code.PointsNear) (locals : List Signature) :
    (code.toBody locals).toCode = .ok code.withLeading := by
  have same : code.toBody locals = code.withLeading.toBody locals := by
    unfold toBody
    rw [lineTable_withLeading ordered inside near]
    rfl
  have stored : code.withLeading.Storable := storable
  rw [same]
  exact toCode_toBody stored (settled_withLeading ordered inside near) locals

/-! ## Lines -/

/-- Line and column of the first of the points that stand where the one that covers an instruction
stands. -/
def leadingLineAt? (code : Code) (index : Nat) : Option (UInt32 × UInt32) := do
  let last ← (code.points.filter (·.index ≤ index)).getLast?
  let first ← code.points.find? (·.index = last.index)
  return (first.line, first.column)

/-- The points at one instruction have the same line and column. -/
def PointsAgree (code : Code) : Prop :=
  ∀ first ∈ code.points, ∀ second ∈ code.points, first.index = second.index →
    first.line = second.line ∧ first.column = second.column

theorem le_of_getLast? {points : List SourcePoint} {last : SourcePoint}
    (ordered : points.Pairwise (·.index ≤ ·.index)) (found : points.getLast? = some last) :
    ∀ point ∈ points, point.index ≤ last.index := by
  rcases List.getLast?_eq_some_iff.mp found with ⟨front, rfl⟩
  rw [List.pairwise_append] at ordered
  intro point member
  rcases List.mem_append.mp member with before | here
  · exact ordered.2.2 point before last (List.mem_singleton_self _)
  · rw [List.mem_singleton.mp here]

theorem getLast?_eq_of_mem {points : List SourcePoint} {point : SourcePoint}
    (ordered : points.Pairwise (·.index < ·.index)) (member : point ∈ points)
    (last : ∀ other ∈ points, other.index ≤ point.index) : points.getLast? = some point := by
  rcases List.mem_iff_append.mp member with ⟨front, back, rfl⟩
  cases back with
  | nil => simp
  | cons next rest =>
    have behind := (List.pairwise_cons.mp (List.pairwise_append.mp ordered).2.1).1 next
      List.mem_cons_self
    have before := last next (by simp)
    omega

theorem lineAt?_withLeading (ordered : code.Ordered) (index : Nat) :
    code.withLeading.lineAt? index = code.leadingLineAt? index := by
  have strict : (SourcePoint.leading code.points).Pairwise (·.index < ·.index) :=
    SourcePoint.pairwise_leading ordered
  have left : code.withLeading.Ordered := strict.imp Nat.le_of_lt
  rw [left.lineAt?_eq, leadingLineAt?]
  cases covered : (code.points.filter (·.index ≤ index)).getLast? with
  | none =>
    rw [List.getLast?_eq_none_iff, List.filter_eq_nil_iff] at covered
    have none : (code.withLeading.points.filter (·.index ≤ index)) = [] :=
      List.filter_eq_nil_iff.mpr fun point member =>
        covered point (SourcePoint.mem_of_mem_leading member)
    rw [none]
    rfl
  | some last =>
    have listed := List.mem_filter.mp (List.mem_of_getLast? covered)
    obtain ⟨first, found⟩ : ∃ first, code.points.find? (·.index = last.index) = some first :=
      Option.isSome_iff_exists.mp (List.find?_isSome.mpr ⟨last, listed.1, by simp⟩)
    have same : first.index = last.index := by simpa using List.find?_some found
    have reached : (code.withLeading.points.filter (·.index ≤ index)).getLast? = some first := by
      refine getLast?_eq_of_mem (strict.filter _) ?_ fun other member => ?_
      · refine List.mem_filter.mpr ⟨SourcePoint.mem_leading_of_find? found, ?_⟩
        rw [same]
        exact listed.2
      · rcases List.mem_filter.mp member with ⟨left, near⟩
        rw [same]
        apply le_of_getLast? (ordered.filter _) covered
        exact List.mem_filter.mpr ⟨SourcePoint.mem_of_mem_leading left, near⟩
    rw [reached]
    simp [found]

theorem leadingLineAt?_eq (ordered : code.Ordered) (agree : code.PointsAgree) (index : Nat) :
    code.leadingLineAt? index = code.lineAt? index := by
  rw [ordered.lineAt?_eq, leadingLineAt?]
  cases covered : (code.points.filter (·.index ≤ index)).getLast? with
  | none => rfl
  | some last =>
    have listed := (List.mem_filter.mp (List.mem_of_getLast? covered)).1
    obtain ⟨first, found⟩ : ∃ first, code.points.find? (·.index = last.index) = some first :=
      Option.isSome_iff_exists.mp (List.find?_isSome.mpr ⟨last, listed, by simp⟩)
    have same : first.index = last.index := by simpa using List.find?_some found
    have equal := agree first (List.mem_of_find?_eq_some found) last listed same
    simp [found, equal]

end Code

/-! ## Edited bodies -/

namespace Body

/-- Code that comes from a body by edits, with all jumps inside of it and all distances short enough
for a displacement, is stored and read again with the same instructions.  Each is on the line of the
first of the points that stand where the one that covers it stands.  That is its line as it was, if
the points at one instruction agree; otherwise the last of them said it. -/
theorem edits_stored (body : Body) (code : Code) (read : body.toCode = .ok code)
    (ordered : body.lines.Pairwise (·.offset ≤ ·.offset)) (edits : List Edit) (result : Code)
    (run : Edit.runAll? edits code = some result) (inside : result.TargetsInside)
    (short : result.byteSize < 2 ^ 31) (locals : List Signature) :
    ∃ again, (result.toBody locals).toCode = .ok again ∧ again.instrs = result.instrs ∧
      (∀ index, again.lineAt? index = result.leadingLineAt? index) ∧
      (result.PointsAgree → ∀ index, again.lineAt? index = result.lineAt? index) := by
  have keeps := Edit.keepsAll run
  have sorted := keeps.ordered (Code.ordered_of_toCode read ordered)
  have covered := keeps.pointsInside (Code.pointsInside_of_toCode read)
  have near : result.PointsNear := by
    intro point member
    rw [Code.byteSize_eq_sum] at short
    have before := Code.firstByte_lt_sum (covered point member)
    omega
  have storable := Code.storable_of_targetsInside inside short
  have lines := Code.lineAt?_withLeading sorted
  have back := Code.toCode_toBody_of_ordered storable sorted covered near locals
  refine ⟨result.withLeading, back, rfl, lines, fun agree index => ?_⟩
  rw [lines index, Code.leadingLineAt?_eq sorted agree index]

/-- The code of which only the second part is left, where the source points of both parts stand. -/
def chosen : Code where
  instrs := [.constI32 0, .ret]
  points := [⟨0, 3, 1⟩, ⟨0, 5, 1⟩]

/-- The code with one instruction more between its two parts. -/
def spread : Code where
  instrs := [.slot .loadArg 1, .jump .ifFalse 5, .constI32 1, .ret, .plain .nop, .constI32 0, .ret]
  points := [⟨0, 3, 1⟩, ⟨5, 5, 1⟩]

/-- Lines are kept where the two points stay apart; where all between them is taken away, the line
that was covered is lost. -/
theorem edits_stored_choosing :
    choosing.toCode = .ok choice ∧
      (∃ again, (spread.toBody []).toCode = .ok again ∧
        ∀ index, again.lineAt? index = spread.lineAt? index) ∧
      ∃ again, (chosen.toBody []).toCode = .ok again ∧ again.instrs = chosen.instrs ∧
        chosen.lineAt? 0 = some (5, 1) ∧ again.lineAt? 0 = some (3, 1) := by
  have ordered : choosing.lines.Pairwise (·.offset ≤ ·.offset) := by decide
  have put : Edit.runAll? [.insert 4 [.plain .nop]] choice = some spread := by rfl
  have cut : Edit.runAll? [.removeRange 0 4] choice = some chosen := by rfl
  have near : spread.TargetsInside := by
    simp [Code.TargetsInside, spread, Instruction.target?, Code.size, Instr.ret]
  have inside : chosen.TargetsInside := by
    simp [Code.TargetsInside, chosen, Instruction.target?, Instr.ret]
  have agree : spread.PointsAgree := by
    simp [Code.PointsAgree, spread]
  rcases edits_stored choosing choice toCode_choosing ordered _ spread put near (by decide) []
    with ⟨wider, read, _, _, same⟩
  rcases edits_stored choosing choice toCode_choosing ordered _ chosen cut inside (by decide) []
    with ⟨less, back, kept, line, _⟩
  exact ⟨toCode_choosing, ⟨wider, read, same agree⟩, less, back, kept, by rfl, line 0⟩

end Body

end NativeWeave
