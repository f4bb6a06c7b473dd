import Mathlib.Data.List.Basic
import NativeWeave.Code.Body
import NativeWeave.Proofs.Code.Rearrangement

namespace NativeWeave

/-!
# Bodies that are edited and stored again

Reading a body for editing and storing it again keeps its source points, as long as they stand in
order at instructions of the code.  The points of a body whose line table is in order do, and they
go on to do so when instructions give way to others of the same sizes, or when code is put in front.
-/

namespace Code

variable {code : Code} {body : Body}

theorem length_offsetsFrom {Target : Type} (start : Nat) (instrs : List (Instruction Target)) :
    (offsetsFrom start instrs).length = instrs.length := by
  induction instrs generalizing start with
  | nil => rfl
  | cons instr more ih => rw [offsetsFrom, List.length_cons, List.length_cons, ih]

theorem getElem?_offsetsFrom {Target : Type} (start : Nat) (instrs : List (Instruction Target))
    (index : Nat) (inside : index < instrs.length) :
    (offsetsFrom start instrs)[index]? = some (start + firstByte instrs index) := by
  induction instrs generalizing start index with
  | nil => cases inside
  | cons instr more ih =>
    cases index with
    | zero => rfl
    | succ index =>
      rw [offsetsFrom, List.getElem?_cons_succ, ih _ _ (Nat.lt_of_succ_lt_succ inside),
        firstByte_cons_succ, Nat.add_assoc]

/-- What stands first depends on nothing but the sizes. -/
theorem firstByte_congr {Source Target : Type} {first : List (Instruction Source)}
    {second : List (Instruction Target)}
    (same : first.map Instruction.size = second.map Instruction.size) (index : Nat) :
    firstByte first index = firstByte second index := by
  unfold firstByte
  rw [List.map_take, List.map_take, same]

/-! ## Source points -/

/-- The source points stand in the order of their instructions, of which one can have several. -/
def Ordered (code : Code) : Prop :=
  code.points.Pairwise (·.index ≤ ·.index)

/-- Every source point stands at an instruction. -/
def PointsInside (code : Code) : Prop :=
  ∀ point ∈ code.points, point.index < code.size

/-- Every source point stands at a place that a line table can hold. -/
def PointsNear (code : Code) : Prop :=
  ∀ point ∈ code.points, firstByte code.instrs point.index < 2 ^ 32

/-- The source points stand in order, each at an instruction, and at places that a line table can
hold. -/
structure Settled (code : Code) : Prop where
  ordered : code.points.Pairwise (·.index < ·.index)
  inside : ∀ point ∈ code.points, point.index < code.size
  near : ∀ point ∈ code.points, firstByte code.instrs point.index < 2 ^ 32

/-- The entry of the line table for a source point. -/
def entry (code : Code) (point : SourcePoint) : LineEntry :=
  ⟨UInt32.ofNat (firstByte code.instrs point.index), point.line, point.column⟩

theorem dropRepeated_eq_self {entries : List LineEntry}
    (ordered : entries.Pairwise (·.offset < ·.offset)) :
    LineEntry.dropRepeated entries = entries := by
  induction entries with
  | nil => rfl
  | cons entry more ih =>
    rw [List.pairwise_cons] at ordered
    rw [LineEntry.dropRepeated, ih ordered.2]
    cases more with
    | nil => rfl
    | cons next rest =>
      have apart : entry.offset ≠ next.offset :=
        UInt32.ne_of_lt (ordered.1 next List.mem_cons_self)
      exact if_neg apart

theorem PointsNear.toNat_entry (near : code.PointsNear) {point : SourcePoint}
    (member : point ∈ code.points) :
    (code.entry point).offset.toNat = firstByte code.instrs point.index :=
  UInt32.toNat_ofNat_of_lt' (near point member)

theorem Settled.toNat_entry (settled : code.Settled) {point : SourcePoint}
    (member : point ∈ code.points) :
    (code.entry point).offset.toNat = firstByte code.instrs point.index :=
  PointsNear.toNat_entry settled.near member

theorem Settled.pairwise_entries (settled : code.Settled) :
    (code.points.map code.entry).Pairwise (·.offset < ·.offset) := by
  refine List.pairwise_map.mpr ?_
  refine settled.ordered.imp_of_mem fun {first second} one other before => ?_
  rw [UInt32.lt_iff_toNat_lt, settled.toNat_entry one, settled.toNat_entry other]
  exact firstByte_lt_firstByte (settled.inside first one) before

theorem firstByte_le_firstByte {instrs : List Instr} {first second : Nat}
    (inside : first < instrs.length) (order : first ≤ second) :
    firstByte instrs first ≤ firstByte instrs second := by
  rcases Nat.eq_or_lt_of_le order with rfl | before
  · exact Nat.le_refl _
  · exact Nat.le_of_lt (firstByte_lt_firstByte inside before)

/-- The line table has an entry for each source point, and of those at one place the first. -/
theorem lineTable_eq_dropRepeated (ordered : code.Ordered) (inside : code.PointsInside)
    (near : code.PointsNear) :
    code.lineTable = LineEntry.dropRepeated (code.points.map code.entry) := by
  have each : code.points.filterMap (fun point => code.offsets[point.index]?.map fun offset =>
      (⟨UInt32.ofNat offset, point.line, point.column⟩ : LineEntry)) =
        code.points.map code.entry := by
    rw [← List.filterMap_eq_map]
    refine List.filterMap_congr fun point member => ?_
    rw [offsets, getElem?_offsetsFrom 0 _ _ (inside point member), Nat.zero_add]
    rfl
  have sorted : (code.points.map code.entry).Pairwise
      fun first second => decide (first.offset ≤ second.offset) = true := by
    refine List.pairwise_map.mpr (ordered.imp_of_mem fun {first second} one other before => ?_)
    apply decide_eq_true
    rw [UInt32.le_iff_toNat_le, near.toNat_entry one, near.toNat_entry other]
    exact firstByte_le_firstByte (inside first one) before
  unfold lineTable
  dsimp only
  rw [each, List.mergeSort_of_pairwise sorted]

/-- Where no two source points share an instruction, all of them have their entries. -/
theorem Settled.lineTable_eq (settled : code.Settled) :
    code.lineTable = code.points.map code.entry := by
  have ordered : code.Ordered := settled.ordered.imp Nat.le_of_lt
  rw [lineTable_eq_dropRepeated ordered settled.inside settled.near,
    dropRepeated_eq_self settled.pairwise_entries]

theorem length_encode (code : Code) : code.encode.length = code.byteSize := by
  rw [encode, encodeFrom_eq_flatMap, length_encode_eq_sum, map_size_displaceFrom, byteSize_eq_sum]

/-- Code that can be stored is read back, up to its source points. -/
theorem exists_toCode_toBody (storable : code.Storable) (locals : List Signature) :
    ∃ read, (code.toBody locals).toCode = .ok read ∧ read.instrs = code.instrs :=
  ⟨_, bind_eq_ok_iff.mpr ⟨_, decode_encode_of_storable storable, rfl⟩, rfl⟩

/-- Code that can be stored, with source points in order, is read back as it is. -/
theorem toCode_toBody (storable : code.Storable) (settled : code.Settled)
    (locals : List Signature) : (code.toBody locals).toCode = .ok code := by
  have points : Body.sourcePoints code.offsets code.lineTable = code.points := by
    rw [settled.lineTable_eq, Body.sourcePoints, List.filterMap_map]
    refine (List.filterMap_congr fun point member => ?_).trans List.filterMap_some
    have found : code.offsets.idxOf? (code.entry point).offset.toNat = some point.index := by
      rw [settled.toNat_entry member]
      exact idxOf?_offsetsFrom_eq_some_iff.mpr ⟨settled.inside point member, (Nat.zero_add _).symm⟩
    rw [Function.comp_apply, found]
    rfl
  refine bind_eq_ok_iff.mpr ⟨_, decode_encode_of_storable storable, ?_⟩
  exact congrArg (fun points => Except.ok { code with points }) points

/-! ## Bodies that are read -/

/-- The entry that a source point was made from begins at the instruction of the point. -/
theorem entry_of_found {entry : LineEntry} {index : Nat}
    (found : code.offsets.idxOf? entry.offset.toNat = some index) :
    index < code.size ∧ firstByte code.instrs index = entry.offset.toNat ∧
      code.entry ⟨index, entry.line, entry.column⟩ = entry := by
  rcases idxOf?_offsetsFrom_eq_some_iff.mp found with ⟨inside, place⟩
  rw [Nat.zero_add] at place
  refine ⟨inside, place.symm, ?_⟩
  unfold Code.entry
  rw [← place, UInt32.ofNat_toNat]

/-- What is read has the source points of the entries that lie on the start of an instruction. -/
theorem points_of_toCode (read : body.toCode = .ok code) :
    code.points = Body.sourcePoints code.offsets body.lines := by
  rcases bind_eq_ok_iff.mp read with ⟨stored, _, final⟩
  cases final
  rfl

theorem storable_of_toCode (read : body.toCode = .ok code) : code.Storable := by
  rcases bind_eq_ok_iff.mp read with ⟨stored, bytes, final⟩
  cases final
  have storable : stored.Storable := storable_of_decode bytes
  exact storable

/-- A source point is made from an entry of the line table. -/
theorem exists_entry_of_toCode (read : body.toCode = .ok code) {point : SourcePoint}
    (member : point ∈ code.points) :
    ∃ entry ∈ body.lines, code.offsets.idxOf? entry.offset.toNat = some point.index := by
  rw [points_of_toCode read] at member
  rcases List.mem_filterMap.mp member with ⟨entry, inside, same⟩
  rcases Option.map_eq_some_iff.mp same with ⟨index, found, rfl⟩
  exact ⟨entry, inside, found⟩

theorem pointsInside_of_toCode (read : body.toCode = .ok code) : code.PointsInside := by
  intro point member
  rcases exists_entry_of_toCode read member with ⟨entry, _, found⟩
  exact (entry_of_found found).1

/-- What holds of the places in the line table holds of the places of the source points. -/
theorem pairwise_firstByte_of_toCode (read : body.toCode = .ok code) {related : Nat → Nat → Prop}
    (ordered : body.lines.Pairwise fun first second =>
      related first.offset.toNat second.offset.toNat) :
    code.points.Pairwise fun first second =>
      related (firstByte code.instrs first.index) (firstByte code.instrs second.index) := by
  rw [points_of_toCode read]
  refine List.Pairwise.filterMap _ ?_ ordered
  intro first second before point found next later
  rcases Option.map_eq_some_iff.mp found with ⟨index, here, rfl⟩
  rcases Option.map_eq_some_iff.mp later with ⟨other, there, rfl⟩
  dsimp only
  rwa [(entry_of_found here).2.1, (entry_of_found there).2.1]

/-- Entries at the same place make source points at the same instruction, in the order of the
table. -/
theorem ordered_of_toCode (read : body.toCode = .ok code)
    (ordered : body.lines.Pairwise (·.offset ≤ ·.offset)) : code.Ordered := by
  have places := pairwise_firstByte_of_toCode read (ordered.imp UInt32.le_iff_toNat_le.mp)
  refine places.imp_of_mem fun _ listed before => ?_
  by_contra order
  have inside := pointsInside_of_toCode read _ listed
  exact Nat.not_le_of_lt (firstByte_lt_firstByte inside (Nat.lt_of_not_le order)) before

/-- The source points of a body whose line table is in order are in order. -/
theorem settled_of_toCode (read : body.toCode = .ok code)
    (ordered : body.lines.Pairwise (·.offset < ·.offset)) : code.Settled := by
  have places := pairwise_firstByte_of_toCode read (ordered.imp UInt32.lt_iff_toNat_lt.mp)
  refine ⟨places.imp_of_mem fun {first second} _ listed before => ?_, pointsInside_of_toCode read,
    fun point member => ?_⟩
  · have inside := pointsInside_of_toCode read second listed
    rcases Nat.lt_trichotomy first.index second.index with order | same | order
    · exact order
    · rw [same] at before
      exact absurd before (Nat.lt_irrefl _)
    · exact absurd before (Nat.lt_asymm (firstByte_lt_firstByte inside order))
  · rcases exists_entry_of_toCode read member with ⟨entry, _, found⟩
    rw [(entry_of_found found).2.1]
    exact entry.offset.toNat_lt

/-- The entries that lie on the start of an instruction are those of the source points. -/
theorem entries_of_toCode (read : body.toCode = .ok code) :
    code.points.map code.entry =
      body.lines.filter fun entry => (code.offsets.idxOf? entry.offset.toNat).isSome := by
  rw [points_of_toCode read]
  unfold Body.sourcePoints
  induction body.lines with
  | nil => rfl
  | cons entry more ih =>
    rw [List.filterMap_cons, List.filter_cons]
    cases found : code.offsets.idxOf? entry.offset.toNat with
    | none => exact ih
    | some index =>
      rw [Option.map_some, List.map_cons, (entry_of_found found).2.2, ih]
      rfl

/-! ## Edits that keep every place -/

/-- The same code with other instructions. -/
def replaceAll (code : Code) (replace : Instr → Instr) : Code :=
  { code with instrs := code.instrs.map replace }

variable {replace : Instr → Instr}

theorem map_size_replaceAll (sized : ∀ instr, (replace instr).size = instr.size) :
    (code.replaceAll replace).instrs.map Instruction.size = code.instrs.map Instruction.size := by
  change (code.instrs.map replace).map _ = _
  rw [List.map_map]
  exact List.map_congr_left fun instr _ => sized instr

theorem offsets_replaceAll (sized : ∀ instr, (replace instr).size = instr.size) :
    (code.replaceAll replace).offsets = code.offsets :=
  offsetsFrom_eq_of_sizes 0 (map_size_replaceAll sized)

theorem size_replaceAll (code : Code) (replace : Instr → Instr) :
    (code.replaceAll replace).size = code.size :=
  List.length_map _

/-- Instructions of the same sizes with the same targets can be stored just as well. -/
theorem Storable.replaceAll (storable : code.Storable)
    (sized : ∀ instr, (replace instr).size = instr.size)
    (aimed : ∀ instr, (replace instr).target? = instr.target?) :
    (code.replaceAll replace).Storable := by
  intro index instr here target leads
  change (code.instrs.map replace)[index]? = some instr at here
  rw [List.getElem?_map] at here
  rcases Option.map_eq_some_iff.mp here with ⟨original, there, rfl⟩
  rw [aimed] at leads
  rw [size_replaceAll, firstByte_congr (map_size_replaceAll sized),
    firstByte_congr (map_size_replaceAll sized)]
  exact storable index original there target leads

theorem Settled.replaceAll (settled : code.Settled)
    (sized : ∀ instr, (replace instr).size = instr.size) :
    (code.replaceAll replace).Settled := by
  refine ⟨settled.ordered, fun point member => ?_, fun point member => ?_⟩
  · rw [size_replaceAll]
    exact settled.inside point member
  · rw [firstByte_congr (map_size_replaceAll sized)]
    exact settled.near point member

/-! ## Code in front -/

/-- The code with a straight piece in front of it. -/
def behind (prelude : List Instr) (code : Code) : Code where
  instrs := prelude ++ code.instrs.map (·.mapTarget (· + prelude.length))
  points := code.points.map fun point => { point with index := point.index + prelude.length }

variable {prelude : List Instr}

theorem insert?_zero (code : Code) (prelude : List Instr) :
    code.insert? 0 prelude = some (code.behind prelude) := by
  unfold insert? behind renumber
  split
  · next empty =>
    rw [List.isEmpty_iff.mp empty]
    have still : (fun instr : Instr => instr.mapTarget (· + ([] : List Instr).length)) = id :=
      funext Instruction.mapTarget_id
    rw [still, List.map_id]
    have same : (fun point : SourcePoint =>
        ({ point with index := point.index + ([] : List Instr).length } : SourcePoint)) = id := rfl
    rw [same, List.map_id]
    rfl
  · rw [if_pos (Nat.zero_le _)]
    simp

theorem firstByte_behind (prelude : List Instr) (code : Code) (index : Nat) :
    firstByte (code.behind prelude).instrs (index + prelude.length) =
      (prelude.map Instruction.size).sum + firstByte code.instrs index := by
  have sizes : (code.instrs.map (·.mapTarget (· + prelude.length))).map Instruction.size =
      code.instrs.map Instruction.size := by
    rw [List.map_map]
    exact List.map_congr_left fun instr _ => Instruction.size_mapTarget _ instr
  rw [← firstByte_congr sizes]
  unfold firstByte behind
  rw [Nat.add_comm, List.take_length_add_append, List.map_append, List.sum_append]

theorem size_behind (prelude : List Instr) (code : Code) :
    (code.behind prelude).size = code.size + prelude.length := by
  unfold size behind
  rw [List.length_append, List.length_map, Nat.add_comm]

theorem Storable.behind (storable : code.Storable)
    (straight : ∀ instr ∈ prelude, instr.target? = none) : (code.behind prelude).Storable := by
  intro index instr here target leads
  change (prelude ++ code.instrs.map _)[index]? = some instr at here
  rcases Nat.lt_or_ge index prelude.length with front | back
  · rw [List.getElem?_append_left front] at here
    cases (straight instr (List.mem_of_getElem? here)).symm.trans leads
  · rw [List.getElem?_append_right back, List.getElem?_map] at here
    rcases Option.map_eq_some_iff.mp here with ⟨original, there, rfl⟩
    rw [Instruction.target?_mapTarget] at leads
    rcases Option.map_eq_some_iff.mp leads with ⟨aim, aimed, rfl⟩
    rcases storable _ original there aim aimed with ⟨inside, distance, reached⟩
    have place : index + 1 = index - prelude.length + 1 + prelude.length := by omega
    refine ⟨?_, distance, ?_⟩
    · rw [size_behind]
      exact Nat.add_lt_add_right inside _
    · rw [place, firstByte_behind, firstByte_behind]
      omega

theorem Settled.behind (settled : code.Settled)
    (near : ∀ point ∈ code.points,
      (prelude.map Instruction.size).sum + firstByte code.instrs point.index < 2 ^ 32) :
    (code.behind prelude).Settled := by
  have moved : ∀ condition : SourcePoint → Prop, (∀ point ∈ code.points,
      condition { point with index := point.index + prelude.length }) →
        ∀ point ∈ (code.behind prelude).points, condition point :=
    fun condition => List.forall_mem_map.mpr
  refine ⟨?_, moved _ fun point member => ?_, moved _ fun point member => ?_⟩
  · refine List.pairwise_map.mpr (settled.ordered.imp fun before => ?_)
    exact Nat.add_lt_add_right before _
  · rw [size_behind]
    exact Nat.add_lt_add_right (settled.inside point member) _
  · rw [firstByte_behind]
    exact near point member

/-- The entries of the line table move along with their instructions. -/
theorem entry_behind (prelude : List Instr) (code : Code) (point : SourcePoint) :
    (code.behind prelude).entry { point with index := point.index + prelude.length } =
      ⟨UInt32.ofNat ((prelude.map Instruction.size).sum + firstByte code.instrs point.index),
        point.line, point.column⟩ := by
  unfold entry
  rw [firstByte_behind]

/-- An instruction stands in the source where it stood before. -/
theorem lineAt?_behind (prelude : List Instr) (code : Code) (index : Nat) :
    (code.behind prelude).lineAt? (index + prelude.length) = code.lineAt? index := by
  have later : ∀ (points : List SourcePoint) (found : Option SourcePoint),
      (points.map fun point : SourcePoint =>
        ({ point with index := point.index + prelude.length } : SourcePoint)).foldl laterPoint
          (found.map fun point => { point with index := point.index + prelude.length }) =
        (points.foldl laterPoint found).map fun point =>
          { point with index := point.index + prelude.length } := by
    intro points
    induction points with
    | nil => exact fun found => rfl
    | cons point more ih =>
      intro found
      rw [List.map_cons, List.foldl_cons, List.foldl_cons, ← ih]
      congr 1
      cases found with
      | none => rfl
      | some first =>
        simp only [laterPoint, Option.map_some, Nat.add_lt_add_iff_right]
        split <;> rfl
  have kept : ((code.behind prelude).points.filter (·.index ≤ index + prelude.length)) =
      (code.points.filter (·.index ≤ index)).map fun point =>
        { point with index := point.index + prelude.length } := by
    unfold behind
    rw [List.filter_map]
    congr 2
    funext point
    simp
  unfold lineAt?
  rw [kept]
  have found := later (code.points.filter (·.index ≤ index)) none
  rw [Option.map_none] at found
  rw [found, Option.map_map]
  rfl

/-! ## Code that is read back -/

/-- Resolving displacements changes nothing but the targets. -/
theorem map_act_of_resolveFrom {starts : List Nat} {start : Nat}
    {stored : List (Instruction Int32)} {instrs : List Instr}
    (resolved : resolveFrom starts start stored = .ok instrs) :
    instrs.map Instr.act = stored.map fun instr => instr.mapTarget fun _ => () := by
  induction stored generalizing start instrs with
  | nil =>
    cases resolved
    rfl
  | cons first more ih =>
    rcases bind_eq_ok_iff.mp resolved with ⟨head, found, tail⟩
    rcases bind_eq_ok_iff.mp tail with ⟨others, rest, final⟩
    cases final
    rw [List.map_cons, List.map_cons, ih rest]
    congr 1
    cases first with
    | jump op distance =>
      rcases Instruction.exists_of_resolveTarget_jump found with ⟨index, _, rfl⟩
      rfl
    | _ => cases found; rfl

theorem map_act_displaceFrom (starts : List Nat) (total start : Nat) (instrs : List Instr) :
    (displaceFrom starts total start instrs).map (fun instr => instr.mapTarget fun _ => ()) =
      instrs.map Instr.act := by
  induction instrs generalizing start with
  | nil => rfl
  | cons instr more ih =>
    rw [displaceFrom, List.map_cons, List.map_cons, ih, Instruction.mapTarget_mapTarget]
    rfl

/-- What is read back does what was stored. -/
theorem map_act_of_toCode_toBody {read : Code} {locals : List Signature}
    (found : (code.toBody locals).toCode = .ok read) :
    read.instrs.map Instr.act = code.instrs.map Instr.act := by
  rcases bind_eq_ok_iff.mp found with ⟨resolved, bytes, final⟩
  cases final
  rcases decode_eq_ok_iff.mp bytes with ⟨stored, written, instrs, resolves, rfl⟩
  -- The bytes are those of one sequence of instructions only.
  have same : stored = displaceFrom code.offsets code.byteSize 0 code.instrs := by
    have one := Instruction.decodeStream_eq_ok_iff.mpr written
    have other := Instruction.decodeStream_eq_ok_iff.mpr
      (encodeFrom_eq_flatMap code.offsets code.byteSize 0 code.instrs)
    exact Except.ok.inj (one.symm.trans other)
  change instrs.map Instr.act = _
  rw [map_act_of_resolveFrom resolves, same, map_act_displaceFrom]

end Code

end NativeWeave
