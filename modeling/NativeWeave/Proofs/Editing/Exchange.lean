import Mathlib.Data.List.Forall2
import NativeWeave.Editing.Plan
import NativeWeave.Proofs.Format.Body

namespace NativeWeave

/-!
# Bodies with instructions exchanged one for one

An edit may exchange instructions for others of the same sizes with the same targets, and put
straight code in front.  Then every instruction stands where it stood, counted behind the code in
front, every jump leads to the instruction that it led to, and every line belongs to the instruction
that it belonged to, as long as the line table is in order.
-/

/-- How many bytes stored code takes. -/
def Fragment.byteSize (fragment : Fragment) : Nat :=
  (fragment.map Instruction.size).sum

/-- The entry for the same instruction behind some bytes of other code. -/
def LineEntry.behind (bytes : Nat) (entry : LineEntry) : LineEntry :=
  { entry with offset := entry.offset + UInt32.ofNat bytes }

/-- The later code is the earlier one behind a prelude, with instructions exchanged one for one. -/
structure Code.Exchanged (prelude : Fragment) (related : Instr → Instr → Prop)
    (code now : Code) : Prop where
  instrs : ∃ exchanged, List.Forall₂ related code.instrs exchanged ∧
    now.instrs = prelude ++ exchanged.map (·.mapTarget (· + prelude.length))
  offsets : now.offsets = Code.offsetsFrom 0 prelude ++ code.offsets.map (prelude.byteSize + ·)

/-- Every instruction has the line that it had.  A line table that maps instructions to lines is the
same, counted behind the prelude. -/
structure Body.KeepsLines (prelude : Fragment) (body later : Body) (code now : Code) : Prop where
  points : now.points = code.points.map fun point =>
    { point with index := point.index + prelude.length }
  lineAt : ∀ index, now.lineAt? (index + prelude.length) = code.lineAt? index
  ordered : later.lines.Pairwise (·.offset < ·.offset)
  table : (∀ entry ∈ body.lines, entry.offset.toNat ∈ code.offsets) →
    later.lines = body.lines.map (·.behind prelude.byteSize)

/-- The later body is the earlier one behind a prelude, with instructions exchanged one for one.  A
body that holds no code stays as it is. -/
structure Body.Exchanged (prelude : Fragment) (related : Instr → Instr → Prop)
    (body later : Body) : Prop where
  locals : later.locals = body.locals
  code : ∀ code, body.toCode = .ok code → ∃ now, later.toCode = .ok now ∧
    code.Exchanged prelude related now ∧
    (body.lines.Pairwise (·.offset < ·.offset) → prelude = [] ∨ later.code.length ≤ 2 ^ 32 →
      body.KeepsLines prelude later code now)
  unread : (∀ code, body.toCode ≠ .ok code) → prelude = [] ∧ later = body

/-! ## Exchanging instructions -/

theorem LineEntry.behind_zero : LineEntry.behind 0 = id := by
  funext entry
  exact congrArg (fun offset => ({ entry with offset } : LineEntry)) (UInt32.add_zero _)

theorem Instr.map_mapTarget_add_zero (instrs : List Instr) :
    instrs.map (·.mapTarget (· + ([] : Fragment).length)) = instrs := by
  have still : (fun instr : Instr => instr.mapTarget (· + ([] : Fragment).length)) = id :=
    funext Instruction.mapTarget_id
  rw [still, List.map_id]

namespace Code

variable {code now : Code} {prelude : Fragment}

theorem offsetsFrom_append (start : Nat) (first second : List Instr) :
    offsetsFrom start (first ++ second) =
      offsetsFrom start first ++ offsetsFrom (start + Fragment.byteSize first) second := by
  induction first generalizing start with
  | nil => rfl
  | cons instr more ih =>
    rw [List.cons_append, offsetsFrom, offsetsFrom, ih, List.cons_append, Nat.add_assoc]
    rfl

theorem offsetsFrom_add (distance start : Nat) (instrs : List Instr) :
    offsetsFrom (distance + start) instrs = (offsetsFrom start instrs).map (distance + ·) := by
  induction instrs generalizing start with
  | nil => rfl
  | cons instr more ih => rw [offsetsFrom, offsetsFrom, List.map_cons, Nat.add_assoc, ih]

/-- Offsets only depend on the sizes of what is exchanged. -/
theorem offsets_behind (sized : now.instrs.map Instruction.size =
    code.instrs.map Instruction.size) (prelude : Fragment) : (now.behind prelude).offsets =
      offsetsFrom 0 prelude ++ code.offsets.map (prelude.byteSize + ·) := by
  have moved : (now.instrs.map (·.mapTarget (· + prelude.length))).map Instruction.size =
      code.instrs.map Instruction.size := by
    rw [List.map_map, ← sized]
    exact List.map_congr_left fun instr _ => Instruction.size_mapTarget _ instr
  rw [offsets, behind, offsetsFrom_append, Nat.zero_add, offsetsFrom_eq_of_sizes _ moved, offsets,
    ← offsetsFrom_add, Nat.add_zero]

end Code

/-! ## Bodies -/

namespace Body

variable {related : Instr → Instr → Prop} {body middle later : Body} {code now : Code}
  {prelude : Fragment} {replace : Instr → Instr}

/-- A body stays as it is if its instructions may. -/
theorem exchanged_self (still : ∀ code, body.toCode = .ok code → ∀ instr ∈ code.instrs,
    related instr instr) : body.Exchanged [] related body where
  locals := rfl
  code code read := by
    refine ⟨code, read, ⟨⟨code.instrs, List.forall₂_same.mpr (still code read), ?_⟩, ?_⟩, ?_⟩
    · rw [Instr.map_mapTarget_add_zero, List.nil_append]
    · change code.offsets = [] ++ code.offsets.map (0 + ·)
      simp
    · intro ordered _
      refine ⟨(List.map_id _).symm, fun index => rfl, ordered, fun _ => ?_⟩
      change _ = body.lines.map (LineEntry.behind 0)
      rw [LineEntry.behind_zero, List.map_id]
  unread _ := ⟨rfl, rfl⟩

/-- The line table of code that is read maps instructions to lines if that of the body does. -/
theorem map_entry_of_toCode (read : body.toCode = .ok code)
    (table : ∀ entry ∈ body.lines, entry.offset.toNat ∈ code.offsets) :
    code.points.map code.entry = body.lines := by
  rw [Code.entries_of_toCode read]
  refine List.filter_eq_self.mpr fun entry member => ?_
  rw [List.isSome_idxOf?]
  exact table entry member

/-- Instructions that give way to others of the same sizes with the same targets are exchanged. -/
theorem exchanged_replaceAll (read : body.toCode = .ok code)
    (sized : ∀ instr, (replace instr).size = instr.size)
    (aimed : ∀ instr, (replace instr).target? = instr.target?)
    (each : ∀ instr ∈ code.instrs, related instr (replace instr)) :
    body.Exchanged [] related ((code.replaceAll replace).toBody body.locals) where
  locals := rfl
  code other again := by
    cases read.symm.trans again
    have storable := (Code.storable_of_toCode read).replaceAll sized aimed
    rcases Code.exists_toCode_toBody storable body.locals with ⟨now, found, same⟩
    have exchanged : code.Exchanged [] related now := by
      refine ⟨⟨code.instrs.map replace, ?_, ?_⟩, ?_⟩
      · exact List.forall₂_map_right_iff.mpr (List.forall₂_same.mpr each)
      · rw [Instr.map_mapTarget_add_zero, List.nil_append, same]
        rfl
      · change Code.offsetsFrom 0 now.instrs = [] ++ code.offsets.map (0 + ·)
        rw [same, ← Code.offsets_replaceAll sized]
        simp [Code.offsets]
    refine ⟨now, found, exchanged, fun ordered _ => ?_⟩
    have settled := (Code.settled_of_toCode read ordered).replaceAll sized
    cases (Code.toCode_toBody storable settled body.locals).symm.trans found
    have entries : (code.replaceAll replace).entry = code.entry := by
      funext point
      unfold Code.entry
      rw [Code.firstByte_congr (Code.map_size_replaceAll sized)]
    refine ⟨(List.map_id _).symm, fun index => rfl, ?_, fun table => ?_⟩
    · change (code.replaceAll replace).lineTable.Pairwise _
      rw [settled.lineTable_eq]
      exact settled.pairwise_entries
    · change (code.replaceAll replace).lineTable = body.lines.map (LineEntry.behind 0)
      rw [settled.lineTable_eq, entries, LineEntry.behind_zero, List.map_id]
      exact map_entry_of_toCode read table
  unread unread := absurd read (unread code)

/-- A prelude moves source points and the line table along, as long as the table can hold their
places. -/
theorem KeepsLines.prepend {between : Code} (keeps : body.KeepsLines [] middle code between)
    (read : middle.toCode = .ok between)
    (sizes : between.instrs.map Instruction.size = code.instrs.map Instruction.size)
    (straight : ∀ instr ∈ prelude, instr.target? = none)
    (short : prelude = [] ∨ ((between.behind prelude).toBody middle.locals).code.length ≤ 2 ^ 32)
    (found : ((between.behind prelude).toBody middle.locals).toCode = .ok now) :
    body.KeepsLines prelude ((between.behind prelude).toBody middle.locals) code now := by
  have points : between.points = code.points := keeps.points.trans (List.map_id _)
  have settled := Code.settled_of_toCode read keeps.ordered
  have near : ∀ point ∈ between.points,
      prelude.byteSize + Code.firstByte between.instrs point.index < 2 ^ 32 := by
    intro point member
    rcases short with rfl | short
    · rw [Fragment.byteSize, List.map_nil, List.sum_nil, Nat.zero_add]
      exact settled.near point member
    · have within := Code.firstByte_lt_sum (settled.inside point member)
      have whole := Code.firstByte_le_sum (between.behind prelude).instrs
        (between.instrs.length + prelude.length)
      rw [Code.firstByte_behind, Code.firstByte, List.take_length] at whole
      rw [Code.toBody, Code.length_encode, Code.byteSize_eq_sum] at short
      unfold Fragment.byteSize
      omega
  have moved := settled.behind near
  cases (Code.toCode_toBody ((Code.storable_of_toCode read).behind straight) moved
    middle.locals).symm.trans found
  have table : ((between.behind prelude).toBody middle.locals).lines =
      (between.behind prelude).points.map (between.behind prelude).entry := moved.lineTable_eq
  refine ⟨?_, fun index => ?_, ?_, fun starts => ?_⟩
  · rw [← points]
    rfl
  · rw [Code.lineAt?_behind]
    exact keeps.lineAt index
  · rw [table]
    exact moved.pairwise_entries
  · have offsets : between.offsets = code.offsets := Code.offsetsFrom_eq_of_sizes 0 sizes
    have same : middle.lines = body.lines := by
      rw [keeps.table starts]
      change body.lines.map (LineEntry.behind 0) = _
      rw [LineEntry.behind_zero, List.map_id]
    have entries := map_entry_of_toCode read (by rw [same, offsets]; exact starts)
    rw [table, ← same, ← entries, Code.behind, List.map_map, List.map_map]
    refine List.map_congr_left fun point _ => ?_
    change (between.behind prelude).entry { point with index := point.index + prelude.length } = _
    rw [Code.entry_behind, Nat.add_comm, UInt32.ofNat_add]
    rfl

/-- Straight code may be put in front of what has been exchanged. -/
theorem Exchanged.prepend (exchanged : body.Exchanged [] related middle)
    (sized : ∀ {instr other : Instr}, related instr other → other.size = instr.size)
    (straight : ∀ instr ∈ prelude, instr.target? = none)
    (prepended : TypePlan.prependCode prelude middle = .ok later) :
    body.Exchanged prelude related later := by
  rcases bind_eq_ok_iff.mp prepended with ⟨between, loaded, prepended⟩
  have read : middle.toCode = .ok between := eq_ok_of_mapError loaded
  rw [Code.insert?_zero] at prepended
  cases prepended
  have storable := (Code.storable_of_toCode read).behind straight
  refine ⟨exchanged.locals, fun code own => ?_, fun unread => ?_⟩
  · rcases exchanged.code code own with ⟨_, again, ⟨⟨instrs, related, same⟩, _⟩, lines⟩
    cases read.symm.trans again
    rw [Instr.map_mapTarget_add_zero, List.nil_append] at same
    have sizes : between.instrs.map Instruction.size = code.instrs.map Instruction.size := by
      rw [same]
      exact (List.forall₂_eq_eq_eq ▸ List.forall₂_map_left_iff.mpr (List.forall₂_map_right_iff.mpr
        (related.flip.imp fun _ _ holds => sized holds)) : _ = _)
    rcases Code.exists_toCode_toBody storable middle.locals with ⟨now, found, kept⟩
    refine ⟨now, found, ⟨⟨instrs, related, ?_⟩, ?_⟩, fun ordered short => ?_⟩
    · rw [kept, ← same]
      rfl
    · change Code.offsetsFrom 0 now.instrs = _
      rw [kept]
      exact Code.offsets_behind sizes prelude
    · have keeps := lines ordered (.inl rfl)
      exact keeps.prepend read sizes straight short found
  · have same := (exchanged.unread unread).2
    exact absurd (same ▸ read) (unread between)

end Body

end NativeWeave
