import NativeWeave.Proofs.Format.Instruction
import NativeWeave.Proofs.Outcome

namespace NativeWeave

/-!
# Jumps between displacements and indices

A stored jump holds a distance in bytes, a jump for editing the index of its target.  The two are
related by the first byte of each instruction: no two instructions share it, so that an index and a
place determine each other, and both directions of the format translate one into the other.
-/

namespace Instruction

variable {Source Target Cause : Type}

/-- A jump is resolved by resolving its target. -/
theorem exists_of_resolveTarget_jump {resolve : Source → Except Cause Target} {op : JumpOp}
    {target : Source} {resolved : Instruction Target}
    (found : (jump op target).resolveTarget resolve = .ok resolved) :
    ∃ index, resolve target = .ok index ∧ resolved = jump op index := by
  rw [resolveTarget] at found
  cases looked : resolve target with
  | error cause =>
    rw [looked] at found
    cases found
  | ok index =>
    rw [looked] at found
    cases found
    exact ⟨index, rfl, rfl⟩

/-- Resolving a target keeps the operation. -/
theorem size_of_resolveTarget {resolve : Source → Except Cause Target}
    {source : Instruction Source} {resolved : Instruction Target}
    (found : source.resolveTarget resolve = .ok resolved) : resolved.size = source.size := by
  cases source with
  | jump op target =>
    rcases exists_of_resolveTarget_jump found with ⟨index, _, rfl⟩
    rfl
  | _ => cases found; rfl

end Instruction

namespace Code

variable {Target : Type}

/-! ## The first byte of each instruction -/

/-- The place of the first byte of the instruction at an index, when the code begins at place zero.
Behind the last instruction it is the end of the code. -/
def firstByte (instrs : List (Instruction Target)) (index : Nat) : Nat :=
  ((instrs.take index).map Instruction.size).sum

@[simp] theorem firstByte_zero (instrs : List (Instruction Target)) : firstByte instrs 0 = 0 := by
  simp [firstByte]

@[simp] theorem firstByte_cons_succ (instr : Instruction Target)
    (more : List (Instruction Target)) (index : Nat) :
    firstByte (instr :: more) (index + 1) = instr.size + firstByte more index := by
  simp [firstByte]

theorem byteSize_eq_sum (code : Code) :
    code.byteSize = (code.instrs.map Instruction.size).sum := by
  unfold byteSize
  induction code.instrs with
  | nil => rfl
  | cons instr more ih => rw [List.foldr_cons, ih, List.map_cons, List.sum_cons]

theorem length_encode_eq_sum (stored : List (Instruction Int32)) :
    (stored.flatMap Instruction.codec.encode).length = (stored.map Instruction.size).sum := by
  induction stored with
  | nil => rfl
  | cons instr more ih =>
    rw [List.flatMap_cons, List.length_append, ih, Instruction.length_encode, List.map_cons,
      List.sum_cons]

/-- Of two instructions the later one begins behind the earlier one, and every instruction begins
before the end of the code. -/
theorem firstByte_lt_firstByte {instrs : List (Instruction Target)} {first second : Nat}
    (inside : first < instrs.length) (order : first < second) :
    firstByte instrs first < firstByte instrs second := by
  induction instrs generalizing first second with
  | nil => cases inside
  | cons instr more ih =>
    cases second with
    | zero => cases order
    | succ second =>
      have positive := instr.size_pos
      cases first with
      | zero =>
        rw [firstByte_zero, firstByte_cons_succ]
        omega
      | succ first =>
        have := ih (Nat.lt_of_succ_lt_succ inside) (Nat.lt_of_succ_lt_succ order)
        rw [firstByte_cons_succ, firstByte_cons_succ]
        omega

theorem firstByte_lt_sum {instrs : List (Instruction Target)} {index : Nat}
    (inside : index < instrs.length) :
    firstByte instrs index < (instrs.map Instruction.size).sum := by
  have before := firstByte_lt_firstByte inside inside
  rwa [firstByte, firstByte, List.take_length] at before

theorem firstByte_le_sum (instrs : List (Instruction Target)) (index : Nat) :
    firstByte instrs index ≤ (instrs.map Instruction.size).sum := by
  have whole := congrArg List.sum (congrArg (List.map Instruction.size)
    (List.take_append_drop index instrs))
  rw [List.map_append, List.sum_append] at whole
  exact Nat.le.intro whole

/-- A place is found among the offsets exactly as the first byte of an instruction, and it is found
at the index of this instruction. -/
theorem idxOf?_offsetsFrom_eq_some_iff {start place index : Nat}
    {instrs : List (Instruction Target)} :
    (offsetsFrom start instrs).idxOf? place = some index ↔
      index < instrs.length ∧ place = start + firstByte instrs index := by
  induction instrs generalizing start index with
  | nil => simp [offsetsFrom]
  | cons instr more ih =>
    have positive := instr.size_pos
    rw [offsetsFrom, List.idxOf?_cons]
    by_cases here : start = place
    · subst here
      cases index with
      | zero => simp
      | succ index =>
        simp only [beq_self_eq_true, if_true, firstByte_cons_succ]
        constructor
        · intro impossible
          cases impossible
        · intro ⟨_, far⟩
          omega
    · rw [if_neg (by simpa using here), Option.map_eq_some_iff]
      cases index with
      | zero =>
        rw [firstByte_zero]
        constructor
        · rintro ⟨_, _, impossible⟩
          cases impossible
        · intro ⟨_, near⟩
          exact absurd near.symm here
      | succ index =>
        rw [firstByte_cons_succ, List.length_cons]
        constructor
        · rintro ⟨_, found, same⟩
          cases same
          have placed := ih.mp found
          omega
        · intro ⟨inside, placed⟩
          exact ⟨index, ih.mpr (by omega), rfl⟩

/-! ## Where jumps lead -/

/-- The place that a stored jump at an index leads to; `none` if no jump is there. -/
def landing? (stored : List (Instruction Int32)) (index : Nat) : Option Int :=
  (stored[index]?.bind Instruction.target?).map fun displacement =>
    firstByte stored (index + 1) + displacement.toInt

/-- Every jump leads to the first byte of an instruction. -/
def LandsInside (stored : List (Instruction Int32)) : Prop :=
  ∀ index place, landing? stored index = some place →
    ∃ target < stored.length, place = firstByte stored target

theorem landing?_cons_zero (instr : Instruction Int32) (more : List (Instruction Int32)) :
    landing? (instr :: more) 0 =
      instr.target?.map fun displacement => (instr.size : Int) + displacement.toInt := by
  simp [landing?]

theorem landing?_cons_succ (instr : Instruction Int32) (more : List (Instruction Int32))
    (index : Nat) :
    landing? (instr :: more) (index + 1) =
      (landing? more index).map fun place => (instr.size : Int) + place := by
  simp [landing?, Function.comp_def, Int.add_assoc]

/-- A place that is among the offsets. -/
def Listed (starts : List Nat) (place : Int) : Prop :=
  ∃ index, 0 ≤ place ∧ starts.idxOf? place.toNat = some index

theorem listed_offsetsFrom_iff {instrs : List (Instruction Target)} {place : Int} :
    Listed (offsetsFrom 0 instrs) place ↔
      ∃ index < instrs.length, place = firstByte instrs index := by
  constructor
  · rintro ⟨index, positive, found⟩
    rcases idxOf?_offsetsFrom_eq_some_iff.mp found with ⟨inside, placed⟩
    exact ⟨index, inside, by omega⟩
  · rintro ⟨index, inside, rfl⟩
    refine ⟨index, Int.natCast_nonneg _, idxOf?_offsetsFrom_eq_some_iff.mpr ⟨inside, ?_⟩⟩
    rw [Int.toNat_natCast, Nat.zero_add]

theorem targetIndex_eq_ok_iff {starts : List Nat} {offset behind index : Nat}
    {displacement : Int32} :
    targetIndex starts offset behind displacement = .ok index ↔
      0 ≤ behind + displacement.toInt ∧
        starts.idxOf? (behind + displacement.toInt).toNat = some index := by
  simp only [targetIndex]
  by_cases positive : 0 ≤ behind + displacement.toInt
  · rw [if_pos positive]
    cases starts.idxOf? (behind + displacement.toInt).toNat <;> simp [positive]
  · simp [positive]

theorem targetIndex_of_not_listed {starts : List Nat} {offset behind : Nat} {displacement : Int32}
    (missing : ¬ Listed starts (behind + displacement.toInt)) :
    targetIndex starts offset behind displacement =
      .error (.invalidBranchTarget offset (behind + displacement.toInt)) := by
  simp only [targetIndex]
  split
  · rename_i index found
    split at found
    · rename_i positive
      exact absurd ⟨index, positive, found⟩ missing
    · cases found
  · rfl

/-! ## Resolving displacements -/

/-- An instruction resolves if it is no jump or its jump leads to a place among the offsets;
otherwise the error names the place. -/
theorem resolveTarget_targetIndex (starts : List Nat) (offset behind : Nat)
    (instr : Instruction Int32) :
    (∃ resolved, instr.resolveTarget (targetIndex starts offset behind) = .ok resolved ∧
      ∀ displacement ∈ instr.target?, Listed starts (behind + displacement.toInt)) ∨
    ∃ displacement ∈ instr.target?, ¬ Listed starts (behind + displacement.toInt) ∧
      instr.resolveTarget (targetIndex starts offset behind) =
        .error (.invalidBranchTarget offset (behind + displacement.toInt)) := by
  cases instr with
  | jump op displacement =>
    by_cases listed : Listed starts (behind + displacement.toInt)
    · left
      rcases listed with ⟨index, found⟩
      have resolved : targetIndex starts offset behind displacement = .ok index :=
        targetIndex_eq_ok_iff.mpr found
      refine ⟨.jump op index, ?_, ?_⟩
      · rw [Instruction.resolveTarget, resolved]
        rfl
      · rintro _ ⟨rfl⟩
        exact ⟨index, found⟩
    · right
      refine ⟨displacement, rfl, listed, ?_⟩
      rw [Instruction.resolveTarget, targetIndex_of_not_listed listed]
      rfl
  | _ => exact .inl ⟨_, rfl, fun _ impossible => nomatch impossible⟩

/-- Code resolves if every jump leads to a place among the offsets; otherwise the error names a
jump that does not and the place that it leads to. -/
theorem resolveFrom_total (starts : List Nat) (start : Nat) (stored : List (Instruction Int32)) :
    (∃ instrs, resolveFrom starts start stored = .ok instrs ∧
      ∀ index place, landing? stored index = some place → Listed starts (start + place)) ∨
    ∃ index place, landing? stored index = some place ∧ ¬ Listed starts (start + place) ∧
      resolveFrom starts start stored =
        .error (.invalidBranchTarget (start + firstByte stored index) (start + place)) := by
  induction stored generalizing start with
  | nil => exact .inl ⟨[], rfl, fun _ _ impossible => by simp [landing?] at impossible⟩
  | cons instr more ih =>
    rcases resolveTarget_targetIndex starts start (start + instr.size) instr with
      ⟨resolved, first, lands⟩ | ⟨displacement, target, stray, failed⟩
    · rcases ih (start + instr.size) with
        ⟨others, rest, land⟩ | ⟨index, place, leads, stray, failed⟩
      · left
        refine ⟨resolved :: others, ?_, ?_⟩
        · rw [resolveFrom, first, ok_bind, rest]
          rfl
        · intro index place leads
          cases index with
          | zero =>
            rw [landing?_cons_zero, Option.map_eq_some_iff] at leads
            rcases leads with ⟨displacement, target, rfl⟩
            have listed := lands displacement target
            rwa [Int.natCast_add, Int.add_assoc] at listed
          | succ index =>
            rw [landing?_cons_succ, Option.map_eq_some_iff] at leads
            rcases leads with ⟨place, leads, rfl⟩
            have listed := land index place leads
            rwa [Int.natCast_add, Int.add_assoc] at listed
      · right
        refine ⟨index + 1, instr.size + place, ?_, ?_, ?_⟩
        · rw [landing?_cons_succ, leads]
          rfl
        · rwa [← Int.add_assoc, ← Int.natCast_add]
        · rw [resolveFrom, first, ok_bind, failed, firstByte_cons_succ, ← Nat.add_assoc,
            ← Int.add_assoc, ← Int.natCast_add]
          rfl
    · right
      refine ⟨0, instr.size + displacement.toInt, ?_, ?_, ?_⟩
      · rw [landing?_cons_zero, target]
        rfl
      · rwa [← Int.add_assoc, ← Int.natCast_add]
      · rw [resolveFrom, failed, firstByte_zero, ← Int.add_assoc, ← Int.natCast_add]
        rfl

/-! ## From bytes to code and back -/

theorem getD_of_idxOf? {starts : List Nat} {place index : Nat} (total : Nat)
    (found : starts.idxOf? place = some index) : starts.getD index total = place := by
  rcases List.idxOf?_eq_some_iff.mp found with ⟨inside, same, _⟩
  rw [List.getD_eq_getElem?_getD, List.getElem?_eq_getElem inside]
  exact same

/-- The displacement to the instruction that a displacement was resolved to is the displacement. -/
theorem mapTarget_displacement_of_resolveTarget {starts : List Nat} {offset behind : Nat}
    {instr : Instruction Int32} {resolved : Instr} (total : Nat)
    (found : instr.resolveTarget (targetIndex starts offset behind) = .ok resolved) :
    resolved.mapTarget (displacement starts total behind) = instr := by
  cases instr with
  | jump op distance =>
    rcases Instruction.exists_of_resolveTarget_jump found with ⟨index, looked, rfl⟩
    rcases targetIndex_eq_ok_iff.mp looked with ⟨positive, place⟩
    have back : displacement starts total behind index = distance := by
      rw [displacement, getD_of_idxOf? total place, Int.toNat_of_nonneg positive,
        Int.add_comm, Int.add_sub_cancel, Int32.ofInt_toInt]
    rw [Instruction.mapTarget, back]
  | _ => cases found; rfl

/-- Resolved code is written as the instructions it was resolved from. -/
theorem encodeFrom_of_resolveFrom {starts : List Nat} {start : Nat}
    {stored : List (Instruction Int32)} {instrs : List Instr} (total : Nat)
    (resolved : resolveFrom starts start stored = .ok instrs) :
    encodeFrom starts total start instrs = stored.flatMap Instruction.codec.encode := by
  induction stored generalizing start instrs with
  | nil =>
    cases resolved
    rfl
  | cons instr more ih =>
    rcases bind_eq_ok_iff.mp resolved with ⟨first, head, tail⟩
    rcases bind_eq_ok_iff.mp tail with ⟨others, rest, final⟩
    cases final
    simp only [encodeFrom]
    rw [Instruction.size_of_resolveTarget head, mapTarget_displacement_of_resolveTarget total head,
      ih rest, List.flatMap_cons]

theorem map_size_of_resolveFrom {starts : List Nat} {start : Nat}
    {stored : List (Instruction Int32)} {instrs : List Instr}
    (resolved : resolveFrom starts start stored = .ok instrs) :
    instrs.map Instruction.size = stored.map Instruction.size := by
  induction stored generalizing start instrs with
  | nil =>
    cases resolved
    rfl
  | cons instr more ih =>
    rcases bind_eq_ok_iff.mp resolved with ⟨first, head, tail⟩
    rcases bind_eq_ok_iff.mp tail with ⟨others, rest, final⟩
    cases final
    rw [List.map_cons, List.map_cons, Instruction.size_of_resolveTarget head, ih rest]

/-- Offsets depend on nothing but the sizes. -/
theorem offsetsFrom_eq_of_sizes {Source : Type} {first : List (Instruction Source)}
    {second : List (Instruction Target)} (start : Nat)
    (same : first.map Instruction.size = second.map Instruction.size) :
    offsetsFrom start first = offsetsFrom start second := by
  induction first generalizing start second with
  | nil =>
    rw [List.map_nil, eq_comm, List.map_eq_nil_iff] at same
    rw [same]
    rfl
  | cons instr more ih =>
    cases second with
    | nil => cases same
    | cons other others =>
      rcases List.cons.inj same with ⟨head, tail⟩
      rw [offsetsFrom, offsetsFrom, head, ih _ tail]

/-! ## From code to bytes and back -/

/-- The instructions as they are stored, with a displacement in every jump. -/
def displaceFrom (starts : List Nat) (total : Nat) : (start : Nat) → List Instr →
    List (Instruction Int32)
  | _, [] => []
  | start, instr :: more =>
    instr.mapTarget (displacement starts total (start + instr.size)) ::
      displaceFrom starts total (start + instr.size) more

theorem encodeFrom_eq_flatMap (starts : List Nat) (total start : Nat) (instrs : List Instr) :
    encodeFrom starts total start instrs =
      (displaceFrom starts total start instrs).flatMap Instruction.codec.encode := by
  induction instrs generalizing start with
  | nil => rfl
  | cons instr more ih =>
    simp only [encodeFrom, displaceFrom]
    rw [ih, List.flatMap_cons]

theorem map_size_displaceFrom (starts : List Nat) (total start : Nat) (instrs : List Instr) :
    (displaceFrom starts total start instrs).map Instruction.size =
      instrs.map Instruction.size := by
  induction instrs generalizing start with
  | nil => rfl
  | cons instr more ih =>
    rw [displaceFrom, List.map_cons, List.map_cons, Instruction.size_mapTarget, ih]

/-- The displacement to a listed place is resolved to the instruction there, if it can be stored. -/
theorem resolveTarget_mapTarget {starts : List Nat} {total offset behind : Nat} {instr : Instr}
    (listed : ∀ target ∈ instr.target?, ∃ place, starts.idxOf? place = some target ∧
      ∃ distance : Int32, (behind : Int) + distance.toInt = place) :
    (instr.mapTarget (displacement starts total behind)).resolveTarget
      (targetIndex starts offset behind) = .ok instr := by
  cases instr with
  | jump op target =>
    rcases listed target rfl with ⟨place, found, distance, reached⟩
    have stored : displacement starts total behind target = distance := by
      rw [displacement, getD_of_idxOf? total found, ← reached, Int.add_comm,
        Int.add_sub_cancel, Int32.ofInt_toInt]
    have resolved : targetIndex starts offset behind distance = .ok target := by
      apply targetIndex_eq_ok_iff.mpr
      rw [reached]
      exact ⟨Int.natCast_nonneg _, found⟩
    rw [Instruction.mapTarget, Instruction.resolveTarget, stored, resolved]
    rfl
  | _ => rfl

/-- Stored jumps resolve to the targets they were stored for. -/
theorem resolveFrom_displaceFrom {starts : List Nat} {total start : Nat} {instrs : List Instr}
    (listed : ∀ index instr, instrs[index]? = some instr → ∀ target ∈ instr.target?,
      ∃ place, starts.idxOf? place = some target ∧ ∃ distance : Int32,
        ((start + firstByte instrs (index + 1) : Nat) : Int) + distance.toInt = place) :
    resolveFrom starts start (displaceFrom starts total start instrs) = .ok instrs := by
  induction instrs generalizing start with
  | nil => rfl
  | cons instr more ih =>
    have first := listed 0 instr rfl
    rw [firstByte_cons_succ, firstByte_zero, Nat.add_zero] at first
    have others : resolveFrom starts (start + instr.size)
        (displaceFrom starts total (start + instr.size) more) = .ok more := by
      refine ih fun index other here => ?_
      have rest := listed (index + 1) other here
      rwa [firstByte_cons_succ, ← Nat.add_assoc] at rest
    rw [displaceFrom, resolveFrom, Instruction.size_mapTarget, resolveTarget_mapTarget first, ok_bind,
      others]
    rfl

/-- Jumps that were resolved lead as far as their displacements say. -/
theorem exists_distance_of_resolveFrom {starts : List Nat} {start : Nat}
    {stored : List (Instruction Int32)} {instrs : List Instr}
    (resolved : resolveFrom starts start stored = .ok instrs) :
    ∀ index instr, instrs[index]? = some instr → ∀ target ∈ instr.target?,
      ∃ place, starts.idxOf? place = some target ∧ ∃ distance : Int32,
        ((start + firstByte instrs (index + 1) : Nat) : Int) + distance.toInt = place := by
  induction stored generalizing start instrs with
  | nil =>
    cases resolved
    exact fun index instr impossible => nomatch impossible
  | cons first more ih =>
    rcases bind_eq_ok_iff.mp resolved with ⟨head, found, tail⟩
    rcases bind_eq_ok_iff.mp tail with ⟨others, rest, final⟩
    cases final
    have sized := Instruction.size_of_resolveTarget found
    intro index instr here target leads
    cases index with
    | zero =>
      cases here
      rw [firstByte_cons_succ, firstByte_zero, Nat.add_zero, sized]
      cases first with
      | jump op distance =>
        rcases Instruction.exists_of_resolveTarget_jump found with ⟨index, looked, rfl⟩
        cases leads
        rcases targetIndex_eq_ok_iff.mp looked with ⟨positive, place⟩
        exact ⟨_, place, distance, (Int.toNat_of_nonneg positive).symm⟩
      | _ =>
        cases found
        cases leads
    | succ index =>
      rw [firstByte_cons_succ, sized, ← Nat.add_assoc]
      exact ih rest index instr here target leads

/-! ## The format of code -/

/-- Every jump names an instruction of the code. -/
def TargetsInside (code : Code) : Prop :=
  ∀ instr ∈ code.instrs, ∀ index ∈ instr.target?, index < code.size

/-- Bytes that are read as code are the bytes of some instructions, and the code is what these
resolve to. -/
theorem decode_eq_ok_iff {bytes : Bytes} {code : Code} :
    decode bytes = .ok code ↔
      ∃ stored, bytes = stored.flatMap Instruction.codec.encode ∧
        ∃ instrs, resolveFrom (offsetsFrom 0 stored) 0 stored = .ok instrs ∧ { instrs } = code := by
  unfold decode
  rw [bind_eq_ok_iff]
  refine exists_congr fun stored => and_congr Instruction.decodeStream_eq_ok_iff ?_
  rw [bind_eq_ok_iff]
  exact exists_congr fun instrs => and_congr_right fun _ => ⟨Except.ok.inj, congrArg Except.ok⟩

/-- Whether the bytes of instructions are read as code is up to their jumps; an error names a jump
that leads to no instruction and the place that it leads to. -/
theorem decode_flatMap_encode (stored : List (Instruction Int32)) :
    (∃ code, decode (stored.flatMap Instruction.codec.encode) = .ok code ∧ LandsInside stored) ∨
    ∃ index place, landing? stored index = some place ∧
      (∀ target < stored.length, place ≠ firstByte stored target) ∧
      decode (stored.flatMap Instruction.codec.encode) =
        .error (.invalidBranchTarget (firstByte stored index) place) := by
  have read := Instruction.decodeStream_eq_ok_iff.mpr (Eq.refl (stored.flatMap _))
  unfold decode
  rw [read, ok_bind]
  rcases resolveFrom_total (offsetsFrom 0 stored) 0 stored with
    ⟨instrs, resolved, land⟩ | ⟨index, place, leads, stray, failed⟩
  · left
    refine ⟨{ instrs }, ?_, ?_⟩
    · rw [resolved]
      rfl
    · intro index place leads
      have listed := land index place leads
      rw [Int.natCast_zero, Int.zero_add] at listed
      exact listed_offsetsFrom_iff.mp listed
  · right
    rw [Int.natCast_zero, Int.zero_add] at stray failed
    refine ⟨index, place, leads, ?_, ?_⟩
    · intro target inside same
      exact stray (listed_offsetsFrom_iff.mpr ⟨target, inside, same⟩)
    · rw [failed, Nat.zero_add]
      rfl

theorem encode_of_decode {bytes : Bytes} {code : Code} (read : decode bytes = .ok code) :
    code.encode = bytes := by
  rcases decode_eq_ok_iff.mp read with ⟨stored, rfl, instrs, resolved, rfl⟩
  unfold encode offsets
  rw [offsetsFrom_eq_of_sizes 0 (map_size_of_resolveFrom resolved)]
  exact encodeFrom_of_resolveFrom _ resolved

/-- Every jump leads to an instruction, over a distance that a displacement can hold. -/
def Storable (code : Code) : Prop :=
  ∀ index instr, code.instrs[index]? = some instr → ∀ target ∈ instr.target?, target < code.size ∧
    ∃ distance : Int32,
      (firstByte code.instrs (index + 1) : Int) + distance.toInt = firstByte code.instrs target

theorem decode_encode_of_storable {code : Code} (storable : code.Storable) :
    decode code.encode = .ok { code with points := [] } := by
  refine decode_eq_ok_iff.mpr ⟨_, encodeFrom_eq_flatMap _ _ _ _, code.instrs, ?_, rfl⟩
  rw [offsetsFrom_eq_of_sizes 0 (map_size_displaceFrom _ _ _ _)]
  refine resolveFrom_displaceFrom fun index instr here target leads => ?_
  rcases storable index instr here target leads with ⟨inside, distance, reached⟩
  refine ⟨firstByte code.instrs target, ?_, distance, by rwa [Nat.zero_add]⟩
  exact idxOf?_offsetsFrom_eq_some_iff.mpr ⟨inside, (Nat.zero_add _).symm⟩

/-- Code that is read can be stored. -/
theorem storable_of_decode {bytes : Bytes} {code : Code} (read : decode bytes = .ok code) :
    code.Storable := by
  rcases decode_eq_ok_iff.mp read with ⟨stored, _, instrs, resolved, rfl⟩
  have sizes := map_size_of_resolveFrom resolved
  intro index instr here target leads
  rcases exists_distance_of_resolveFrom resolved index instr here target leads with
    ⟨place, found, distance, reached⟩
  rw [← offsetsFrom_eq_of_sizes 0 sizes] at found
  rcases idxOf?_offsetsFrom_eq_some_iff.mp found with ⟨inside, rfl⟩
  rw [Nat.zero_add, Nat.zero_add] at reached
  exact ⟨inside, distance, reached⟩

theorem Storable.targetsInside {code : Code} (storable : code.Storable) : code.TargetsInside := by
  intro instr member target leads
  rcases List.mem_iff_getElem?.mp member with ⟨index, here⟩
  exact (storable index instr here target leads).1

/-- All distances in code of less than 31 bits can be stored. -/
theorem storable_of_targetsInside {code : Code} (inside : code.TargetsInside)
    (short : code.byteSize < 2 ^ 31) : code.Storable := by
  intro index instr here target leads
  have named := inside instr (List.mem_of_getElem? here) target leads
  have before := firstByte_lt_sum named
  have behind : firstByte code.instrs (index + 1) ≤ (code.instrs.map Instruction.size).sum :=
    firstByte_le_sum _ _
  rw [byteSize_eq_sum] at short
  refine ⟨named, Int32.ofInt (firstByte code.instrs target - firstByte code.instrs (index + 1)), ?_⟩
  rw [Int32.toInt_ofInt_of_le (by omega) (by omega)]
  omega

theorem decode_encode {code : Code} (inside : code.TargetsInside) (short : code.byteSize < 2 ^ 31) :
    decode code.encode = .ok { code with points := [] } :=
  decode_encode_of_storable (storable_of_targetsInside inside short)

/-- The end of the code and the places inside an instruction are first bytes of no instruction. -/
theorem ne_firstByte {stored : List (Instruction Int32)} {place : Int}
    (beside : place = (stored.flatMap Instruction.codec.encode).length ∨
      ∃ index < stored.length, firstByte stored index < place ∧
        place < firstByte stored (index + 1)) :
    ∀ target < stored.length, place ≠ firstByte stored target := by
  rintro target inside rfl
  rcases beside with ending | ⟨index, _, behind, before⟩
  · have := firstByte_lt_sum inside
    rw [length_encode_eq_sum] at ending
    omega
  · rcases Nat.lt_trichotomy index target with order | rfl | order
    · have : firstByte stored (index + 1) ≤ firstByte stored target := by
        rcases Nat.eq_or_lt_of_le (Nat.succ_le_of_lt order) with rfl | further
        · exact Nat.le_refl _
        · exact Nat.le_of_lt (firstByte_lt_firstByte (by omega) further)
      omega
    · omega
    · have := firstByte_lt_firstByte inside order
      omega

/-- The format of code is a bijection between the bytes that are read as code and the code whose
jumps name its instructions, up to the source points, which are not part of it.  Read are exactly
the bytes of instructions of which every jump leads to the first byte of an instruction, and a jump
to the end or into an operand is an error. -/
theorem decode_bijective :
    (∀ bytes code, decode bytes = .ok code → code.encode = bytes) ∧
    (∀ code : Code, code.TargetsInside → code.byteSize < 2 ^ 31 →
      decode code.encode = .ok { code with points := [] }) ∧
    (∀ bytes, (∃ code, decode bytes = .ok code) ↔
      ∃ stored, bytes = stored.flatMap Instruction.codec.encode ∧ LandsInside stored) ∧
    (∀ stored index place, landing? stored index = some place →
      (place = (stored.flatMap Instruction.codec.encode).length ∨
        ∃ other < stored.length, firstByte stored other < place ∧
          place < firstByte stored (other + 1)) →
      ∃ offset target, decode (stored.flatMap Instruction.codec.encode) =
        .error (.invalidBranchTarget offset target)) := by
  refine ⟨fun bytes code => encode_of_decode, fun code => decode_encode, ?_, ?_⟩
  · intro bytes
    constructor
    · rintro ⟨code, read⟩
      rcases decode_eq_ok_iff.mp read with ⟨stored, rfl, -⟩
      refine ⟨stored, rfl, ?_⟩
      rcases decode_flatMap_encode stored with ⟨_, _, land⟩ | ⟨_, _, _, _, failed⟩
      · exact land
      · rw [read] at failed
        cases failed
    · rintro ⟨stored, rfl, land⟩
      rcases decode_flatMap_encode stored with ⟨code, read, _⟩ | ⟨index, place, leads, stray, _⟩
      · exact ⟨code, read⟩
      · rcases land index place leads with ⟨target, inside, same⟩
        exact absurd same (stray target inside)
  · intro stored index place leads beside
    rcases decode_flatMap_encode stored with ⟨_, _, land⟩ | ⟨index, place, _, _, failed⟩
    · rcases land index place leads with ⟨target, inside, same⟩
      exact absurd same (ne_firstByte beside target inside)
    · exact ⟨_, _, failed⟩

/-- Code with a jump forward and a jump back. -/
def backAndForth : Code where
  instrs :=
    [.slot .loadArg 0, .jump .ifFalse 4, .constI64 7, .jump .always 0, .plain .ret]

/-- The format at code that jumps in both directions, and at a jump to the end of the code. -/
theorem decode_bijective_backAndForth :
    decode backAndForth.encode = .ok backAndForth ∧
    (∃ stored, backAndForth.encode = stored.flatMap Instruction.codec.encode ∧
      LandsInside stored) ∧
    (∀ code, decode backAndForth.encode = .ok code → code.encode = backAndForth.encode) ∧
    ∃ offset target, decode ([.jump .always 0].flatMap Instruction.codec.encode) =
      .error (.invalidBranchTarget offset target) := by
  rcases decode_bijective with ⟨back, forth, accepted, rejected⟩
  have inside : backAndForth.TargetsInside := by
    simp [TargetsInside, backAndForth, Instruction.target?, size]
  have read := forth backAndForth inside (by decide)
  exact ⟨read, (accepted _).mp ⟨_, read⟩, back _, rejected _ 0 5 (by decide) (.inl (by decide))⟩

end Code

end NativeWeave
