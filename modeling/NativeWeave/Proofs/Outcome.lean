import NativeWeave.WeaveError

namespace NativeWeave

/-!
# Computations that can fail

A sequence of steps gives a result exactly if every step does.  These are the equations by which
proofs about such computations take them apart.
-/

variable {Cause Other α β γ : Type}

theorem ok_bind (value : α) (next : α → Except Cause β) :
    (Except.ok value >>= next) = next value :=
  rfl

theorem error_bind (cause : Cause) (next : α → Except Cause β) :
    (Except.error cause >>= next) = .error cause :=
  rfl

theorem bind_eq_ok_iff {first : Except Cause α} {next : α → Except Cause β} {result : β} :
    (first >>= next) = .ok result ↔ ∃ value, first = .ok value ∧ next value = .ok result := by
  cases first with
  | error cause =>
    rw [error_bind]
    constructor
    · intro impossible
      cases impossible
    · rintro ⟨_, impossible, _⟩
      cases impossible
  | ok value =>
    rw [ok_bind]
    constructor
    · intro final
      exact ⟨value, rfl, final⟩
    · rintro ⟨_, ⟨rfl⟩, final⟩
      exact final

/-- A result does not depend on what causes of failure are turned into. -/
theorem eq_ok_of_mapError {outcome : Except Cause α} {f : Cause → Other} {value : α}
    (passed : outcome.mapError f = .ok value) : outcome = .ok value := by
  cases outcome with
  | error cause => cases passed
  | ok found =>
    cases passed
    rfl

theorem eq_ok_of_toOption {outcome : Except Cause α} {value : α}
    (present : outcome.toOption = some value) : outcome = .ok value := by
  cases outcome with
  | error cause => cases present
  | ok found =>
    cases present
    rfl

theorem Weave.ofOption_eq_ok {value : Option α} {reason : String} {found : α}
    (present : Weave.ofOption value reason = .ok found) : value = some found := by
  cases value with
  | none => cases present
  | some other =>
    cases present
    rfl

/-- Steps that all pass give their results in order. -/
theorem exists_of_mem_mapM {items : List α} {step : α → Except Cause β} {results : List β}
    (run : items.mapM step = .ok results) {result : β} (member : result ∈ results) :
    ∃ item ∈ items, step item = .ok result := by
  induction items generalizing results with
  | nil =>
    rw [List.mapM_nil] at run
    cases run
    cases member
  | cons item more ih =>
    rw [List.mapM_cons] at run
    rcases bind_eq_ok_iff.mp run with ⟨first, head, tail⟩
    rcases bind_eq_ok_iff.mp tail with ⟨others, rest, final⟩
    cases final
    rcases List.mem_cons.mp member with rfl | later
    · exact ⟨item, List.mem_cons_self, head⟩
    · rcases ih rest later with ⟨source, inside, same⟩
      exact ⟨source, List.mem_cons_of_mem item inside, same⟩

/-- A run of one step for many items, taken apart at one of them. -/
theorem exists_of_mapM_append {step : α → Except Cause β} {front back : List α} {item : α}
    {results : List β} (run : (front ++ item :: back).mapM step = .ok results) :
    ∃ early result late, front.mapM step = .ok early ∧ step item = .ok result ∧
      back.mapM step = .ok late ∧ results = early ++ result :: late := by
  rw [List.mapM_append, List.mapM_cons] at run
  rcases bind_eq_ok_iff.mp run with ⟨early, ahead, run⟩
  rcases bind_eq_ok_iff.mp run with ⟨rest, others, final⟩
  rcases bind_eq_ok_iff.mp others with ⟨result, own, others⟩
  rcases bind_eq_ok_iff.mp others with ⟨late, behind, whole⟩
  cases whole
  cases final
  exact ⟨early, result, late, ahead, own, behind, rfl⟩

theorem exists_mapM {items : List α} {step : α → Except Cause β}
    (each : ∀ item ∈ items, ∃ result, step item = .ok result) :
    ∃ results, items.mapM step = .ok results := by
  induction items with
  | nil => exact ⟨[], List.mapM_nil⟩
  | cons item more ih =>
    rw [List.forall_mem_cons] at each
    rcases each.1 with ⟨first, head⟩
    rcases ih each.2 with ⟨others, rest⟩
    rw [List.mapM_cons, head, ok_bind, rest, ok_bind]
    exact ⟨first :: others, rfl⟩

theorem mapM_eq_ok_map {items : List α} {step : α → Except Cause β} {result : α → β}
    (each : ∀ item ∈ items, step item = .ok (result item)) :
    items.mapM step = .ok (items.map result) := by
  induction items with
  | nil => exact List.mapM_nil
  | cons item more ih =>
    rw [List.forall_mem_cons] at each
    rw [List.mapM_cons, each.1, ok_bind, ih each.2, ok_bind]
    rfl

/-- Another step with the same results gives the same results for many items. -/
theorem mapM_eq_ok_of_imp {items : List α} {step other : α → Except Cause β} {results : List β}
    (each : ∀ item ∈ items, ∀ result, step item = .ok result → other item = .ok result)
    (run : items.mapM step = .ok results) : items.mapM other = .ok results := by
  induction items generalizing results with
  | nil => exact run
  | cons item more ih =>
    rw [List.forall_mem_cons] at each
    rw [List.mapM_cons] at run ⊢
    rcases bind_eq_ok_iff.mp run with ⟨first, head, tail⟩
    rcases bind_eq_ok_iff.mp tail with ⟨others, rest, final⟩
    rw [each.1 first head, ok_bind, ih each.2 rest]
    exact final

/-- Two steps that give the same results for many items give the same for each of them. -/
theorem exists_common_of_mapM {items : List α} {step other : α → Except Cause β} {results : List β}
    (run : items.mapM step = .ok results) (same : items.mapM other = .ok results) :
    ∀ item ∈ items, ∃ result, step item = .ok result ∧ other item = .ok result := by
  induction items generalizing results with
  | nil => exact List.forall_mem_nil _
  | cons item more ih =>
    rw [List.mapM_cons] at run same
    rcases bind_eq_ok_iff.mp run with ⟨first, head, run⟩
    rcases bind_eq_ok_iff.mp run with ⟨others, rest, final⟩
    rcases bind_eq_ok_iff.mp same with ⟨second, front, same⟩
    rcases bind_eq_ok_iff.mp same with ⟨more, behind, whole⟩
    cases final
    cases whole
    exact List.forall_mem_cons.mpr ⟨⟨first, head, front⟩, ih rest behind⟩

/-- When a check of many items passes, it passes for each of them. -/
theorem eq_ok_of_forM {items : List α} {step : α → Except Cause Unit}
    (passed : items.forM step = .ok ()) : ∀ item ∈ items, step item = .ok () := by
  induction items with
  | nil => exact List.forall_mem_nil _
  | cons item more ih =>
    change (step item >>= fun _ => more.forM step) = .ok () at passed
    rcases bind_eq_ok_iff.mp passed with ⟨_, head, tail⟩
    exact List.forall_mem_cons.mpr ⟨head, ih tail⟩

/-- A check of many items passes when it passes for each of them. -/
theorem forM_eq_ok {items : List α} {step : α → Except Cause Unit}
    (each : ∀ item ∈ items, step item = .ok ()) : items.forM step = .ok () := by
  induction items with
  | nil => rfl
  | cons item more ih =>
    rw [List.forall_mem_cons] at each
    change (step item >>= fun _ => more.forM step) = .ok ()
    rw [each.1, ok_bind, ih each.2]

/-- A run passes when every step passes where it stands.  `holds` is known of the items behind a step
and the state that it leaves. -/
theorem exists_foldlM {items : List α} {step : β → α → Except Cause β} {start : β}
    (holds : List α → β → Prop) (initial : holds [] start)
    (each : ∀ front item back state, items = front ++ item :: back → holds front state →
      ∃ next, step state item = .ok next ∧ holds (front ++ [item]) next) :
    ∃ final, items.foldlM step start = .ok final ∧ holds items final := by
  suffices run : ∀ front back state, items = front ++ back → holds front state →
      ∃ final, back.foldlM step state = .ok final ∧ holds items final from
    run [] items start rfl initial
  intro front back
  induction back generalizing front with
  | nil =>
    rintro state rfl held
    exact ⟨state, rfl, (List.append_nil front).symm ▸ held⟩
  | cons item more ih =>
    intro state split held
    rcases each front item more state split held with ⟨next, passed, kept⟩
    rw [List.foldlM_cons, passed, ok_bind]
    exact ih (front ++ [item]) next (by rw [split, List.append_assoc, List.singleton_append]) kept

/-- A run that fails does so at one of its steps. -/
theorem exists_of_foldlM_eq_error {items : List α} {step : β → α → Except Cause β} {start : β}
    {cause : Cause} (failed : items.foldlM step start = .error cause) :
    ∃ item ∈ items, ∃ state, step state item = .error cause := by
  induction items generalizing start with
  | nil => cases failed
  | cons item more ih =>
    rw [List.foldlM_cons] at failed
    cases first : step start item with
    | error other =>
      rw [first, error_bind] at failed
      exact ⟨item, List.mem_cons_self, start, first.trans failed⟩
    | ok next =>
      rw [first, ok_bind] at failed
      rcases ih failed with ⟨other, inside, stopped⟩
      exact ⟨other, List.mem_cons_of_mem item inside, stopped⟩

/-- What every step keeps holds at the end of a run if it holds at the start. -/
theorem foldlM_induction {items : List α} {step : β → α → Except Cause β} {start final : β}
    (holds : β → Prop) (initial : holds start)
    (kept : ∀ state item next, item ∈ items → holds state → step state item = .ok next →
      holds next)
    (run : items.foldlM step start = .ok final) : holds final := by
  induction items generalizing start with
  | nil =>
    rw [List.foldlM_nil] at run
    cases run
    exact initial
  | cons item more ih =>
    rw [List.foldlM_cons] at run
    rcases bind_eq_ok_iff.mp run with ⟨middle, first, rest⟩
    refine ih (kept start item middle List.mem_cons_self initial first) ?_ rest
    intro state other next member
    exact kept state other next (List.mem_cons_of_mem item member)

/-- A run as seen through a view of its states, where each step is seen as a step of another kind. -/
theorem foldlM_view {items : List α} {step : β → α → Except Cause β} {start final : β} {view : β → γ}
    {seen : γ → α → Except Cause γ} (holds : β → Prop) (initial : holds start)
    (each : ∀ state item next, holds state → step state item = .ok next →
      holds next ∧ seen (view state) item = .ok (view next))
    (run : items.foldlM step start = .ok final) :
    holds final ∧ items.foldlM seen (view start) = .ok (view final) := by
  induction items generalizing start with
  | nil =>
    cases run
    exact ⟨initial, rfl⟩
  | cons item more ih =>
    rw [List.foldlM_cons] at run
    rcases bind_eq_ok_iff.mp run with ⟨middle, first, rest⟩
    rcases each start item middle initial first with ⟨still, passed⟩
    rw [List.foldlM_cons, passed, ok_bind]
    exact ih still rest

/-- What a step achieves for its item, and later steps do not undo, is achieved for all items at the
end of a run. -/
theorem foldlM_achieves {items : List α} {step : β → α → Except Cause β} {start final : β}
    (holds : β → Prop) (done : α → β → Prop) (initial : holds start)
    (kept : ∀ state item next, item ∈ items → holds state → step state item = .ok next →
      holds next ∧ done item next ∧ ∀ other, done other state → done other next)
    (run : items.foldlM step start = .ok final) :
    holds final ∧ (∀ item ∈ items, done item final) ∧
      ∀ other, done other start → done other final := by
  induction items generalizing start with
  | nil =>
    rw [List.foldlM_nil] at run
    cases run
    exact ⟨initial, List.forall_mem_nil _, fun _ => id⟩
  | cons item more ih =>
    rw [List.foldlM_cons] at run
    rcases bind_eq_ok_iff.mp run with ⟨middle, first, rest⟩
    rcases kept start item middle List.mem_cons_self initial first with ⟨still, achieved, others⟩
    have later := ih still (fun state other next member =>
      kept state other next (List.mem_cons_of_mem item member)) rest
    rcases later with ⟨finished, all, persist⟩
    exact ⟨finished, List.forall_mem_cons.mpr ⟨persist item achieved, all⟩,
      fun other earlier => persist other (others other earlier)⟩

end NativeWeave
