import NativeWeave.Proofs.Marshalling.Emission

namespace NativeWeave

/-!
# References that last

A token that a step hands out means the same member in all tables that contain those which the step
leaves, as long as tokens can name every member of them.  So what a step gives is described by a
condition on it and on later tables.
-/

/-- A token can name every member of the tables. -/
def Tables.Indexed (tables : Tables) : Prop :=
  tables.members.length ≤ 2 ^ 32

theorem Tables.Indexed.of_grows {before after : Tables} (indexed : after.Indexed)
    (grows : before.Grows after) : before.Indexed :=
  Nat.le_trans grows.members.length_le indexed

/-- The index of an item is where it stands, as long as the list is not too long. -/
theorem getElem?_intern {α : Type} [DecidableEq α] {items : List α} {item : α}
    (short : (intern items item).2.length ≤ 2 ^ 32) :
    (intern items item).2[(intern items item).1.toNat]? = some item := by
  unfold intern at short ⊢
  cases found : items.idxOf? item with
  | some index =>
    simp only [found] at short ⊢
    rcases List.idxOf?_eq_some_iff.mp found with ⟨inside, same, _⟩
    rw [UInt32.toNat_ofNat_of_lt' (Nat.lt_of_lt_of_le inside short), List.getElem?_eq_getElem inside]
    exact congrArg some same
  | none =>
    simp only [found, List.length_append, List.length_singleton] at short ⊢
    rw [UInt32.toNat_ofNat_of_lt' short]
    exact List.getElem?_concat_length

/-- What is handed out as an index is inside the list in any case. -/
theorem toNat_intern_lt {α : Type} [DecidableEq α] (items : List α) (item : α) :
    (intern items item).1.toNat < (intern items item).2.length := by
  have within : ∀ index, (UInt32.ofNat index).toNat ≤ index := fun index => by
    rw [UInt32.toNat_ofNat']
    exact Nat.mod_le _ _
  unfold intern
  split
  · next index found =>
    exact Nat.lt_of_le_of_lt (within index) (List.idxOf?_eq_some_iff.mp found).1
  · rw [List.length_append, List.length_singleton]
    exact Nat.lt_succ_of_le (within _)

theorem exists_of_mem_forall₂ {α β : Type} {related : α → β → Prop} {items : List α}
    {results : List β} (all : List.Forall₂ related items results) :
    (∀ item ∈ items, ∃ result ∈ results, related item result) ∧
      ∀ result ∈ results, ∃ item ∈ items, related item result := by
  induction all with
  | nil => exact ⟨List.forall_mem_nil _, List.forall_mem_nil _⟩
  | cons holds _ ih =>
    constructor
    · refine List.forall_mem_cons.mpr ⟨⟨_, List.mem_cons_self, holds⟩, fun item member => ?_⟩
      rcases ih.1 item member with ⟨result, inside, also⟩
      exact ⟨result, List.mem_cons_of_mem _ inside, also⟩
    · refine List.forall_mem_cons.mpr ⟨⟨_, List.mem_cons_self, holds⟩, fun result member => ?_⟩
      rcases ih.2 result member with ⟨item, inside, also⟩
      exact ⟨item, List.mem_cons_of_mem _ inside, also⟩

namespace Emit

variable {α β : Type} {condition : Tables → α → Prop} {final : Tables → β → Prop}

/-- What the step gives satisfies a condition in all tables that contain those it leaves. -/
def Leaves (step : Emit α) (condition : Tables → α → Prop) : Prop :=
  ∀ before after value, step before = .ok (value, after) →
    ∀ tables, after.Grows tables → tables.Indexed → condition tables value

theorem Leaves.pure {value : α} (holds : ∀ tables, condition tables value) :
    Leaves (Pure.pure value) condition := by
  intro before after result run tables _ _
  cases run
  exact holds tables

theorem Leaves.bind {first : Emit α} {next : α → Emit β} [later : ∀ value, (next value).Grows]
    (start : first.Leaves condition)
    (finish : ∀ value, (next value).Leaves fun tables result =>
      condition tables value → final tables result) : (first >>= next).Leaves final := by
  intro before after result run tables grows indexed
  rcases exists_of_bind run with ⟨value, middle, begun, ended⟩
  have within := (Grows.grows ended).trans grows
  exact finish value _ _ _ ended tables grows indexed (start _ _ _ begun tables within indexed)

theorem Leaves.after {first : Emit α} {next : α → Emit β}
    (finish : ∀ value, (next value).Leaves final) : (first >>= next).Leaves final := by
  intro before after result run
  rcases exists_of_bind run with ⟨value, middle, _, ended⟩
  exact finish value _ _ _ ended

theorem Leaves.lift {step : Weave α} (holds : ∀ {value}, step = .ok value →
    ∀ tables, condition tables value) : Leaves (liftM step) condition := by
  intro before after value run tables _ _
  exact holds (eq_of_lift run).1 tables

theorem Leaves.mono {step : Emit α} {other : Tables → α → Prop} (leaves : step.Leaves condition)
    (weaker : ∀ tables value, condition tables value → other tables value) :
    step.Leaves other :=
  fun before after value run tables grows indexed =>
    weaker _ _ (leaves before after value run tables grows indexed)

theorem Leaves.forall₂ {items : List α} {step : α → Emit β} [∀ item, (step item).Grows]
    {related : α → Tables → β → Prop} (each : ∀ item ∈ items, (step item).Leaves (related item)) :
    (items.mapM step).Leaves fun tables =>
      List.Forall₂ (fun item result => related item tables result) items := by
  induction items with
  | nil =>
    rw [List.mapM_nil]
    exact .pure fun _ => .nil
  | cons item more ih =>
    rw [List.forall_mem_cons] at each
    rw [List.mapM_cons]
    exact .bind each.1 fun first => .bind (ih each.2) fun others =>
      .pure fun tables hold holds => .cons holds hold

/-- A condition on results that holds whatever the tables are, once something else holds of those at
the end. -/
theorem Leaves.given {step : Emit α} {earlier : Tables → Prop} {condition : Tables → α → Prop}
    (yields : ∀ tables, earlier tables → step.Yields (condition tables)) :
    step.Leaves fun tables value => earlier tables → condition tables value :=
  fun before after value run tables _ _ holds => yields tables holds before after value run

theorem Leaves.ofYields {step : Emit α} {condition : Tables → α → Prop}
    (yields : ∀ tables, step.Yields (condition tables)) : step.Leaves condition :=
  fun before after value run tables _ _ => yields tables before after value run

theorem Leaves.and {step : Emit α} {one other : Tables → α → Prop} (first : step.Leaves one)
    (second : step.Leaves other) :
    step.Leaves fun tables value => one tables value ∧ other tables value :=
  fun before after value run tables grows indexed =>
    ⟨first before after value run tables grows indexed,
      second before after value run tables grows indexed⟩

theorem Leaves.mapM {items : List α} {step : α → Emit β} [∀ item, (step item).Grows]
    {condition : Tables → β → Prop} (each : ∀ item ∈ items, (step item).Leaves condition) :
    (items.mapM step).Leaves fun tables results => ∀ result ∈ results, condition tables result := by
  refine (Leaves.forall₂ each).mono fun tables results all result member => ?_
  rcases (exists_of_mem_forall₂ all).2 result member with ⟨_, _, holds⟩
  exact holds

/-- The token of a member goes on meaning the member. -/
theorem leaves_member (reference : MemberRef) :
    (member reference).Leaves fun tables token => tables.member? token = some reference := by
  intro before after token run tables grows indexed
  cases run
  have within := indexed.of_grows grows
  exact getElem?_of_prefix grows.members (getElem?_intern within)

/-- Code that calls a member has a token of it. -/
theorem leaves_callOf (reference : MemberRef) : (call reference).Leaves fun tables code =>
    ∃ token, code = [.call token] ∧ tables.member? token = some reference :=
  .bind (leaves_member reference) fun token => .pure fun _ means => ⟨token, rfl, means⟩

/-- The index of a text or a type is inside its table, however long that is. -/
theorem leaves_string (text : String) :
    (string text).Leaves fun tables index => index.toNat < tables.strings.length := by
  intro before after index run tables grows _
  cases run
  exact Nat.lt_of_lt_of_le (toNat_intern_lt _ _) grows.strings.length_le

/-- The index of a text goes on meaning the text. -/
theorem leaves_text (text : String) : (loadString text).Leaves fun tables fragment =>
    ∃ index, fragment = [.constString index] ∧
      (tables.strings.length ≤ 2 ^ 32 → tables.string? index = some text) := by
  have interned : (string text).Leaves fun tables index =>
      tables.strings.length ≤ 2 ^ 32 → tables.string? index = some text := by
    intro before after index run tables grows _ short
    cases run
    have within := Nat.le_trans grows.strings.length_le short
    exact getElem?_of_prefix grows.strings (getElem?_intern within)
  exact .bind interned fun index => .pure fun tables means => ⟨index, rfl, means⟩

theorem leaves_type (signature : Signature) :
    (type signature).Leaves fun tables token => token.toNat < tables.types.length := by
  intro before after token run tables grows _
  cases run
  exact Nat.lt_of_lt_of_le (toNat_intern_lt _ _) grows.types.length_le

end Emit

end NativeWeave
