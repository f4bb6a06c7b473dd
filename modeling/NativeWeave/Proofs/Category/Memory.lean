import NativeWeave.Category.DeclaredHash

namespace NativeWeave

/-!
# Steps that remember

A computation that remembers answers is judged by what it does to a memory that is fit: it gives a
result of some kind and leaves the memory fit.  What fit means is up to the theory of the answers.
-/

namespace Remembering

variable {α β : Type} {before after fit : Memory → Prop} {condition : α → Prop} {final : β → Prop}

/-- From a memory that satisfies `before` the step gives a result that satisfies the condition, and
a memory that satisfies `after`. -/
def Leads (before : Memory → Prop) (step : Remembering α) (condition : α → Prop)
    (after : Memory → Prop) : Prop :=
  ∀ memory, before memory → condition (step memory).1 ∧ after (step memory).2

/-- On a fit memory the step gives a result that satisfies the condition, and leaves the memory
fit. -/
abbrev Keeps (fit : Memory → Prop) (step : Remembering α) (condition : α → Prop) : Prop :=
  Leads fit step condition fit

theorem Leads.pure {value : α} (still : ∀ memory, before memory → after memory)
    (holds : condition value) : Leads before (Pure.pure value) condition after :=
  fun memory ready => ⟨holds, still memory ready⟩

theorem Leads.bind {first : Remembering α} {next : α → Remembering β}
    (start : Leads before first condition fit)
    (later : ∀ value, condition value → Leads fit (next value) final after) :
    Leads before (first >>= next) final after := by
  intro memory ready
  rcases start memory ready with ⟨holds, kept⟩
  exact later _ holds _ kept

theorem get_bind_apply {next : Memory → Remembering α} (memory : Memory) :
    (MonadState.get >>= next) memory = next memory memory :=
  rfl

theorem bind_apply_of {first : Remembering α} {next : α → Remembering β} {memory later : Memory}
    {value : α} (run : first memory = (value, later)) :
    (first >>= next) memory = next value later := by
  change next (first memory).1 (first memory).2 = next value later
  rw [run]

/-- Reading the memory gives the memory. -/
theorem Leads.get {next : Memory → Remembering α}
    (each : ∀ seen, before seen → Leads (· = seen) (next seen) condition after) :
    Leads before (MonadState.get >>= next) condition after :=
  fun memory ready => each memory ready memory rfl

theorem Leads.modify {change : Memory → Memory} {value : α}
    (still : ∀ memory, before memory → after (change memory)) (holds : condition value) :
    Leads before (do modify change; return value) condition after :=
  fun memory ready => ⟨holds, still memory ready⟩

theorem Leads.mono {earlier : Memory → Prop} {step : Remembering α} {weaker : α → Prop}
    (leads : Leads before step condition after) (start : ∀ memory, earlier memory → before memory)
    (implied : ∀ value, condition value → weaker value) : Leads earlier step weaker after :=
  fun memory ready => (leads memory (start memory ready)).imp_left (implied _)

theorem Keeps.pure {value : α} (holds : condition value) :
    Keeps fit (Pure.pure value) condition :=
  Leads.pure (fun _ => id) holds

/-- A step with a known result is as good as the result. -/
theorem Keeps.known {first : Remembering α} {next : α → Remembering β} {value : α}
    (start : Keeps fit first (· = value)) (later : Keeps fit (next value) final) :
    Keeps fit (first >>= next) final := by
  refine .bind start fun found same => ?_
  rw [same]
  exact later

/-- A result that is dropped. -/
theorem Keeps.discard {step : Remembering α} (keeps : Keeps fit step condition) :
    Keeps fit (do let _ ← step) fun _ => True :=
  .bind keeps fun _ _ => Keeps.pure trivial

/-- What is read from the memory is as fit as the memory. -/
theorem Keeps.reading {next : Memory → Remembering α}
    (each : ∀ seen, fit seen → Keeps fit (next seen) condition) :
    Keeps fit (MonadState.get >>= next) condition :=
  fun memory ready => each memory ready memory ready

theorem Keeps.mapM {items : List α} {step : α → Remembering β}
    (each : ∀ item ∈ items, Keeps fit (step item) final) :
    Keeps fit (items.mapM step) fun results => ∀ result ∈ results, final result := by
  induction items with
  | nil =>
    rw [List.mapM_nil]
    exact Keeps.pure (List.forall_mem_nil final)
  | cons item more ih =>
    rw [List.forall_mem_cons] at each
    rw [List.mapM_cons]
    refine .bind each.1 fun first holds => .bind (ih each.2) fun others hold => Keeps.pure ?_
    exact List.forall_mem_cons.mpr ⟨holds, hold⟩

end Remembering

namespace Memory

variable (memory : Memory)

theorem category?_withCategory (type other : Signature) (shape otherShape : MemberShape)
    (answer : Except Refusal Category) :
    (memory.withCategory type shape answer).category? other otherShape =
      if (type, shape) = (other, otherShape) then some answer
      else memory.category? other otherShape := by
  unfold withCategory category?
  rw [List.find?_cons]
  split <;> simp_all

theorem repr?_withRepr (name other : QualifiedName) (repr : StructRepr) :
    (memory.withRepr name repr).repr? other =
      if name = other then some repr else memory.repr? other := by
  unfold withRepr repr?
  rw [List.find?_cons]
  split <;> simp_all

theorem hash?_withHash (name other : QualifiedName) (hash : String) :
    (memory.withHash name hash).hash? other =
      if name = other then some hash else memory.hash? other := by
  unfold withHash hash?
  rw [List.find?_cons]
  split <;> simp_all

end Memory

/-! ## Hashes of declarations -/

open Remembering

/-- Classification leaves a memory fit, and hashes have no part in that. -/
structure Scope.Sustains (scope : Scope) (fit : Memory → Prop) : Prop where
  classify : ∀ type shape, Keeps fit (scope.classify type shape) fun _ => True
  withHash : ∀ memory name hash, fit memory → fit (memory.withHash name hash)

namespace Scope.Sustains

variable {scope : Scope} {fit : Memory → Prop}

mutual

theorem declaredHashWith (sustains : scope.Sustains fit) (busy : List QualifiedName)
    (name : QualifiedName) : Keeps fit (scope.declaredHashWith busy name) fun _ => True := by
  rw [Scope.declaredHashWith]
  refine .reading fun seen ready => ?_
  split
  · exact Keeps.pure trivial
  · split
    · exact Keeps.pure trivial
    · next free =>
      have finish : ∀ fields, Keeps fit (do
          modify (·.withHash name (declaredHash name.full fields))
          return declaredHash name.full fields) fun _ => True :=
        fun fields => .modify (fun memory => sustains.withHash memory _ _) trivial
      dsimp only
      split
      · next type found =>
        have fewer := unvisited_cons_lt free (mem_declared_of_resolve? found)
        exact .bind (sustains.declaredFields _ _) fun fields _ => finish fields
      · exact .bind (Keeps.pure trivial) fun fields (_ : True) => finish fields
termination_by (unvisited scope.declared busy, 0, 0)
decreasing_by exact .left _ _ fewer

theorem declaredFields (sustains : scope.Sustains fit) (busy : List QualifiedName)
    (fields : List Field) : Keeps fit (scope.declaredFields busy fields) fun _ => True := by
  cases fields with
  | nil =>
    rw [Scope.declaredFields]
    exact Keeps.pure trivial
  | cons field more =>
    rw [Scope.declaredFields]
    split
    · exact sustains.declaredFields busy more
    · next attr exposed =>
      have finish : ∀ declared, Keeps fit (do
          return declared :: (← scope.declaredFields busy more)) fun _ => True :=
        fun declared => .bind (sustains.declaredFields busy more) fun _ _ => Keeps.pure trivial
      refine .bind (sustains.classify field.type attr.shape) fun answer _ => ?_
      dsimp only
      split
      · exact finish _
      · split
        · exact finish _
        · next category part depends =>
          exact .bind (sustains.declaredHashWith busy part) fun nested _ => finish _
termination_by (unvisited scope.declared busy, 1, fields.length)

end

/-- Working out the hash of a member leaves the memory fit, too. -/
theorem hashOverride? (sustains : scope.Sustains fit) (owner : QualifiedName)
    (category : Category) : Keeps fit (scope.hashOverride? owner category) fun _ => True := by
  unfold Scope.hashOverride?
  split
  · exact Keeps.pure trivial
  · split
    · exact Keeps.pure trivial
    · split
      · exact Keeps.pure trivial
      · exact .bind (sustains.declaredHashWith [] _) fun hash _ => Keeps.pure trivial

end Scope.Sustains

end NativeWeave
