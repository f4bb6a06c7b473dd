namespace NativeWeave

/-!
# Bounding walks that never return

A walk through finitely many places that never enters a place twice comes to an end: with every step
there is one place less that it has not visited.
-/

/-- How many of the places have not been visited. -/
def unvisited {α : Type} [DecidableEq α] (places visited : List α) : Nat :=
  places.countP fun place => !visited.contains place

section

variable {α : Type} [DecidableEq α] {places visited : List α} {place : α}

theorem unvisited_nil : unvisited places [] = places.length :=
  List.countP_eq_length.mpr fun _ _ => rfl

theorem unvisited_cons_le : unvisited places (place :: visited) ≤ unvisited places visited := by
  refine List.countP_mono_left fun other _ unseen => ?_
  simp_all

theorem unvisited_cons_lt (fresh : place ∉ visited) (member : place ∈ places) :
    unvisited places (place :: visited) < unvisited places visited := by
  induction places with
  | nil => cases member
  | cons first rest hypothesis =>
    have monotone : ∀ others : List α, unvisited others (place :: visited) ≤ unvisited others visited :=
      fun others => unvisited_cons_le
    unfold unvisited at *
    rw [List.countP_cons, List.countP_cons]
    rcases List.mem_cons.mp member with rfl | later
    · simpa [fresh] using Nat.lt_succ_of_le (monotone rest)
    · have smaller := hypothesis later
      have step := monotone [first]
      simp only [List.countP_cons, List.countP_nil, Nat.zero_add] at step
      omega

end

end NativeWeave
