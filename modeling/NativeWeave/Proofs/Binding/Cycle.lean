import Mathlib
import NativeWeave.Proofs.Binding.Acyclic

namespace NativeWeave

/-!
# What is reported as a cycle is one

Where there is no order, the way along which the search came back to a name is reported.  A visit of
structs reports the part of its path from that name on, which leads from the name back to itself.  A
walk up a chain of base classes reports all of the chain: it ends with such a way, in front of which
stand the classes that lead there and are not on it.
-/

open Relation

/-! ## Ways that lead back -/

/-- Each name leads to the next, and the last one is the first again. -/
structure ClosedWalk (leads : QualifiedName → QualifiedName → Prop) (walk : List QualifiedName) :
    Prop where
  long : 2 ≤ walk.length
  closed : walk.head? = walk.getLast?
  steps : walk.IsChain leads

section Walks

variable {leads : QualifiedName → QualifiedName → Prop} {front back names : List QualifiedName}
  {name last : QualifiedName}

/-- A way that comes back to a name is closed from that name on. -/
theorem closedWalk_of_isChain (steps : (front ++ name :: back ++ [name]).IsChain leads) :
    ClosedWalk leads (name :: back ++ [name]) where
  long := by
    rw [List.length_append, List.length_cons, List.length_singleton]
    omega
  closed := by
    rw [List.getLast?_concat]
    rfl
  steps := by
    rw [List.append_assoc] at steps
    exact steps.right_of_append

/-- All but the last of the names lead to one behind them. -/
theorem exists_step_of_isChain (steps : (names ++ [last]).IsChain leads) (inside : name ∈ names) :
    ∃ next ∈ names ++ [last], leads name next := by
  rcases List.append_of_mem inside with ⟨early, late, rfl⟩
  rw [List.append_assoc, List.cons_append] at steps
  have here := steps.right_of_append
  cases late with
  | nil =>
    refine ⟨last, List.mem_append_right _ (List.mem_singleton_self last), ?_⟩
    exact (List.isChain_cons_cons.mp here).1
  | cons next more =>
    refine ⟨next, List.mem_append_left _ (List.mem_append_right _ ?_),
      (List.isChain_cons_cons.mp here).1⟩
    exact List.mem_cons_of_mem _ List.mem_cons_self

/-- A name in front of the way that is closed leads into it, and never back to itself, if every name
leads to one name only. -/
theorem not_transGen_of_isChain
    (single : ∀ name one other, leads name one → leads name other → one = other)
    (steps : (front ++ name :: back ++ [name]).IsChain leads)
    (distinct : (front ++ name :: back).Nodup) {start : QualifiedName} (early : start ∈ front) :
    ¬ TransGen leads start start := by
  rcases List.append_of_mem early with ⟨before, behind, rfl⟩
  rw [List.append_assoc, List.cons_append] at distinct
  have whole : (before ++ start :: (behind ++ name :: back ++ [name])).IsChain leads := by
    simpa only [List.append_assoc, List.cons_append] using steps
  have fresh := (List.nodup_cons.mp distinct.of_append_right).1
  have chain := List.isChain_cons.mp whole.right_of_append
  -- The last name is one that was there before, so that no step leads out of those behind the start.
  have inside : ∀ place ∈ behind ++ name :: back ++ [name], place ∈ behind ++ name :: back := by
    refine List.forall_mem_append.mpr ⟨fun _ => id, List.forall_mem_singleton.mpr ?_⟩
    exact List.mem_append_right _ List.mem_cons_self
  have stays : ∀ place, TransGen leads start place → place ∈ behind ++ name :: back := by
    intro place reaches
    induction reaches with
    | single step =>
      rcases List.exists_cons_of_ne_nil (List.append_ne_nil_of_right_ne_nil
        (behind ++ name :: back) (List.cons_ne_nil name [])) with ⟨next, more, split⟩
      rw [single _ _ _ step (chain.1 next (by rw [split]; rfl))]
      exact inside next (split ▸ List.mem_cons_self)
    | tail _ step ih =>
      rcases exists_step_of_isChain chain.2 ih with ⟨next, listed, own⟩
      rw [single _ _ _ step own]
      exact inside next listed
  exact fun back => fresh (stays start back)

end Walks

namespace Bindings

variable {bindings : Bindings} {error : WeaveError}

/-! ## Structs -/

/-- The error reports names of which each has the next one as a part, the last one being the first. -/
def ReportsEmbedding (bindings : Bindings) (error : WeaveError) : Prop :=
  ∃ walk : List QualifiedName,
    error = .dependencyCycle (walk.map (·.full)) ∧ ClosedWalk bindings.Embeds walk

/-- The names on a path that comes back to one of them are a closed way from there on. -/
theorem exists_cycleFrom {path : List QualifiedName} {name : QualifiedName} (onPath : name ∈ path)
    (steps : (name :: path).IsChain fun inner outer => bindings.Embeds outer inner) :
    bindings.ReportsEmbedding (.dependencyCycle (cycleFrom path name)) := by
  rw [← List.isChain_reverse, List.reverse_cons] at steps
  have split := List.takeWhile_append_dropWhile (p := (· != name)) (l := path.reverse)
  cases found : path.reverse.dropWhile (· != name) with
  | nil =>
    have others := List.dropWhile_eq_nil_iff.mp found name (List.mem_reverse.mpr onPath)
    simp at others
  | cons first rest =>
    have same : first = name := by
      have stops := List.head?_dropWhile_not (· != name) path.reverse
      rw [found] at stops
      simpa using stops
    subst same
    rw [found] at split
    rw [← split] at steps
    refine ⟨first :: rest ++ [first], ?_, closedWalk_of_isChain steps⟩
    rw [cycleFrom, found]

/-- A visit that fails reports a closed way.  The structs on the path embed one another, down to the
one that is visited. -/
theorem reportsEmbedding_of_visits (distinct : (bindings.structs.map (·.name)).Nodup) :
    (∀ path order name,
      (name :: path).IsChain (fun inner outer => bindings.Embeds outer inner) →
        ∀ error, bindings.visit path order name = .error error →
          bindings.ReportsEmbedding error) ∧
    ∀ path order names,
      (∀ name ∈ names, (name :: path).IsChain fun inner outer => bindings.Embeds outer inner) →
        ∀ error, bindings.visitAll path order names = .error error →
          bindings.ReportsEmbedding error := by
  refine visit.mutual_induct bindings _ _ ?cyclic ?listed ?unknown ?parts ?done ?more
  case cyclic =>
    intro path order name onPath steps error failed
    rw [visit, dif_pos onPath] at failed
    cases failed
    exact exists_cycleFrom onPath steps
  case listed =>
    intro path order name fresh inside _ error failed
    rw [visit, dif_neg fresh, if_pos inside] at failed
    cases failed
  case unknown =>
    intro path order name fresh absent missing _ error failed
    rw [visit, dif_neg fresh, if_neg absent] at failed
    split at failed
    · cases failed
    · next other found =>
      cases missing.symm.trans found
  case parts =>
    intro path order name fresh absent binding layout ih steps error failed
    rw [visit, dif_neg fresh, if_neg absent] at failed
    split at failed
    · cases failed
    · next other found =>
      cases layout.symm.trans found
      refine ih (fun part inside => List.isChain_cons_cons.mpr ⟨?_, steps⟩) error ?_
      · exact ⟨binding, layout?_eq_findStruct? distinct name ▸ layout, mem_embedded_iff.mp inside⟩
      · cases visited : bindings.visitAll (name :: path) order (bindings.embedded binding) with
        | error other =>
          rw [visited] at failed
          cases failed
          rfl
        | ok earlier =>
          rw [visited] at failed
          cases failed
  case done =>
    intro path order _ error failed
    rw [visitAll] at failed
    cases failed
  case more =>
    intro path order name more first rest steps error failed
    rw [List.forall_mem_cons] at steps
    rw [visitAll] at failed
    cases visited : bindings.visit path order name with
    | error other =>
      rw [visited] at failed
      cases failed
      exact first steps.1 _ visited
    | ok middle =>
      rw [visited] at failed
      exact rest middle steps.2 error failed

/-! ## Classes -/

/-- The error reports names of which each has the next one as its base class.  They end with a closed
way, and those in front of it never come back to themselves. -/
def ReportsInheritance (bindings : Bindings) (error : WeaveError) : Prop :=
  ∃ front walk : List QualifiedName, error = .dependencyCycle ((front ++ walk).map (·.full)) ∧
    (front ++ walk).IsChain bindings.Derives ∧ ClosedWalk bindings.Derives walk ∧
    ∀ name ∈ front, ¬ TransGen bindings.Derives name name

theorem Derives.unique {name one other : QualifiedName} (first : bindings.Derives name one)
    (second : bindings.Derives name other) : one = other := by
  rcases first with ⟨binding, found, base, _⟩
  rcases second with ⟨_, again, base', _⟩
  cases found.symm.trans again
  exact Option.some.inj (base.symm.trans base')

/-- A walk that fails reports the chain that it went up and the base that is on it already. -/
theorem reportsInheritance_of_ancestors (order chain : List QualifiedName)
    (base : Option QualifiedName)
    (steps : ∀ next ∈ base, (bindings.findClass? next).isSome = true →
      (next :: chain).IsChain fun above below => bindings.Derives below above)
    (distinct : chain.Nodup) (failed : bindings.ancestors order chain base = .error error) :
    bindings.ReportsInheritance error := by
  fun_induction bindings.ancestors order chain base with
  | case1 => cases failed
  | case2 => cases failed
  | case3 => cases failed
  | case4 chain base _ binding declared onChain =>
    cases failed
    have way := steps base rfl (Option.isSome_of_eq_some declared)
    rw [← List.isChain_reverse, List.reverse_cons] at way
    rcases List.append_of_mem (List.mem_reverse.mpr onChain) with ⟨front, back, split⟩
    have apart := List.nodup_reverse.mpr distinct
    rw [split] at way apart
    have whole : chain.reverse ++ [base] = front ++ (base :: back ++ [base]) := by
      rw [split, List.append_assoc]
    refine ⟨front, base :: back ++ [base], by rw [whole], ?_, closedWalk_of_isChain way, ?_⟩
    · rw [← List.append_assoc]
      exact way
    · have single : ∀ name one other, bindings.Derives name one → bindings.Derives name other →
          one = other := fun _ _ _ => Derives.unique
      exact fun name => not_transGen_of_isChain single way apart
  | case5 chain base _ binding declared fresh ih =>
    refine ih (fun next above bound => List.isChain_cons_cons.mpr ⟨?_, ?_⟩)
      (List.nodup_cons.mpr ⟨fresh, distinct⟩) failed
    · exact ⟨binding, declared, above, bound⟩
    · exact steps base rfl (Option.isSome_of_eq_some declared)

theorem reportsInheritance_of_appendClass {order : List QualifiedName} {binding : ClassBinding}
    (found : bindings.findClass? binding.name = some binding)
    (failed : bindings.appendClass order binding = .error error) :
    bindings.ReportsInheritance error := by
  unfold appendClass at failed
  split at failed
  · cases failed
  · cases reached : bindings.ancestors order [binding.name] binding.base with
    | error other =>
      rw [reached] at failed
      cases failed
      refine reportsInheritance_of_ancestors order _ binding.base (fun next above bound => ?_)
        (List.nodup_singleton _) reached
      exact List.isChain_pair.mpr ⟨binding, found, above, bound⟩
    | ok chain =>
      rw [reached] at failed
      cases failed

/-- What is reported where there is no order is genuine.  Of structs it is a way on which each embeds
the next and that ends where it begins.  Of classes it is a way on which each derives from the next; it
ends with a way that is closed, and what stands in front of that are classes which are on no such way,
so that it is closed as a whole if the first class derives from itself. -/
theorem cycle_of_order_error (distinct : bindings.Distinct) :
    (∀ path, bindings.structOrder = .error (.dependencyCycle path) →
      ∃ walk, path = walk.map (·.full) ∧ ClosedWalk bindings.Embeds walk) ∧
    ∀ path, bindings.classOrder = .error (.dependencyCycle path) →
      ∃ front walk, path = (front ++ walk).map (·.full) ∧
        (front ++ walk).IsChain bindings.Derives ∧ ClosedWalk bindings.Derives walk ∧
        ∀ name ∈ front, ¬ TransGen bindings.Derives name name := by
  constructor
  · intro path failed
    have single : ∀ name ∈ bindings.structs.map (·.name),
        [name].IsChain fun inner outer => bindings.Embeds outer inner := fun _ _ =>
      List.isChain_singleton _
    rcases (reportsEmbedding_of_visits distinct.structs).2 [] [] _ single _ failed with
      ⟨walk, same, closed⟩
    cases same
    exact ⟨walk, rfl, closed⟩
  · intro path failed
    rcases exists_of_foldlM_eq_error failed with ⟨binding, listed, order, stopped⟩
    rcases reportsInheritance_of_appendClass (distinct.findClass?_eq listed) stopped with
      ⟨front, walk, same, rest⟩
    cases same
    exact ⟨front, walk, rfl, rest⟩

end Bindings

namespace Tangle

open Sketch (game member inPlace)

/-- A struct with another one in place. -/
def struct (name part : String) (place : Nat) : StructBinding where
  name := game name
  nativeName := name
  type := place
  members := [member part (inPlace part)]

def derived (name base : String) (place : Nat) : ClassBinding where
  name := game name
  nativeName := name
  type := place
  base := some (game base)

/-- A shape leads to lines and points, which have each other as parts, and a hero is a pawn; pawns and
actors derive from each other. -/
def bindings : Bindings := [
  .ofStruct (struct "Shape" "Line" 0), .ofStruct (struct "Line" "Point" 1),
  .ofStruct (struct "Point" "Line" 2), .ofClass (derived "Hero" "Pawn" 3),
  .ofClass (derived "Pawn" "Actor" 4), .ofClass (derived "Actor" "Pawn" 5)]

theorem distinct_bindings : bindings.Distinct := by
  unfold Bindings.Distinct
  decide

theorem structOrder_bindings : bindings.structOrder =
    .error (.dependencyCycle ["Game.Line", "Game.Point", "Game.Line"]) := by
  cbv

theorem classOrder_bindings : bindings.classOrder =
    .error (.dependencyCycle ["Game.Hero", "Game.Pawn", "Game.Actor", "Game.Pawn"]) := by
  cbv

end Tangle

namespace Bindings

/-- The way of the structs is closed, and that of the classes is so behind the hero. -/
theorem cycle_of_order_error_tangle : Tangle.bindings.Distinct ∧
    (∃ walk, ["Game.Line", "Game.Point", "Game.Line"] = walk.map (·.full) ∧
      ClosedWalk Tangle.bindings.Embeds walk) ∧
    ∃ front walk,
      ["Game.Hero", "Game.Pawn", "Game.Actor", "Game.Pawn"] = (front ++ walk).map (·.full) ∧
      (front ++ walk).IsChain Tangle.bindings.Derives ∧
      ClosedWalk Tangle.bindings.Derives walk ∧
      ∀ name ∈ front, ¬ TransGen Tangle.bindings.Derives name name := by
  rcases cycle_of_order_error Tangle.distinct_bindings with ⟨embedding, inheritance⟩
  exact ⟨Tangle.distinct_bindings, embedding _ Tangle.structOrder_bindings,
    inheritance _ Tangle.classOrder_bindings⟩

/-- The way that is reported of classes need not come back to where it starts. -/
theorem not_closed_classOrder : ∃ bindings : Bindings, bindings.Distinct ∧
    ∃ path, bindings.classOrder = .error (.dependencyCycle path) ∧ path.head? ≠ path.getLast? :=
  ⟨Tangle.bindings, Tangle.distinct_bindings, _, Tangle.classOrder_bindings, by decide⟩

end Bindings

end NativeWeave
