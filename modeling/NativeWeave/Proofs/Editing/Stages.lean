import Mathlib.Tactic.Common
import NativeWeave.Editing.Plan
import NativeWeave.Proofs.Outcome

namespace NativeWeave

/-!
# The stages of applying a plan

A plan is applied in three stages: methods get their new bodies, the prelude is installed in a type
with everything that is added, and methods are removed.  What each stage does is said here once.
-/

namespace TypePlan

variable {index : Nat} {plan : TypePlan} {type edited extended reduced : TypeDef}
  {prelude : Fragment}

/-! ## Code for the initializer -/

/-- The first initializer among methods stands at an index. -/
structure FirstInitializer (methods : List Method) (index : Nat) : Prop where
  here : ∃ method, methods[index]? = some method ∧ method.isTypeInitializer = true
  first : ∀ earlier < index, ∀ method, methods[earlier]? = some method →
    method.isTypeInitializer = false

/-- The initializer that is looked for is the first one. -/
theorem find?_zipIdx_eq_some {methods : List Method} {place : Nat}
    (found : methods.zipIdx.find? (·.1.isTypeInitializer) = some (method, place)) :
    methods[place]? = some method ∧ FirstInitializer methods place := by
  have here := List.mk_mem_zipIdx_iff_getElem?.mp (List.mem_of_find?_eq_some found)
  have initializes := List.find?_some found
  refine ⟨here, ⟨method, here, initializes⟩, fun earlier before other there => ?_⟩
  rcases List.find?_eq_some_iff_getElem.mp found with ⟨_, position, inside, same, none⟩
  have located : position = place := by
    rw [List.getElem_zipIdx, Nat.zero_add] at same
    exact congrArg Prod.snd same
  subst located
  have within : earlier < methods.zipIdx.length := by
    rw [List.length_zipIdx] at inside ⊢
    omega
  have missed := none earlier before
  rw [List.getElem_zipIdx] at missed
  rcases List.getElem?_eq_some_iff.mp there with ⟨_, rfl⟩
  simpa using missed

theorem isStatic_newInitializer (prelude : Fragment) : (newInitializer prelude).isStatic = true := by
  change hasFlag (Method.staticFlag ||| Method.specialNameFlag) Method.staticFlag = true
  decide

/-- What installing code makes of a type.  Without code nothing happens; otherwise the first initializer
gets the code in front of its own, or there is a new one. -/
inductive Installs (prelude : Fragment) (type : TypeDef) : TypeDef → Prop
  | idle (empty : prelude = []) : Installs prelude type type
  | added (something : prelude ≠ [])
      (missing : ∀ method ∈ type.methods, method.isTypeInitializer = false) :
      Installs prelude type (type.addMethod (newInitializer prelude))
  | extended {initializer : Method} {index : Nat} {body : Body} (something : prelude ≠ [])
      (here : type.methods[index]? = some initializer)
      (initializes : initializer.isTypeInitializer = true)
      (first : FirstInitializer type.methods index)
      (prepended : prependCode prelude (initializer.body.getD {}) = .ok body) :
      Installs prelude type
        { type with methods := type.methods.set index { initializer with body := some body } }

theorem installs_of_installPrelude (installed : installPrelude prelude type = .ok extended) :
    Installs prelude type extended := by
  unfold installPrelude at installed
  split at installed
  · next empty =>
    cases installed
    exact .idle (List.isEmpty_iff.mp empty)
  · next something =>
    rw [List.isEmpty_iff] at something
    split at installed
    · next missing =>
      cases installed
      refine .added something fun method member => ?_
      rcases List.mem_iff_getElem?.mp member with ⟨index, there⟩
      rw [← Bool.not_eq_true]
      exact List.find?_eq_none.mp missing (method, index) (List.mk_mem_zipIdx_iff_getElem?.mpr there)
    · next initializer index found =>
      rcases bind_eq_ok_iff.mp installed with ⟨body, prepended, final⟩
      cases final
      rcases find?_zipIdx_eq_some found with ⟨here, first⟩
      have initializes := List.find?_some found
      exact .extended something here initializes first prepended

/-! ## Removals -/

theorem nodup_eraseDups (indices : List Nat) : indices.eraseDups.Nodup := by
  -- The rest of the list is filtered before it is taken up, so the induction is on its length.
  generalize sized : indices.length = size
  induction size using Nat.strongRecOn generalizing indices with
  | _ size ih =>
    cases indices with
    | nil => exact List.nodup_nil
    | cons first more =>
      have shorter : (more.filter fun other => !other == first).length < size := by
        rw [← sized]
        exact Nat.lt_succ_of_le (List.length_filter_le _ more)
      rw [List.eraseDups_cons, List.nodup_cons]
      refine ⟨fun member => ?_, ih _ shorter _ rfl⟩
      have kept := (List.mem_filter.mp (List.mem_eraseDups.mp member)).2
      simp at kept

/-- The method with an index is removed if there is one. -/
def Removes (remove : TypeDef → Nat → Weave TypeDef) : Prop :=
  ∀ {type index next}, remove type index = .ok next →
    ∃ method, type.removeMethod? index = some (method, next)

/-- Each index is taken once, and the last of them first. -/
theorem pairwise_removalOrder (indices : List Nat) :
    (indices.eraseDups.mergeSort (· ≥ ·)).Pairwise (· > ·) := by
  have sorted : (indices.eraseDups.mergeSort (· ≥ ·)).Pairwise
      (fun first second => decide (first ≥ second) = true) :=
    List.pairwise_mergeSort (by simp; omega) (by simp; omega) indices.eraseDups
  have distinct : (indices.eraseDups.mergeSort (· ≥ ·)).Nodup :=
    (List.mergeSort_perm _ _).nodup_iff.mpr (nodup_eraseDups indices)
  refine (sorted.and distinct).imp ?_
  rintro first second ⟨order, different⟩
  have := of_decide_eq_true order
  omega

/-- Methods are removed one after another, from the last to the first. -/
theorem exists_order_of_applyRemovals {indices : List Nat}
    (removed : applyRemovals indices type = .ok reduced) :
    ∃ (order : List Nat) (remove : TypeDef → Nat → Weave TypeDef), order.Pairwise (· > ·) ∧
      (∀ index, index ∈ order ↔ index ∈ indices) ∧ Removes remove ∧
      order.foldlM remove type = .ok reduced := by
  refine ⟨_, _, pairwise_removalOrder indices, fun index => ?_, ?_, removed⟩
  · rw [List.mem_mergeSort, List.mem_eraseDups]
  · intro type index next step
    dsimp only at step
    cases cut : type.removeMethod? index with
    | none =>
      rw [cut] at step
      cases step
    | some parts =>
      rw [cut] at step
      cases step
      exact ⟨parts.1, rfl⟩

theorem Removes.methods {remove : TypeDef → Nat → Weave TypeDef} (removes : Removes remove)
    {next : TypeDef} (step : remove type index = .ok next) :
    next.methods = type.methods.eraseIdx index := by
  rcases removes step with ⟨method, cut⟩
  rcases Option.map_eq_some_iff.mp cut with ⟨_, _, same⟩
  cases same
  rfl

/-- What holds of a type and is kept whenever a method is removed holds in the end. -/
theorem applyRemovals_induction {indices : List Nat} (holds : TypeDef → Prop)
    (removed : applyRemovals indices type = .ok reduced) (start : holds type)
    (kept : ∀ left index method next, holds left → left.removeMethod? index = some (method, next) →
      holds next) : holds reduced := by
  rcases exists_order_of_applyRemovals removed with ⟨order, remove, _, _, removes, run⟩
  refine foldlM_induction holds start (fun left index next _ held step => ?_) run
  rcases removes step with ⟨method, taken⟩
  exact kept left index method next held taken

/-! ## The whole -/

/-- A plan in its stages: the methods with new bodies, the type with what is added and with the
prelude, and the type without the methods that are removed. -/
structure Stages (plan : TypePlan) (type : TypeDef) (bodied : List Method)
    (initialized rest : TypeDef) : Prop where
  bodies : applyBodies plan.bodies type.methods = .ok bodied
  installed : installPrelude plan.prelude { type with
    fields := type.fields ++ plan.fields
    attributes := type.attributes ++ plan.attributes
    methods := applyRenames plan.renames bodied ++ plan.methods } = .ok initialized
  removed : applyRemovals plan.removedMethods initialized = .ok rest

/-- In the end fields are taken out. -/
theorem exists_stages_of_apply (applied : plan.apply type = .ok edited) :
    ∃ bodied initialized rest, plan.Stages type bodied initialized rest ∧ edited = { rest with
      fields := rest.fields.filter fun field => !plan.removedFields.contains field.name } := by
  rcases bind_eq_ok_iff.mp applied with ⟨bodied, bodies, applied⟩
  rcases bind_eq_ok_iff.mp applied with ⟨initialized, installed, applied⟩
  rcases bind_eq_ok_iff.mp applied with ⟨rest, removed, final⟩
  exact ⟨bodied, initialized, rest, ⟨bodies, installed, removed⟩, (Except.ok.inj final).symm⟩

end TypePlan

end NativeWeave
