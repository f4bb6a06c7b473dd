import NativeWeave.Marshalling.Access
import NativeWeave.Proofs.Outcome
import NativeWeave.Proofs.Verification.Growth

namespace NativeWeave

/-!
# What emitting does to the tables, and what it gives

Emitting code only adds to the tables.  The property passes from the steps of a computation to the
computation, so that it is an instance for every step from which code is made: what is left to say
about a computation is into which cases it splits.

The second property of a computation is a condition on its results, whatever the tables are.
-/

namespace Emit

variable {α β : Type}

theorem exists_of_bind {first : Emit α} {next : α → Emit β} {before after : Tables} {result : β}
    (run : (first >>= next) before = .ok (result, after)) :
    ∃ value middle, first before = .ok (value, middle) ∧ next value middle = .ok (result, after) := by
  rcases bind_eq_ok_iff.mp run with ⟨⟨value, middle⟩, start, finish⟩
  exact ⟨value, middle, start, finish⟩

theorem eq_of_lift {step : Weave α} {before after : Tables} {value : α}
    (run : (liftM step : Emit α) before = .ok (value, after)) : step = .ok value ∧ before = after := by
  rcases bind_eq_ok_iff.mp run with ⟨found, start, finish⟩
  cases finish
  exact ⟨start, rfl⟩

/-! ## Growth -/

/-- The tables that the step leaves are those that it found, with new entries. -/
class Grows (step : Emit α) : Prop where
  extended : ∀ {before after : Tables} {value : α}, step before = .ok (value, after) →
    before.Extends after

theorem Grows.grows {step : Emit α} [step.Grows] {before after : Tables} {value : α}
    (run : step before = .ok (value, after)) : before.Grows after :=
  (Grows.extended run).grows

instance Grows.pure (value : α) : Grows (Pure.pure value) where
  extended run := by
    cases run
    exact .refl _

instance Grows.bind (first : Emit α) (next : α → Emit β) [first.Grows]
    [later : ∀ value, (next value).Grows] : Grows (first >>= next) where
  extended run := by
    rcases bind_eq_ok_iff.mp run with ⟨⟨value, middle⟩, start, finish⟩
    exact (Grows.extended start).trans (Grows.extended finish)

instance Grows.map (step : Emit α) (f : α → β) [step.Grows] : Grows (f <$> step) where
  extended run := by
    rcases bind_eq_ok_iff.mp run with ⟨⟨value, middle⟩, start, finish⟩
    cases finish
    exact Grows.extended start

instance Grows.throw (cause : WeaveError) : Grows (MonadExcept.throw cause : Emit α) where
  extended run := by cases run

/-- Nothing comes of what follows a failure. -/
instance Grows.throw_bind (cause : WeaveError) (next : α → Emit β) :
    Grows (MonadExcept.throw cause >>= next) where
  extended run := by cases run

/-- A step that has nothing to do with tables. -/
instance Grows.lift (step : Weave α) : Grows (liftM step : Emit α) where
  extended run := by
    rcases bind_eq_ok_iff.mp run with ⟨value, start, finish⟩
    cases finish
    exact .refl _

instance Grows.ite (condition : Prop) [Decidable condition] (yes no : Emit α) [yes.Grows]
    [no.Grows] : Grows (if condition then yes else no) := by
  split <;> infer_instance

instance Grows.mapM (items : List α) (step : α → Emit β) [∀ item, (step item).Grows] :
    Grows (items.mapM step) := by
  induction items with
  | nil =>
    rw [List.mapM_nil]
    infer_instance
  | cons item more ih =>
    rw [List.mapM_cons]
    infer_instance

/-! ## Results -/

/-- Whatever the step gives satisfies the condition. -/
def Yields (step : Emit α) (condition : α → Prop) : Prop :=
  ∀ before after value, step before = .ok (value, after) → condition value

variable {condition : α → Prop} {final : β → Prop}

theorem Yields.pure {value : α} (holds : condition value) : Yields (Pure.pure value) condition := by
  intro before after result run
  cases run
  exact holds

theorem Yields.bind {first : Emit α} {next : α → Emit β} (start : first.Yields condition)
    (finish : ∀ value, condition value → (next value).Yields final) :
    (first >>= next).Yields final := by
  intro before after result run
  rcases bind_eq_ok_iff.mp run with ⟨⟨value, middle⟩, begun, ended⟩
  exact finish value (start _ _ _ begun) _ _ _ ended

/-- What comes before a step can be anything if the step does not rely on it. -/
theorem Yields.after {first : Emit α} {next : α → Emit β}
    (finish : ∀ value, (next value).Yields final) : (first >>= next).Yields final := by
  intro before after result run
  rcases bind_eq_ok_iff.mp run with ⟨⟨value, middle⟩, _, ended⟩
  exact finish value _ _ _ ended

theorem Yields.throw {cause : WeaveError} : Yields (MonadExcept.throw cause) condition := by
  intro before after result run
  cases run

theorem Yields.lift {step : Weave α} (holds : ∀ {value}, step = .ok value → condition value) :
    Yields (liftM step) condition := by
  intro before after result run
  rcases bind_eq_ok_iff.mp run with ⟨value, start, finish⟩
  cases finish
  exact holds start

/-- Results of one step for many items satisfy the condition if those of each item do. -/
theorem Yields.mapM {items : List α} {step : α → Emit β}
    (each : ∀ item ∈ items, (step item).Yields final) :
    (items.mapM step).Yields fun results => ∀ result ∈ results, final result := by
  induction items with
  | nil =>
    rw [List.mapM_nil]
    exact .pure (List.forall_mem_nil final)
  | cons item more ih =>
    rw [List.forall_mem_cons] at each
    rw [List.mapM_cons]
    refine .bind each.1 fun first holds => .bind (ih each.2) fun others hold => .pure ?_
    exact List.forall_mem_cons.mpr ⟨holds, hold⟩

/-- A run of one step for many items, taken apart at one of them. -/
theorem exists_of_mapM_append {step : α → Emit β} {front back : List α} {item : α}
    {before after : Tables} {results : List β}
    (run : (front ++ item :: back).mapM step before = .ok (results, after)) :
    ∃ start finish early result late, front.mapM step before = .ok (early, start) ∧
      step item start = .ok (result, finish) ∧ back.mapM step finish = .ok (late, after) ∧
      results = early ++ result :: late := by
  induction front generalizing before results with
  | nil =>
    rw [List.nil_append, List.mapM_cons] at run
    rcases bind_eq_ok_iff.mp run with ⟨⟨result, finish⟩, own, run⟩
    rcases bind_eq_ok_iff.mp run with ⟨⟨late, last⟩, others, final⟩
    cases final
    exact ⟨before, finish, [], result, late, rfl, own, others, rfl⟩
  | cons first more ih =>
    rw [List.cons_append, List.mapM_cons] at run
    rcases bind_eq_ok_iff.mp run with ⟨⟨head, middle⟩, one, run⟩
    rcases bind_eq_ok_iff.mp run with ⟨⟨tail, last⟩, others, final⟩
    cases final
    rcases ih others with ⟨start, finish, early, result, late, ahead, own, rest, rfl⟩
    refine ⟨start, finish, head :: early, result, late, ?_, own, rest, rfl⟩
    rw [List.mapM_cons]
    exact bind_eq_ok_iff.mpr ⟨(head, middle), one, bind_eq_ok_iff.mpr ⟨(early, start), ahead, rfl⟩⟩

/-! ## Steps -/

instance grows_string (text : String) : Grows (string text) where
  extended run := by
    cases run
    exact Tables.extends_internString _ text

instance grows_member (reference : MemberRef) : Grows (member reference) where
  extended run := by
    cases run
    exact Tables.extends_internMember _ reference

instance grows_type (signature : Signature) : Grows (type signature) where
  extended run := by
    cases run
    exact Tables.extends_internType _ signature

instance grows_inconsistent (reason : String) : Grows (inconsistent reason : Emit α) := by
  unfold inconsistent
  infer_instance

instance grows_call (reference : MemberRef) : Grows (call reference) := by
  unfold call
  infer_instance

instance grows_callStatic (owner : Signature) (name : String) (parameters : List Signature)
    (result : Signature) : Grows (callStatic owner name parameters result) := by
  unfold callStatic
  infer_instance

instance grows_newObject (owner : Signature) (parameters : List Signature) :
    Grows (newObject owner parameters) := by
  unfold newObject
  infer_instance

instance grows_loadString (text : String) : Grows (loadString text) := by
  unfold loadString
  infer_instance

instance grows_liveness (config : Config) : Grows (liveness config) := by
  unfold liveness
  infer_instance

instance grows_thisNative (config : Config) : Grows (thisNative config) := by
  unfold thisNative
  infer_instance

end Emit

instance MemberSlots.grows_require (slot : Option UInt32) (what : String) (category : Category) :
    (require slot what category).Grows := by
  cases slot with
  | none => exact Emit.grows_inconsistent _
  | some token => exact Emit.Grows.pure token

/-! ## Values and properties -/

namespace Category

variable {config : Config} {category : Category} {type : Signature} {slots : MemberSlots}
  {address : NativeAddress} {value : ValueSource}

instance grows_requireHandle : (slots.requireHandle category).Grows :=
  MemberSlots.grows_require _ _ _

instance grows_requireElementSize : (slots.requireElementSize category).Grows :=
  MemberSlots.grows_require _ _ _

instance grows_requireWidth : (slots.requireWidth category).Grows :=
  MemberSlots.grows_require _ _ _

instance grows_fromNative : (category.fromNative config type slots address).Grows := by
  unfold fromNative
  split <;> infer_instance

instance grows_toNative : (category.toNative config type slots address value).Grows := by
  unfold toNative
  split <;> infer_instance

instance grows_cleanup : (category.cleanup config slots address).Grows := by
  unfold cleanup
  split <;> infer_instance

instance grows_defaultInit : (category.defaultInit config address).Grows := by
  unfold defaultInit
  infer_instance

instance grows_newWrapper : (category.newWrapper config slots address).Grows := by
  unfold newWrapper
  cases slots.handle <;> split <;> infer_instance

instance grows_load : (category.load config type slots address).Grows := by
  unfold load
  cases slots.wrapper <;> infer_instance

instance grows_store : (category.store config type slots address value).Grows := by
  unfold store
  infer_instance

end Category

instance Emit.grows_subobject (config : Config) (target : Signature) (nativeName : String)
    (address : NativeAddress) : (subobject config target nativeName address).Grows := by
  unfold subobject
  infer_instance

end NativeWeave
