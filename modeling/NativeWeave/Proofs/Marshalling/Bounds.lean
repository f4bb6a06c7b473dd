import NativeWeave.Proofs.Marshalling.Emission

namespace NativeWeave

/-!
# Steps that stay inside

Code is put in and taken out by index, and so are methods.  An index outside of the sequence would
stop the program.  A step that never stops it is called bounded; that passes from the steps of a
computation to the computation.  Whatever generates code is bounded, since it looks nothing up by
index without saying what is missing.
-/

variable {α β : Type}

/-! ## Steps without tables -/

/-- The step does not reach outside of a sequence. -/
class Weave.Bounded (step : Weave α) : Prop where
  ne : step ≠ .error .outOfRange

namespace Weave.Bounded

instance ok (value : α) : Weave.Bounded (.ok value) where
  ne := by rintro ⟨⟩

instance pure (value : α) : Weave.Bounded (Pure.pure value) where
  ne := by rintro ⟨⟩

theorem error {cause : WeaveError} (other : cause ≠ .outOfRange) :
    Weave.Bounded (.error cause : Weave α) where
  ne same := other (Except.error.inj same)

/-- What follows a step may rely on what the step gives. -/
theorem bindOk {first : Weave α} {next : α → Weave β} [start : Weave.Bounded first]
    (finish : ∀ value, first = .ok value → Weave.Bounded (next value)) :
    Weave.Bounded (first >>= next) := by
  cases ran : first with
  | ok value => exact finish value ran
  | error cause => exact .error fun same => start.ne (ran.trans (congrArg _ same))

instance bind (first : Weave α) (next : α → Weave β) [Weave.Bounded first]
    [later : ∀ value, Weave.Bounded (next value)] : Weave.Bounded (first >>= next) :=
  .bindOk fun value _ => later value

instance ofDecode (result : Except DecodeError α) : Weave.Bounded (Weave.ofDecode result) := by
  cases result with
  | ok value => exact .ok value
  | error cause => exact .error (by rintro ⟨⟩)

instance ofOption (value : Option α) (reason : String) :
    Weave.Bounded (Weave.ofOption value reason) := by
  cases value with
  | some value => exact .ok value
  | none => exact .error (by rintro ⟨⟩)

instance mapM (items : List α) (step : α → Weave β) [each : ∀ item, Weave.Bounded (step item)] :
    Weave.Bounded (items.mapM step) := by
  induction items with
  | nil =>
    rw [List.mapM_nil]
    infer_instance
  | cons item more ih =>
    rw [List.mapM_cons]
    infer_instance

instance forM (items : List α) (step : α → Weave Unit) [each : ∀ item, Weave.Bounded (step item)] :
    Weave.Bounded (items.forM step) := by
  induction items with
  | nil => exact .ok ()
  | cons item more ih => exact .bind _ _

instance anyM (items : List α) (test : α → Weave Bool) [each : ∀ item, Weave.Bounded (test item)] :
    Weave.Bounded (items.anyM test) := by
  induction items with
  | nil => exact .ok false
  | cons item more ih =>
    refine .bindOk fun found _ => ?_
    cases found with
    | true => exact .ok true
    | false => exact ih

/-- A run is bounded if each of its steps is in the states that the steps before it leave. -/
theorem foldlM {items : List α} {step : β → α → Weave β} {start : β} (holds : β → Prop)
    (initial : holds start)
    (each : ∀ state item, holds state → Weave.Bounded (step state item) ∧
      ∀ next, step state item = .ok next → holds next) :
    Weave.Bounded (items.foldlM step start) ∧
      ∀ result, items.foldlM step start = .ok result → holds result := by
  induction items generalizing start with
  | nil =>
    refine ⟨.ok start, fun result final => ?_⟩
    cases final
    exact initial
  | cons item more ih =>
    rcases each start item initial with ⟨bounded, kept⟩
    rw [List.foldlM_cons]
    refine ⟨.bindOk fun next ran => (ih (kept next ran)).1, fun result run => ?_⟩
    rcases bind_eq_ok_iff.mp run with ⟨next, ran, run⟩
    exact (ih (kept next ran)).2 result run

end Weave.Bounded

/-! ## Steps with tables -/

/-- The step does not reach outside of a sequence, whatever the tables are. -/
class Emit.Bounded (step : Emit α) : Prop where
  bounded : ∀ tables, Weave.Bounded (step tables)

namespace Emit

instance Bounded.pure (value : α) : Bounded (Pure.pure value) where
  bounded tables := .ok (value, tables)

instance Bounded.bind (first : Emit α) (next : α → Emit β) [start : first.Bounded]
    [later : ∀ value, (next value).Bounded] : Bounded (first >>= next) where
  bounded tables :=
    have := start.bounded tables
    .bindOk fun result _ => (later result.1).bounded result.2

instance Bounded.map (step : Emit α) (f : α → β) [start : step.Bounded] : Bounded (f <$> step) where
  bounded tables :=
    have := start.bounded tables
    .bindOk fun result _ => .ok (f result.1, result.2)

theorem Bounded.throw {cause : WeaveError} (other : cause ≠ .outOfRange) :
    Bounded (MonadExcept.throw cause : Emit α) where
  bounded _ := .error other

instance Bounded.lift (step : Weave α) [start : Weave.Bounded step] :
    Bounded (liftM step : Emit α) where
  bounded tables :=
    have finish : ∀ value, step = .ok value → Weave.Bounded (.ok (value, tables)) :=
      fun value _ => .ok (value, tables)
    .bindOk finish

/-- What follows a step without tables may rely on what the step gives. -/
theorem Bounded.bindLift {step : Weave α} {next : α → Emit β} [start : Weave.Bounded step]
    (finish : ∀ value, step = .ok value → (next value).Bounded) :
    Bounded ((liftM step : Emit α) >>= next) where
  bounded tables := by
    cases ran : step with
    | ok value => exact (finish value ran).bounded tables
    | error cause => exact .error fun same => start.ne (ran.trans (congrArg _ same))

instance Bounded.ite (condition : Prop) [Decidable condition] (yes no : Emit α) [yes.Bounded]
    [no.Bounded] : Bounded (if condition then yes else no) := by
  split <;> infer_instance

instance Bounded.mapM (items : List α) (step : α → Emit β) [each : ∀ item, (step item).Bounded] :
    Bounded (items.mapM step) := by
  induction items with
  | nil =>
    rw [List.mapM_nil]
    infer_instance
  | cons item more ih =>
    rw [List.mapM_cons]
    infer_instance

instance bounded_string (text : String) : Bounded (string text) where
  bounded tables := .ok (tables.internString text)

instance bounded_member (reference : MemberRef) : Bounded (member reference) where
  bounded tables := .ok (tables.internMember reference)

instance bounded_type (signature : Signature) : Bounded (type signature) where
  bounded tables := .ok (tables.internType signature)

instance bounded_inconsistent (reason : String) : Bounded (inconsistent reason : Emit α) :=
  .throw (by rintro ⟨⟩)

instance bounded_call (reference : MemberRef) : Bounded (call reference) := by
  unfold call
  infer_instance

instance bounded_callStatic (owner : Signature) (name : String) (parameters : List Signature)
    (result : Signature) : Bounded (callStatic owner name parameters result) := by
  unfold callStatic
  infer_instance

instance bounded_newObject (owner : Signature) (parameters : List Signature) :
    Bounded (newObject owner parameters) := by
  unfold newObject
  infer_instance

instance bounded_loadString (text : String) : Bounded (loadString text) := by
  unfold loadString
  infer_instance

instance bounded_liveness (config : Config) : Bounded (liveness config) := by
  unfold liveness
  infer_instance

instance bounded_thisNative (config : Config) : Bounded (thisNative config) := by
  unfold thisNative
  infer_instance

instance bounded_subobject (config : Config) (target : Signature) (nativeName : String)
    (address : NativeAddress) : Bounded (subobject config target nativeName address) := by
  unfold subobject
  infer_instance

end Emit

open Emit

/-! ## Values -/

instance MemberSlots.bounded_require (slot : Option UInt32) (what : String) (category : Category) :
    (require slot what category).Bounded := by
  unfold require
  split <;> infer_instance

namespace Category

variable (config : Config) (category : Category) (type : Signature) (slots : MemberSlots)
  (address : NativeAddress) (value : ValueSource)

instance bounded_fromNative : (category.fromNative config type slots address).Bounded := by
  unfold fromNative MemberSlots.requireWidth MemberSlots.requireHandle MemberSlots.requireElementSize
  split <;> infer_instance

instance bounded_toNative : (category.toNative config type slots address value).Bounded := by
  unfold toNative MemberSlots.requireWidth MemberSlots.requireHandle
  split <;> infer_instance

instance bounded_cleanup : (category.cleanup config slots address).Bounded := by
  unfold cleanup MemberSlots.requireHandle
  split <;> infer_instance

instance bounded_defaultInit : (category.defaultInit config address).Bounded := by
  unfold defaultInit
  infer_instance

instance bounded_newWrapper : (category.newWrapper config slots address).Bounded := by
  unfold newWrapper
  split
  case h_3 => split <;> infer_instance
  all_goals infer_instance

instance bounded_load : (category.load config type slots address).Bounded := by
  unfold load
  split
  · split <;> infer_instance
  · infer_instance

instance bounded_store : (category.store config type slots address value).Bounded := by
  unfold store
  infer_instance

end Category

end NativeWeave
