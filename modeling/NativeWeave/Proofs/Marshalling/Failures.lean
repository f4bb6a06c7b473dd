import NativeWeave.Proofs.Marshalling.Emission

namespace NativeWeave

/-!
# Why generating code fails

Three kinds of failure mean that the weaver itself went wrong: a type is processed twice, a hash is
missing when it is needed, or a binding does not fit its module.  The other kinds are brought about
by what the weaver is given.  A step whose failures are all of the other kinds is called safe.  Safety
passes from the steps of a computation to the computation; what a step needs for it is that the slots
which its category asks for are there.  Nothing else can go wrong while code for a category is
generated, so that a step that is safe gives its code.
-/

/-- The failure means that the weaver itself went wrong. -/
def WeaveError.isInternal : WeaveError → Bool
  | duplicateProcessing _ | missingDependencyHash _ _ | inconsistent _ => true
  | _ => false

variable {α β : Type}

/-! ## Steps without tables -/

/-- The step does not fail by a fault of the weaver. -/
def Weave.Safe (step : Weave α) : Prop :=
  ∀ cause, step = .error cause → cause.isInternal = false

namespace Weave.Safe

theorem ok (value : α) : Weave.Safe (.ok value) :=
  fun _ impossible => by cases impossible

theorem error {cause : WeaveError} (harmless : cause.isInternal = false) :
    Weave.Safe (.error cause : Weave α) := by
  rintro other ⟨⟩
  exact harmless

theorem of_exists {step : Weave α} (passes : ∃ value, step = .ok value) : Weave.Safe step := by
  rcases passes with ⟨value, rfl⟩
  exact .ok value

/-- What follows a step may rely on what the step gives. -/
theorem bind {first : Weave α} {next : α → Weave β} (start : Weave.Safe first)
    (finish : ∀ value, first = .ok value → Weave.Safe (next value)) :
    Weave.Safe (first >>= next) := by
  cases ran : first with
  | ok value => exact finish value ran
  | error cause => exact .error (start cause ran)

theorem ofDecode (result : Except DecodeError α) : Weave.Safe (Weave.ofDecode result) := by
  cases result with
  | ok value => exact .ok value
  | error cause => exact .error rfl

theorem ofOption {value : Option α} (present : value.isSome = true) (reason : String) :
    Weave.Safe (Weave.ofOption value reason) := by
  obtain ⟨found, rfl⟩ := Option.isSome_iff_exists.mp present
  exact .ok found

theorem mapM {items : List α} {step : α → Weave β} (each : ∀ item ∈ items, Weave.Safe (step item)) :
    Weave.Safe (items.mapM step) := by
  induction items with
  | nil =>
    rw [List.mapM_nil]
    exact .ok []
  | cons item more ih =>
    rw [List.forall_mem_cons] at each
    rw [List.mapM_cons]
    exact .bind each.1 fun first _ => .bind (ih each.2) fun others _ => .ok (first :: others)

theorem forM {items : List α} {step : α → Weave Unit}
    (each : ∀ item ∈ items, Weave.Safe (step item)) : Weave.Safe (items.forM step) := by
  induction items with
  | nil => exact .ok ()
  | cons item more ih =>
    rw [List.forall_mem_cons] at each
    exact .bind each.1 fun _ _ => ih each.2

theorem anyM {items : List α} {test : α → Weave Bool} (each : ∀ item, Weave.Safe (test item)) :
    Weave.Safe (items.anyM test) := by
  induction items with
  | nil => exact .ok false
  | cons item more ih =>
    refine .bind (each item) fun found _ => ?_
    cases found with
    | true => exact .ok true
    | false => exact ih

/-- A run is safe if each of its steps is where it stands.  `holds` is known of the items behind a
step and the state that it leaves, and so of the run in the end. -/
theorem foldlM {items : List α} {step : β → α → Weave β} {start : β}
    (holds : List α → β → Prop) (initial : holds [] start)
    (each : ∀ front item back state, items = front ++ item :: back → holds front state →
      Weave.Safe (step state item) ∧
        ∀ next, step state item = .ok next → holds (front ++ [item]) next) :
    Weave.Safe (items.foldlM step start) ∧
      ∀ result, items.foldlM step start = .ok result → holds items result := by
  suffices run : ∀ front back state, items = front ++ back → holds front state →
      Weave.Safe (back.foldlM step state) ∧
        ∀ result, back.foldlM step state = .ok result → holds items result from
    run [] items start rfl initial
  intro front back
  induction back generalizing front with
  | nil =>
    rintro state rfl held
    refine ⟨.ok state, fun result final => ?_⟩
    cases final
    rwa [List.append_nil]
  | cons item more ih =>
    intro state split held
    rcases each front item more state split held with ⟨safe, kept⟩
    have rest : ∀ next, step state item = .ok next → _ := fun next ran =>
      ih (front ++ [item]) next (by rw [split, List.append_assoc, List.singleton_append])
        (kept next ran)
    rw [List.foldlM_cons]
    refine ⟨.bind safe fun next ran => (rest next ran).1, fun result final => ?_⟩
    rcases bind_eq_ok_iff.mp final with ⟨next, ran, final⟩
    exact (rest next ran).2 result final

end Weave.Safe

/-! ## Steps with tables -/

namespace Emit

/-- The step does not fail by a fault of the weaver, whatever the tables are. -/
class Safe (step : Emit α) : Prop where
  safe : ∀ tables, Weave.Safe (step tables)

instance Safe.pure (value : α) : Safe (Pure.pure value) where
  safe tables := .ok (value, tables)

/-- What follows a step may rely on what the step yields. -/
theorem Safe.bindYields {first : Emit α} {next : α → Emit β} {known : α → Prop} [start : first.Safe]
    (yields : first.Yields known) (finish : ∀ value, known value → (next value).Safe) :
    Safe (first >>= next) where
  safe tables := .bind (start.safe tables) fun result ran =>
    (finish result.1 (yields tables result.2 result.1 ran)).safe result.2

instance Safe.bind (first : Emit α) (next : α → Emit β) [first.Safe]
    [later : ∀ value, (next value).Safe] : Safe (first >>= next) :=
  .bindYields (fun _ _ _ _ => trivial) fun value (_ : True) => later value

instance Safe.map (step : Emit α) (f : α → β) [start : step.Safe] : Safe (f <$> step) where
  safe tables := .bind (start.safe tables) fun result _ => .ok (f result.1, result.2)

instance Safe.throwOutOfRange : Safe (MonadExcept.throw WeaveError.outOfRange : Emit α) where
  safe _ := .error rfl

/-- Nothing comes of what follows a failure. -/
theorem Safe.throwBind {cause : WeaveError} (harmless : cause.isInternal = false)
    (next : α → Emit β) : Safe (MonadExcept.throw cause >>= next) where
  safe _ := .error harmless

theorem Safe.lift {step : Weave α} (safe : Weave.Safe step) : Safe (liftM step : Emit α) where
  safe tables := .bind safe fun value _ => .ok (value, tables)

instance Safe.liftDecode (result : Except DecodeError α) :
    Safe (liftM (Weave.ofDecode result) : Emit α) :=
  .lift (.ofDecode result)

instance Safe.ite (condition : Prop) [Decidable condition] (yes no : Emit α) [yes.Safe] [no.Safe] :
    Safe (if condition then yes else no) := by
  split <;> infer_instance

theorem Safe.forallMapM {items : List α} {step : α → Emit β}
    (each : ∀ item ∈ items, (step item).Safe) : Safe (items.mapM step) := by
  induction items with
  | nil =>
    rw [List.mapM_nil]
    infer_instance
  | cons item more ih =>
    rw [List.forall_mem_cons] at each
    have := each.1
    have := ih each.2
    rw [List.mapM_cons]
    infer_instance

instance Safe.mapM (items : List α) (step : α → Emit β) [each : ∀ item, (step item).Safe] :
    Safe (items.mapM step) :=
  .forallMapM fun item _ => each item

/-! ## Single steps -/

instance safe_string (text : String) : Safe (string text) where
  safe tables := .ok (tables.internString text)

instance safe_member (reference : MemberRef) : Safe (member reference) where
  safe tables := .ok (tables.internMember reference)

instance safe_type (signature : Signature) : Safe (type signature) where
  safe tables := .ok (tables.internType signature)

instance safe_call (reference : MemberRef) : Safe (call reference) := by
  unfold call
  infer_instance

instance safe_callStatic (owner : Signature) (name : String) (parameters : List Signature)
    (result : Signature) : Safe (callStatic owner name parameters result) := by
  unfold callStatic
  infer_instance

instance safe_newObject (owner : Signature) (parameters : List Signature) :
    Safe (newObject owner parameters) := by
  unfold newObject
  infer_instance

instance safe_loadString (text : String) : Safe (loadString text) := by
  unfold loadString
  infer_instance

instance safe_liveness (config : Config) : Safe (liveness config) := by
  unfold liveness
  infer_instance

instance safe_thisNative (config : Config) : Safe (thisNative config) := by
  unfold thisNative
  infer_instance

end Emit

/-! ## Values and properties -/

open Emit

namespace MemberSlots

/-- The slots that code for values of a category asks for are there. -/
structure Fit (slots : MemberSlots) (category : Category) : Prop where
  handle : category.needsHandle = true → slots.handle.isSome = true
  elementSize : category.needsElementSize = true → slots.elementSize.isSome = true
  width : category.needsWidth = true → slots.width.isSome = true

variable {slots : MemberSlots} {category : Category}

theorem safe_require {slot : Option UInt32} (what : String) (present : slot.isSome = true) :
    (require slot what category).Safe := by
  obtain ⟨token, rfl⟩ := Option.isSome_iff_exists.mp present
  exact .pure token

theorem Fit.safe_requireHandle (fit : slots.Fit category) (needs : category.needsHandle = true) :
    (slots.requireHandle category).Safe :=
  safe_require _ (fit.handle needs)

theorem Fit.safe_requireElementSize (fit : slots.Fit category)
    (needs : category.needsElementSize = true) : (slots.requireElementSize category).Safe :=
  safe_require _ (fit.elementSize needs)

theorem Fit.safe_requireWidth (fit : slots.Fit category) (needs : category.needsWidth = true) :
    (slots.requireWidth category).Safe :=
  safe_require _ (fit.width needs)

end MemberSlots

namespace Category

variable {config : Config} {category : Category} {type : Signature} {slots : MemberSlots}
  {address : NativeAddress} {value : ValueSource}

theorem safe_fromNative (fit : slots.Fit category) :
    (category.fromNative config type slots address).Safe := by
  cases category with
  | boolean =>
    have := fit.safe_requireWidth rfl
    unfold fromNative
    infer_instance
  | string =>
    have := fit.safe_requireHandle rfl
    unfold fromNative
    infer_instance
  | array inner element dim =>
    have := fit.safe_requireHandle rfl
    have := fit.safe_requireElementSize rfl
    unfold fromNative
    infer_instance
  | list inner element =>
    have := fit.safe_requireHandle rfl
    unfold fromNative
    infer_instance
  | struct repr nativeName owner => cases repr <;> (unfold fromNative; infer_instance)
  | _ => unfold fromNative; infer_instance

/-- There is code for values that can be written as a whole. -/
theorem safe_toNative (fit : slots.Fit category) (whole : category.isArray = false) :
    (category.toNative config type slots address value).Safe := by
  cases category with
  | boolean =>
    have := fit.safe_requireWidth rfl
    unfold toNative
    infer_instance
  | string =>
    have := fit.safe_requireHandle rfl
    unfold toNative
    infer_instance
  | array inner element dim => cases whole
  | list inner element =>
    have := fit.safe_requireHandle rfl
    unfold toNative
    infer_instance
  | struct repr nativeName owner => cases repr <;> (unfold toNative; infer_instance)
  | _ => unfold toNative; infer_instance

theorem safe_cleanup (fit : slots.Fit category) :
    (category.cleanup config slots address).Safe := by
  cases category with
  | string =>
    have := fit.safe_requireHandle rfl
    unfold cleanup
    infer_instance
  | list inner element =>
    have := fit.safe_requireHandle rfl
    unfold cleanup
    infer_instance
  | _ => unfold cleanup; infer_instance

instance safe_defaultInit : (category.defaultInit config address).Safe := by
  unfold defaultInit
  infer_instance

/-- Every category that keeps a wrapper in a field has code for a new one. -/
theorem safe_newWrapper (fit : slots.Fit category) (wrapped : category.needsWrapperField = true) :
    (category.newWrapper config slots address).Safe := by
  cases category with
  | text => unfold newWrapper; infer_instance
  | array inner element dim =>
    have : ((array inner element dim).fromNative config element slots address).Safe :=
      safe_fromNative fit
    unfold newWrapper
    infer_instance
  | list inner element =>
    obtain ⟨handle, found⟩ := Option.isSome_iff_exists.mp (fit.handle rfl)
    unfold newWrapper
    simp only [found]
    infer_instance
  | _ => cases wrapped

theorem safe_load (fit : slots.Fit category)
    (wrapper : category.needsWrapperField = true → slots.wrapper.isSome = true) :
    (category.load config type slots address).Safe := by
  unfold load
  split
  · next wrapped =>
    have : (category.newWrapper config slots address).Safe := safe_newWrapper fit wrapped
    obtain ⟨field, found⟩ := Option.isSome_iff_exists.mp (wrapper wrapped)
    simp only [found]
    infer_instance
  · exact safe_fromNative fit

/-- What has a setter can be written as a whole. -/
theorem safe_store (fit : slots.Fit category) (settable : category.suppressesSetter = false) :
    (category.store config type slots address value).Safe := by
  unfold store
  rw [if_neg (by rw [settable]; exact Bool.false_ne_true)]
  refine safe_toNative fit ?_
  cases category with
  | array inner element dim => cases settable
  | _ => rfl

end Category

instance Emit.safe_subobject (config : Config) (target : Signature) (nativeName : String)
    (address : NativeAddress) : (subobject config target nativeName address).Safe := by
  unfold subobject
  infer_instance

/-! ## Code that can always be generated -/

namespace Emit

/-- Nothing but a fault of the weaver itself makes the step fail. -/
class FaultsOnly (step : Emit α) : Prop where
  internal : ∀ {tables cause}, step tables = .error cause → cause.isInternal = true

/-- A step that could only fail by a fault, and does not, gives a result. -/
theorem exists_ok {step : Emit α} [FaultsOnly step] (safe : step.Safe) (before : Tables) :
    ∃ value after, step before = .ok (value, after) := by
  cases ran : step before with
  | ok result => exact ⟨result.1, result.2, rfl⟩
  | error cause => cases (safe.safe before cause ran).symm.trans (FaultsOnly.internal ran)

instance FaultsOnly.pure (value : α) : FaultsOnly (Pure.pure value) where
  internal impossible := by cases impossible

instance FaultsOnly.bind (first : Emit α) (next : α → Emit β) [FaultsOnly first]
    [later : ∀ value, FaultsOnly (next value)] : FaultsOnly (first >>= next) where
  internal {tables cause} failed := by
    change (first tables >>= fun result => next result.1 result.2) = .error cause at failed
    cases ran : first tables with
    | ok result =>
      rw [ran] at failed
      exact (later result.1).internal failed
    | error other =>
      rw [ran] at failed
      cases failed
      exact FaultsOnly.internal ran

instance FaultsOnly.ite (condition : Prop) [Decidable condition] (yes no : Emit α)
    [FaultsOnly yes] [FaultsOnly no] : FaultsOnly (if condition then yes else no) := by
  split <;> infer_instance

instance faultsOnly_string (text : String) : FaultsOnly (string text) where
  internal impossible := by cases impossible

instance faultsOnly_member (reference : MemberRef) : FaultsOnly (member reference) where
  internal impossible := by cases impossible

instance faultsOnly_type (signature : Signature) : FaultsOnly (type signature) where
  internal impossible := by cases impossible

instance faultsOnly_inconsistent (reason : String) : FaultsOnly (inconsistent reason : Emit α) where
  internal failed := by
    cases failed
    rfl

instance faultsOnly_call (reference : MemberRef) : FaultsOnly (call reference) := by
  unfold call
  infer_instance

instance faultsOnly_callStatic (owner : Signature) (name : String) (parameters : List Signature)
    (result : Signature) : FaultsOnly (callStatic owner name parameters result) := by
  unfold callStatic
  infer_instance

instance faultsOnly_newObject (owner : Signature) (parameters : List Signature) :
    FaultsOnly (newObject owner parameters) := by
  unfold newObject
  infer_instance

instance faultsOnly_loadString (text : String) : FaultsOnly (loadString text) := by
  unfold loadString
  infer_instance

end Emit

instance MemberSlots.faultsOnly_require (slot : Option UInt32) (what : String)
    (category : Category) : FaultsOnly (require slot what category) := by
  unfold require
  split <;> infer_instance

namespace Category

variable (config : Config) (category : Category) (type : Signature) (slots : MemberSlots)
  (address : NativeAddress) (value : ValueSource)

instance faultsOnly_fromNative : FaultsOnly (category.fromNative config type slots address) := by
  unfold fromNative MemberSlots.requireWidth MemberSlots.requireHandle MemberSlots.requireElementSize
  split <;> infer_instance

instance faultsOnly_toNative :
    FaultsOnly (category.toNative config type slots address value) := by
  unfold toNative MemberSlots.requireWidth MemberSlots.requireHandle
  split <;> infer_instance

instance faultsOnly_cleanup : FaultsOnly (category.cleanup config slots address) := by
  unfold cleanup MemberSlots.requireHandle
  split <;> infer_instance

instance faultsOnly_defaultInit : FaultsOnly (category.defaultInit config address) := by
  unfold defaultInit
  infer_instance

instance faultsOnly_newWrapper : FaultsOnly (category.newWrapper config slots address) := by
  unfold newWrapper
  split
  case h_3 => split <;> infer_instance
  all_goals infer_instance

instance faultsOnly_load : FaultsOnly (category.load config type slots address) := by
  unfold load
  split
  · split <;> infer_instance
  · infer_instance

instance faultsOnly_store : FaultsOnly (category.store config type slots address value) := by
  unfold store
  infer_instance

end Category

instance Emit.faultsOnly_subobject (config : Config) (target : Signature) (nativeName : String)
    (address : NativeAddress) : FaultsOnly (subobject config target nativeName address) := by
  unfold subobject
  infer_instance

end NativeWeave
