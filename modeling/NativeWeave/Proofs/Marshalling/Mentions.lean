import NativeWeave.Proofs.Category.Outlined
import NativeWeave.Proofs.Marshalling.Emission

namespace NativeWeave

/-!
# What generated code refers to

Emitting code enters references to members into the tables.  The members belong to types that code
for the category relies on: the native root, the collaborators of the category, and the types of
user code that the category names.  The conditions on references pass from the steps of a
computation to the computation.
-/

/-- The reference does not mean an instance field of the kind in which values of properties are
kept. -/
def MemberRef.Visible (reference : MemberRef) : Prop :=
  ∀ type, reference.kind = .field type false →
    ∀ property, reference.name ≠ Naming.backingField property

/-- Methods and static fields are no values of properties. -/
theorem MemberRef.Visible.method {owner : Signature} {name : String}
    {signature : MethodSignature} : Visible ⟨owner, name, .method signature⟩ := by
  intro type same
  cases same

theorem MemberRef.Visible.staticField {owner type : Signature} {name : String} :
    (staticField owner name type).Visible := by
  intro other same
  cases same

/-- The reference means a visible member of a type whose name satisfies a condition. -/
structure MemberRef.IsOf (allowed : QualifiedName → Prop) (reference : MemberRef) : Prop where
  owned : ∃ name, reference.owner.typeName? = some name ∧ allowed name
  visible : reference.Visible

/-- The address of a native instance and the wrapper of a value are no values of properties. -/
theorem Config.visible_nativePtr (config : Config) : config.nativePtr.Visible := by
  intro type _ property same
  have heads : "NativePtr".toList.head? = _ := congrArg (·.toList.head?) same
  rw [Naming.backingField, String.append_assoc, String.toList_append] at heads
  change some 'N' = some '<' at heads
  exact absurd heads (by decide)

theorem MemberRef.visible_wrapper (owner type : Signature) (property : String) :
    (field owner (Naming.wrapperField property) type).Visible := by
  intro _ _ other same
  have lasts := congrArg (·.toList.getLast?) same
  simp only [field, Naming.wrapperField, Naming.backingField, String.toList_append,
    List.getLast?_append] at lasts
  change some 'r' = some 'd' at lasts
  exact absurd lasts (by decide)

theorem exists_append_of_intern {α : Type} [DecidableEq α] (items : List α) (item : α) :
    ∃ added, (intern items item).2 = items ++ added ∧ ∀ other ∈ added, other = item := by
  unfold intern
  split
  · exact ⟨[], (List.append_nil _).symm, List.forall_mem_nil _⟩
  · exact ⟨[item], rfl, fun _ => List.mem_singleton.mp⟩

namespace Emit

variable {α β : Type} {condition weaker : MemberRef → Prop}

/-- The references that the step enters into the tables, behind those that it found, satisfy the
condition. -/
def Mentions (step : Emit α) (condition : MemberRef → Prop) : Prop :=
  ∀ before after value, step before = .ok (value, after) →
    ∃ added, after.members = before.members ++ added ∧ ∀ reference ∈ added, condition reference

/-- A step that does nothing to the tables mentions nothing. -/
theorem mentions_of_eq {step : Emit α}
    (kept : ∀ before after value, step before = .ok (value, after) →
      after.members = before.members) : step.Mentions condition := by
  intro before after value run
  exact ⟨[], (kept _ _ _ run).trans (List.append_nil _).symm, List.forall_mem_nil _⟩

theorem Mentions.mono {step : Emit α} (mentions : step.Mentions condition)
    (implies : ∀ reference, condition reference → weaker reference) : step.Mentions weaker := by
  intro before after value run
  rcases mentions _ _ _ run with ⟨added, grown, all⟩
  exact ⟨added, grown, fun reference member => implies reference (all reference member)⟩

theorem Mentions.pure {value : α} : Mentions (Pure.pure value) condition := by
  apply mentions_of_eq
  intro before after result run
  cases run
  rfl

/-- What follows a step may rely on what the step yields. -/
theorem Mentions.bindYields {first : Emit α} {next : α → Emit β} {known : α → Prop}
    (start : first.Mentions condition) (yields : first.Yields known)
    (finish : ∀ value, known value → (next value).Mentions condition) :
    (first >>= next).Mentions condition := by
  intro before after result run
  rcases exists_of_bind run with ⟨value, middle, begun, ended⟩
  rcases start _ _ _ begun with ⟨early, first, one⟩
  rcases finish value (yields _ _ _ begun) _ _ _ ended with ⟨late, second, other⟩
  refine ⟨early ++ late, ?_, List.forall_mem_append.mpr ⟨one, other⟩⟩
  rw [second, first, List.append_assoc]

theorem Mentions.bind {first : Emit α} {next : α → Emit β} (start : first.Mentions condition)
    (finish : ∀ value, (next value).Mentions condition) : (first >>= next).Mentions condition :=
  start.bindYields (fun _ _ _ _ => trivial) fun value _ => finish value

theorem Mentions.throw {cause : WeaveError} :
    Mentions (MonadExcept.throw cause : Emit α) condition := by
  intro before after result run
  cases run

/-- Nothing comes of what follows a failure. -/
theorem Mentions.throw_bind {cause : WeaveError} {next : α → Emit β} :
    Mentions (MonadExcept.throw cause >>= next) condition := by
  intro before after result run
  cases run

theorem Mentions.lift {step : Weave α} : Mentions (liftM step : Emit α) condition := by
  apply mentions_of_eq
  intro before after value run
  rw [(eq_of_lift run).2]

theorem Mentions.map {step : Emit α} {f : α → β} (start : step.Mentions condition) :
    Mentions (f <$> step) condition := by
  intro before after value run
  rcases bind_eq_ok_iff.mp run with ⟨⟨found, middle⟩, begun, final⟩
  cases final
  exact start _ _ _ begun

theorem Mentions.mapM {items : List α} {step : α → Emit β}
    (each : ∀ item ∈ items, (step item).Mentions condition) :
    (items.mapM step).Mentions condition := by
  induction items with
  | nil =>
    rw [List.mapM_nil]
    exact .pure
  | cons item more ih =>
    rw [List.forall_mem_cons] at each
    rw [List.mapM_cons]
    exact .bind each.1 fun first => .bind (ih each.2) fun others => .pure

/-! ## Steps -/

theorem mentions_string (text : String) : (string text).Mentions condition := by
  apply mentions_of_eq
  intro before after index run
  cases run
  rfl

theorem mentions_type (signature : Signature) : (type signature).Mentions condition := by
  apply mentions_of_eq
  intro before after token run
  cases run
  rfl

theorem mentions_member {reference : MemberRef} (holds : condition reference) :
    (member reference).Mentions condition := by
  intro before after token run
  cases run
  rcases exists_append_of_intern before.members reference with ⟨added, grown, same⟩
  exact ⟨added, grown, fun other listed => same other listed ▸ holds⟩

theorem mentions_inconsistent (reason : String) :
    (inconsistent reason : Emit α).Mentions condition :=
  .throw

theorem mentions_call {reference : MemberRef} (holds : condition reference) :
    (call reference).Mentions condition :=
  .bind (mentions_member holds) fun _ => .pure

theorem mentions_loadString (text : String) : (loadString text).Mentions condition :=
  .bind (mentions_string text) fun _ => .pure

variable {allowed : QualifiedName → Prop} {config : Config} {owner : Signature}
  {name : QualifiedName}

/-- Calls of static methods of an allowed type. -/
theorem mentions_callStatic (named : owner.typeName? = some name) (holds : allowed name)
    (method : String) (parameters : List Signature) (result : Signature) :
    (callStatic owner method parameters result).Mentions (MemberRef.IsOf allowed) :=
  mentions_call ⟨⟨name, named, holds⟩, .method⟩

theorem mentions_newObject (named : owner.typeName? = some name) (holds : allowed name)
    (parameters : List Signature) :
    (newObject owner parameters).Mentions (MemberRef.IsOf allowed) :=
  .bind (mentions_member ⟨⟨name, named, holds⟩, .method⟩) fun _ => .pure

theorem mentions_liveness (root : allowed config.root) :
    (liveness config).Mentions (MemberRef.IsOf allowed) :=
  .bind (mentions_call ⟨⟨_, rfl, root⟩, .method⟩) fun _ => .pure

theorem mentions_thisNative (root : allowed config.root) :
    (thisNative config).Mentions (MemberRef.IsOf allowed) :=
  .bind (mentions_member ⟨⟨_, rfl, root⟩, config.visible_nativePtr⟩) fun _ => .pure

end Emit

theorem MemberSlots.mentions_require {condition : MemberRef → Prop} (slot : Option UInt32)
    (what : String) (category : Category) : (require slot what category).Mentions condition := by
  cases slot with
  | none => exact Emit.mentions_inconsistent _
  | some token => exact .pure

/-! ## Values and properties -/

/-- The types of user code that code for a category relies on: a struct with generated members, or a
class of which a subobject is created. -/
def Category.partners : Category → List QualifiedName
  | .struct .generic _ owner => [owner]
  | .subobject target => target.typeName?.toList
  | _ => []

/-- The condition allows everything that code for a category relies on. -/
structure Config.Allows (config : Config) (allowed : QualifiedName → Prop) (category : Category) :
    Prop where
  root : allowed config.root
  collaborators : ∀ name ∈ config.collaborators category, allowed name
  partners : ∀ name ∈ category.partners, allowed name

namespace Category

open Emit MemberSlots

variable {scope : Scope} {config : Config} {allowed : QualifiedName → Prop} {category : Category}
  {type : Signature} {slots : MemberSlots} {address : NativeAddress} {value : ValueSource}

/-- The wrapper of a fixed array is made like its value. -/
theorem mentions_fromNative_array {inner : Category} {element : Signature} {dim : UInt32}
    (allows : config.Allows allowed (.array inner element dim)) (type : Signature) :
    ((Category.array inner element dim).fromNative config type slots address).Mentions
      (MemberRef.IsOf allowed) := by
  refine .bind (mentions_require _ _ _) fun handle => .bind (mentions_require _ _ _) fun size => ?_
  exact .bind (mentions_newObject rfl (allows.collaborators _ List.mem_cons_self) _)
    fun create => .pure

theorem mentions_fromNative (allows : config.Allows allowed category)
    (fits : scope.Explains type category) :
    (category.fromNative config type slots address).Mentions (MemberRef.IsOf allowed) := by
  unfold fromNative
  split
  · exact .pure
  · exact .pure
  · exact .bind (mentions_require _ _ _) fun width => .bind (mentions_callStatic rfl
      (allows.collaborators _ List.mem_cons_self) _ _ _) fun call => .pure
  · exact .bind (mentions_require _ _ _) fun handle => .bind (mentions_callStatic rfl
      (allows.collaborators _ List.mem_cons_self) _ _ _) fun call => .pure
  · exact .bind (mentions_callStatic rfl
      (allows.collaborators _ (List.mem_cons_of_mem _ List.mem_cons_self)) _ _ _) fun call => .pure
  · exact .bind (mentions_type _) fun token => .pure
  · exact .bind (mentions_callStatic rfl
      (allows.collaborators _ List.mem_cons_self) _ _ _) fun call => .pure
  · rcases fits with ⟨rfl, _⟩
    exact .bind (mentions_newObject rfl (allows.partners _ List.mem_cons_self) _) fun create => .pure
  · exact .bind (mentions_callStatic rfl (allows.collaborators _ List.mem_cons_self) _ _ _)
      fun call => .bind (mentions_type _) fun token => .pure
  · exact .bind (mentions_callStatic rfl (allows.collaborators _ List.mem_cons_self) _ _ _)
      fun call => .bind (mentions_type _) fun token => .pure
  · exact .bind (mentions_callStatic rfl
      (allows.collaborators _ List.mem_cons_self) _ _ _) fun call => .pure
  · exact .bind (mentions_callStatic rfl
      (allows.collaborators _ List.mem_cons_self) _ _ _) fun call => .pure
  · exact mentions_fromNative_array allows type
  · exact .bind (mentions_require _ _ _) fun handle => .bind (mentions_callStatic rfl
      (allows.collaborators _ (List.mem_cons_of_mem _ List.mem_cons_self)) _ _ _) fun call => .pure

theorem mentions_toNative (allows : config.Allows allowed category)
    (fits : scope.Explains type category) :
    (category.toNative config type slots address value).Mentions (MemberRef.IsOf allowed) := by
  unfold toNative
  split
  · exact .pure
  · exact .pure
  · exact .bind (mentions_require _ _ _) fun width => .bind (mentions_callStatic rfl
      (allows.collaborators _ List.mem_cons_self) _ _ _) fun call => .pure
  · exact .bind (mentions_require _ _ _) fun handle => .bind (mentions_callStatic rfl
      (allows.collaborators _ List.mem_cons_self) _ _ _) fun call => .pure
  · exact .bind (mentions_callStatic rfl
      (allows.collaborators _ (List.mem_cons_of_mem _ List.mem_cons_self)) _ _ _) fun call => .pure
  · exact .bind (mentions_type _) fun token => .pure
  · exact .bind (mentions_callStatic rfl
      (allows.collaborators _ List.mem_cons_self) _ _ _) fun call => .pure
  · rcases fits with ⟨rfl, _⟩
    have partner := allows.partners _ List.mem_cons_self
    exact .bind (mentions_call ⟨⟨_, rfl, partner⟩, .method⟩) fun call => .pure
  · exact .bind (mentions_callStatic rfl
      (allows.collaborators _ List.mem_cons_self) _ _ _) fun call => .pure
  · exact .bind (mentions_callStatic rfl
      (allows.collaborators _ List.mem_cons_self) _ _ _) fun call => .pure
  · exact .bind (mentions_callStatic rfl
      (allows.collaborators _ List.mem_cons_self) _ _ _) fun call => .pure
  · exact .bind (mentions_callStatic rfl
      (allows.collaborators _ List.mem_cons_self) _ _ _) fun call => .pure
  · exact mentions_inconsistent _
  · exact .bind (mentions_require _ _ _) fun handle => .bind (mentions_callStatic rfl
      (allows.collaborators _ (List.mem_cons_of_mem _ List.mem_cons_self)) _ _ _) fun call => .pure

theorem mentions_cleanup (allows : config.Allows allowed category) :
    (category.cleanup config slots address).Mentions (MemberRef.IsOf allowed) := by
  unfold cleanup
  split
  · exact .bind (mentions_require _ _ _) fun handle => .bind (mentions_callStatic rfl
      (allows.collaborators _ List.mem_cons_self) _ _ _) fun call => .pure
  · exact .bind (mentions_callStatic rfl
      (allows.collaborators _ (List.mem_cons_of_mem _ List.mem_cons_self)) _ _ _) fun call => .pure
  · exact .bind (mentions_require _ _ _) fun handle => .bind (mentions_callStatic rfl
      (allows.collaborators _ (List.mem_cons_of_mem _ List.mem_cons_self)) _ _ _) fun call => .pure
  · exact .pure

theorem mentions_defaultInit (allows : config.Allows allowed category) :
    (category.defaultInit config address).Mentions (MemberRef.IsOf allowed) := by
  unfold defaultInit
  split
  · next needed =>
    cases category with
    | text =>
      exact .bind (mentions_callStatic rfl
        (allows.collaborators _ (List.mem_cons_of_mem _ List.mem_cons_self)) _ _ _) fun call => .pure
    | _ => cases needed
  · exact .pure

/-- Elements of a wrapper are left to the wrapper. -/
theorem mentions_newWrapper (allows : config.Allows allowed category) :
    (category.newWrapper config slots address).Mentions (MemberRef.IsOf allowed) := by
  unfold newWrapper
  split
  · exact .bind (mentions_newObject rfl (allows.collaborators _ List.mem_cons_self) _)
      fun create => .pure
  · exact mentions_fromNative_array allows _
  · split
    · exact mentions_inconsistent _
    · exact .bind (mentions_newObject rfl (allows.collaborators _ List.mem_cons_self) _)
        fun create => .pure
  · exact mentions_inconsistent _

theorem mentions_load (allows : config.Allows allowed category)
    (fits : scope.Explains type category) :
    (category.load config type slots address).Mentions (MemberRef.IsOf allowed) := by
  unfold load
  split
  · split
    · exact mentions_inconsistent _
    · exact .bind (mentions_newWrapper allows) fun create => .pure
  · exact mentions_fromNative allows fits

theorem mentions_store (allows : config.Allows allowed category)
    (fits : scope.Explains type category) :
    (category.store config type slots address value).Mentions (MemberRef.IsOf allowed) := by
  unfold store
  split
  · exact mentions_inconsistent _
  · exact mentions_toNative allows fits

end Category

open Emit in
/-- A subobject is created by the native root from the handle of its class. -/
theorem Emit.mentions_subobject {scope : Scope} {config : Config} {allowed : QualifiedName → Prop}
    {type target : Signature} (allows : config.Allows allowed (.subobject target))
    (fits : scope.Explains type (.subobject target)) (nativeName : String)
    (address : NativeAddress) :
    (subobject config target nativeName address).Mentions (MemberRef.IsOf allowed) := by
  rcases fits with ⟨_, name, rfl, _⟩
  refine .bind (mentions_member ⟨⟨_, rfl, allows.root⟩, .method⟩) fun create => ?_
  have partner := allows.partners _ List.mem_cons_self
  refine .bind (mentions_member ⟨⟨_, rfl, partner⟩, .staticField⟩) fun handle => ?_
  refine .bind (mentions_loadString _) fun text => ?_
  exact .bind (mentions_callStatic rfl (allows.collaborators _ List.mem_cons_self) _ _ _)
    fun write => .pure

end NativeWeave
