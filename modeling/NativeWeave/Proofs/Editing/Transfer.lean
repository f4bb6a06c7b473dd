import NativeWeave.Proofs.Category.MutualReference
import NativeWeave.Proofs.Category.Outlined
import NativeWeave.Proofs.Editing.Accessors
import NativeWeave.Proofs.Editing.Failures
import NativeWeave.Proofs.Marshalling.Balance
import NativeWeave.Proofs.Marshalling.Failures

namespace NativeWeave

/-!
# Code for every category

Values of a category are read, written, created and released by code that relies on slots.  Whatever
the category is, the slots that are made for it are all that its code relies on: the code can be
generated, and it delivers what it is to deliver.  What cannot be generated is the writing of values
that are changed in place only.
-/

/-! ## Types with values -/

namespace Scope

variable {scope : Scope}

/-- Classification gives the type a category, whatever else was asked before. -/
def Accepts (scope : Scope) (type : Signature) : Prop :=
  ∃ queries shape category, (scope.classify type shape (scope.remembered queries)).1 = .ok category

theorem accepts_of_categoryOf {type : Signature} {shape : MemberShape} {category : Category}
    (answer : scope.categoryOf type shape = .ok category) : scope.Accepts type := by
  have sound : ({} : Memory).Sound scope := faithful_empty.sound
  rcases exists_classify sound type shape with ⟨later, run, _⟩
  refine ⟨[], shape, category, ?_⟩
  change (scope.classify type shape {}).1 = _
  rw [run]
  exact answer

theorem not_outline_void {shape : MemberShape} {outline : Outline} :
    scope.outline .void shape ≠ .ok outline := by
  intro found
  unfold Scope.outline at found
  split at found <;> cases found

theorem outlined_valued : scope.Outlined fun type _ _ => type.isVoid = false := by
  have valued : ∀ {type shape outline}, scope.outline type shape = .ok outline →
      type.isVoid = false := by
    rintro type shape outline found
    refine decide_eq_false fun void => ?_
    rw [void] at found
    exact not_outline_void found
  exact ⟨valued, fun found _ _ => valued found, fun found _ _ => valued found,
    fun found _ _ => valued found⟩

/-- There are values of every type that has a category. -/
theorem Accepts.isVoid {type : Signature} (accepted : scope.Accepts type) : type.isVoid = false := by
  rcases accepted with ⟨queries, shape, category, answer⟩
  exact (outlined_valued.classify type shape _ (outlined_valued.remembered queries)).1 _ answer

end Scope

open Emit

/-! ## Slots -/

theorem leaves_memberSlots_holds (owner : Signature) (base : String) (category : Category) :
    (memberSlots owner base category).Leaves fun tables slots =>
      ∀ frame : Frame, frame.tables = tables → frame.Holds slots.value := by
  have static : ∀ {tables : Tables} {token : UInt32} {name : String} {type : Signature},
      tables.member? token = some (.staticField owner name type) →
        ∀ frame : Frame, frame.tables = tables → frame.OperandFits (.loadStatic token) := by
    rintro _ token name type means frame rfl
    exact ⟨_, means, _, rfl⟩
  unfold memberSlots
  refine .bind (ClassSite.leaves_staticSlot _ _ _) fun offset => ?_
  refine .bind (ClassSite.leaves_optionalSlot _ _ _ _) fun handle => ?_
  refine .bind (ClassSite.leaves_optionalSlot _ _ _ _) fun elementSize => ?_
  refine .bind (ClassSite.leaves_optionalSlot _ _ _ _) fun width => ?_
  refine .pure fun tables fourth third second first frame same => ?_
  exact ⟨static first frame same, fun token kept => static (second token kept).2 frame same,
    fun token kept => static (third token kept).2 frame same,
    fun token kept => static (fourth token kept).2 frame same⟩

theorem ClassSite.leaves_wrapperSlot_fits (site : ClassSite) (property : String)
    (category : Category) :
    (site.wrapperSlot property category).Leaves fun tables wrapper => ∀ frame : Frame,
      frame.tables = tables → ∀ field ∈ wrapper.value, frame.OperandFits (.loadField field) := by
  unfold wrapperSlot
  split
  · refine .pure fun tables frame same field impossible => ?_
    cases impossible
  · refine .bind (leaves_member _) fun token => .pure fun tables means frame same field kept => ?_
    cases kept
    subst same
    exact ⟨_, means, _, rfl⟩

theorem yieldsBare_memberSlots {owner : Signature} {base : String} {category : Category} :
    (memberSlots owner base category).Yields fun slots => slots.value.wrapper = none := by
  unfold memberSlots
  exact .after fun offset => .after fun handle => .after fun elementSize => .after fun width =>
    .pure rfl

/-- The slots are made for values of a category, and with a field for the wrapper if the values are
those of a property. -/
inductive MemberSlots.MadeFor (category : Category) : (slots : MemberSlots) → (property : Bool) →
    (after : Tables) → Prop
  | value {owner : Signature} {base : String} {before after : Tables} {planned : Planned MemberSlots}
      (made : memberSlots owner base category before = .ok (planned, after)) :
      MadeFor category planned.value false after
  | property {site : ClassSite} {base : String} {before middle after : Tables}
      {planned : Planned MemberSlots} {wrapper : Planned (Option UInt32)}
      (made : memberSlots site.owner base category before = .ok (planned, middle))
      (kept : site.wrapperSlot base category middle = .ok (wrapper, after)) :
      MadeFor category { planned.value with wrapper := wrapper.value } true after

namespace MemberSlots.MadeFor

variable {category : Category} {slots : MemberSlots} {property : Bool} {after : Tables}

theorem fit (made : slots.MadeFor category property after) : slots.Fit category := by
  cases made with
  | value made => exact yieldsFit_memberSlots _ _ _ made
  | property made kept =>
    have fit := yieldsFit_memberSlots _ _ _ made
    exact ⟨fit.handle, fit.elementSize, fit.width⟩

theorem wrapper_isSome (made : slots.MadeFor category true after)
    (wrapped : category.needsWrapperField = true) : slots.wrapper.isSome = true := by
  cases made with
  | property made kept => exact ClassSite.yieldsPresent_wrapperSlot _ _ _ kept wrapped

/-- In later tables all slots mean what they were made for. -/
theorem holds (made : slots.MadeFor category property after) {frame : Frame}
    (grows : after.Grows frame.tables) (indexed : frame.tables.Indexed) :
    frame.Holds slots ∧ ∀ field ∈ slots.wrapper, frame.OperandFits (.loadField field) := by
  cases made with
  | value made =>
    refine ⟨leaves_memberSlots_holds _ _ _ _ _ _ made _ grows indexed frame rfl, ?_⟩
    rw [yieldsBare_memberSlots _ _ _ made]
    exact fun field impossible => nomatch impossible
  | property made kept =>
    have within := (Grows.grows kept).trans grows
    have holds := leaves_memberSlots_holds _ _ _ _ _ _ made _ within indexed frame rfl
    exact ⟨⟨holds.offset, holds.handle, holds.elementSize, holds.width⟩,
      ClassSite.leaves_wrapperSlot_fits _ _ _ _ _ _ kept _ grows indexed frame rfl⟩

end MemberSlots.MadeFor

/-! ## Transfers -/

/-- What there may be code for: moving a value of a category, making one, or releasing one. -/
inductive Transfer
  /-- Read a property of the receiver. -/
  | load
  /-- Write a property of the receiver. -/
  | store (value : ValueSource)
  | fromNative
  | toNative (value : ValueSource)
  | cleanup
  | defaultInit
  | subobject (target : Signature) (nativeName : String)

namespace Transfer

/-- Generate the code. -/
def emit (config : Config) (category : Category) (type : Signature) (slots : MemberSlots)
    (address : NativeAddress) : Transfer → Emit Fragment
  | load => category.load config type slots address
  | store value => category.store config type slots address value
  | fromNative => category.fromNative config type slots address
  | toNative value => category.toNative config type slots address value
  | cleanup => category.cleanup config slots address
  | defaultInit => category.defaultInit config address
  | subobject target nativeName => Emit.subobject config target nativeName address

/-- How many values the code leaves on the stack. -/
def gain : Transfer → Nat
  | load | fromNative => 1
  | store _ | toNative _ | cleanup | defaultInit | subobject _ _ => 0

/-- What is not written as a whole has no code for that. -/
def isRefused (category : Category) : Transfer → Bool
  | store _ => category.suppressesSetter
  | toNative _ => category.isArray
  | load | fromNative | cleanup | defaultInit | subobject _ _ => false

/-- The frame has the receiver or the value that the code takes from it. -/
def Serves (frame : Frame) : Transfer → Prop
  | load | subobject _ _ => 0 < frame.arguments
  | store value | toNative value => frame.Has value
  | fromNative | cleanup | defaultInit => True

variable {config : Config} {category : Category} {type : Signature} {slots : MemberSlots}
  {address : NativeAddress} {transfer : Transfer}

instance grows_emit : (transfer.emit config category type slots address).Grows := by
  cases transfer <;> (unfold emit; infer_instance)

instance faultsOnly_emit : FaultsOnly (transfer.emit config category type slots address) := by
  cases transfer <;> (unfold emit; infer_instance)

theorem safe_emit (fit : slots.Fit category)
    (wrapper : transfer = .load → category.needsWrapperField = true → slots.wrapper.isSome = true)
    (accepted : transfer.isRefused category = false) :
    (transfer.emit config category type slots address).Safe := by
  cases transfer with
  | load => exact Category.safe_load fit (wrapper rfl)
  | store value => exact Category.safe_store fit accepted
  | fromNative => exact Category.safe_fromNative fit
  | toNative value => exact Category.safe_toNative fit accepted
  | cleanup => exact Category.safe_cleanup fit
  | defaultInit => exact Category.safe_defaultInit
  | subobject target nativeName => exact Emit.safe_subobject config target nativeName address

/-- Wherever it is started, the code runs to its end with the values that it is to leave. -/
theorem leaves_emit (valued : type.isVoid = false) :
    (transfer.emit config category type slots address).Leaves fun tables code =>
      ∀ frame : Frame, frame.tables = tables → frame.Holds slots → frame.Reaches address →
        (∀ field ∈ slots.wrapper, frame.OperandFits (.loadField field)) → transfer.Serves frame →
        ∀ depth ≤ 1000, frame.Runs code depth (depth + transfer.gain) := by
  cases transfer with
  | load =>
    refine (Category.leaves_load valued).mono fun tables code runs => ?_
    exact fun frame same holds reaches wrapper received =>
      runs frame same holds reaches received wrapper
  | store value =>
    refine Category.leaves_store.mono fun tables code writing => ?_
    exact fun frame same holds reaches _ has depth room =>
      (writing frame same holds reaches has depth room).runs
  | fromNative =>
    refine (Category.leaves_fromNative valued).mono fun tables code reading => ?_
    exact fun frame same holds reaches _ _ depth room =>
      (reading frame same holds reaches depth room).runs
  | toNative value =>
    refine Category.leaves_toNative.mono fun tables code writing => ?_
    exact fun frame same holds reaches _ has depth room =>
      (writing frame same holds reaches has depth room).runs
  | cleanup =>
    refine Category.leaves_cleanup.mono fun tables code tending => ?_
    exact fun frame same holds reaches _ _ depth room =>
      (tending frame same holds reaches depth room).runs
  | defaultInit =>
    have tended : (category.defaultInit config address).Leaves
        (Category.Tending slots address) := Category.leaves_defaultInit
    refine tended.mono fun tables code tending => ?_
    exact fun frame same holds reaches _ _ depth room =>
      (tending frame same holds reaches depth room).runs
  | subobject target nativeName =>
    refine Emit.leaves_subobject.mono fun tables code moves => ?_
    exact fun frame same _ reaches _ received depth room =>
      (moves frame same reaches received depth room).runs

theorem exists_emit_of_refused (refused : transfer.isRefused category = true) (before : Tables) :
    ∃ reason, transfer.emit config category type slots address before =
      .error (.inconsistent reason) := by
  cases transfer with
  | store value =>
    have suppressed : category.suppressesSetter = true := refused
    refine ⟨s!"category {category.label} is only mutated through its wrapper", ?_⟩
    change category.store config type slots address value before = _
    rw [Category.store, if_pos suppressed]
    rfl
  | toNative value =>
    cases category with
    | array inner element dim => exact ⟨_, rfl⟩
    | _ => cases refused
  | _ => cases refused

/-- Code for a category is refused where values are changed in place only.  Otherwise it is generated,
and delivers what it is to deliver in every frame in which the slots are found and which has the
address. -/
theorem exists_emit_delivers {scope : Scope} {property : Bool} {made before : Tables}
    (accepted : scope.Accepts type) (slotted : slots.MadeFor category property made)
    (received : transfer = .load → property = true) (later : made.Grows before) :
    if transfer.isRefused category then
      ∃ reason, transfer.emit config category type slots address before =
        .error (.inconsistent reason)
    else
      ∃ code after, transfer.emit config category type slots address before = .ok (code, after) ∧
        ∀ frame : Frame, after.Grows frame.tables → frame.tables.Indexed →
          frame.Has address.base → (∀ offset ∈ address.offset, offset = slots.offset) →
          transfer.Serves frame → frame.Delivers code transfer.gain := by
  split
  · next refused => exact exists_emit_of_refused refused before
  · next accepts =>
    have wrapper : transfer = .load → category.needsWrapperField = true →
        slots.wrapper.isSome = true := by
      intro reads wrapped
      cases received reads
      exact slotted.wrapper_isSome wrapped
    have safe : (transfer.emit config category type slots address).Safe :=
      safe_emit slotted.fit wrapper (Bool.eq_false_iff.mpr accepts)
    rcases exists_ok safe before with ⟨code, after, run⟩
    refine ⟨code, after, run, fun frame grows indexed has offset serves => ?_⟩
    have grown : before.Grows after := Grows.grows run
    rcases slotted.holds (later.trans (grown.trans grows)) indexed with ⟨holds, kept⟩
    have reaches : frame.Reaches address :=
      ⟨has, fun slot found => offset slot found ▸ holds.offset⟩
    have runs := leaves_emit accepted.isVoid _ _ _ run _ grows indexed frame rfl holds reaches kept
      serves
    have shallow := runs 0 (Nat.zero_le _)
    rw [Nat.zero_add] at shallow
    exact shallow.delivers (runs 1000 (Nat.le_refl _))

end Transfer

/-! ## A list that is read for the first time -/

namespace Album

def type : TypeDef where
  name := "Album"
  namespaceName := "Game"

def scope : Scope :=
  ⟨{}, { Module.empty "Game" with types := [type] }⟩

def site : ClassSite where
  config := scope.config
  source := scope.module
  type := type
  binding := { name := ⟨"Game", "Album"⟩, nativeName := "Album", type := 0 }
  classPtr := 0

/-- The type of a property: a list of numbers. -/
def pages : Signature :=
  .generic listInterface [.i32]

def category : Category :=
  .list (.scalar .i32) .i32

theorem accepts_pages : scope.Accepts pages := by
  have element : scope.categoryOf .i32 {} = .ok (.scalar .i32) := by
    rw [Scope.categoryOf_eq]
    rfl
  have answer : scope.categoryOf pages {} = .ok category := by
    rw [Scope.categoryOf_eq]
    change Scope.containerOf pages (.list · .i32) (scope.categoryOf .i32 {}) = _
    rw [element]
    rfl
  exact Scope.accepts_of_categoryOf answer

/-- The slots of the property. -/
def slots : MemberSlots where
  offset := 0
  handle := some 1
  wrapper := some 2

def references : List MemberRef := [
  .staticField site.owner (Naming.offsetSlot "Pages") .i32,
  .staticField site.owner (Naming.handleSlot "Pages") .intPtr,
  .field site.owner (Naming.wrapperField "Pages") (scope.config.runtimeGeneric .nativeList .i32)]

theorem madeFor_slots : slots.MadeFor category true { members := references } :=
  @MemberSlots.MadeFor.property category site "Pages" {} { members := references.take 2 } _
    ⟨{ slots with wrapper := none }, _⟩ ⟨some 2, _⟩ rfl rfl

end Album

namespace Transfer

theorem exists_emit_delivers_album :
    Album.scope.Accepts Album.pages ∧
      Album.slots.MadeFor Album.category true { members := Album.references } ∧
      ∃ code after, Transfer.load.emit {} Album.category Album.pages Album.slots
          ⟨.argument 1, some 0⟩ { members := Album.references } = .ok (code, after) ∧
        (⟨after, 2, 0, true⟩ : Frame).Delivers code 1 := by
  refine ⟨Album.accepts_pages, Album.madeFor_slots, ?_⟩
  have result := @exists_emit_delivers {} Album.category Album.pages Album.slots
    ⟨.argument 1, some 0⟩ .load Album.scope true _ _ Album.accepts_pages Album.madeFor_slots
    (fun _ => rfl) (.refl _)
  rw [if_neg (by decide)] at result
  rcases result with ⟨code, after, run, delivers⟩
  have indexed : after.Indexed := by
    cases run
    exact Nat.le_of_ble_eq_true rfl
  exact ⟨code, after, run, delivers ⟨after, 2, 0, true⟩ (.refl _) indexed (Nat.lt_succ_self 1)
    (fun offset same => (Option.some.inj same).symm) (Nat.succ_pos 1)⟩

end Transfer

end NativeWeave
