import NativeWeave.Flags

namespace NativeWeave

/-!
# Sets of flags

Each flag has a bit of its own, so a flag is in a set to which others were added exactly if it was
there before or is one of them.  It follows which annotations give a member a flag.
-/

namespace FlagSet

variable {Flag : Type} [FlagKind Flag] {first second flags : FlagSet Flag} {flag added : Flag}

/-- The number of the bit that stands for a flag. -/
def place (flag : Flag) : Nat :=
  (FlagKind.position flag).toNat % 64

theorem getLsbD_mask (index : Nat) :
    (mask flag).toBitVec.getLsbD index = decide (index = place flag) := by
  have small : place flag < 64 := Nat.mod_lt _ (by decide)
  have shifted : (mask flag).toBitVec = 1#64 <<< place flag := by
    rw [mask, UInt64.toBitVec_shiftLeft]
    rfl
  rw [shifted, BitVec.getLsbD_shiftLeft, BitVec.getLsbD_one]
  by_cases here : index = place flag
  · simp [here, small]
  · simp only [here, decide_false, Bool.and_eq_false_imp, Bool.and_eq_true, decide_eq_true_eq,
      Bool.not_eq_true', decide_eq_false_iff_not]
    omega

/-- A flag is in a set exactly if its bit is set. -/
theorem has_eq_getLsbD : flags.has flag = flags.bits.toBitVec.getLsbD (place flag) := by
  have same : flags.has flag = true ↔ flags.bits.toBitVec.getLsbD (place flag) = true := by
    rw [has, beq_iff_eq, ← UInt64.toBitVec_inj, UInt64.toBitVec_and]
    constructor
    · intro bits
      have here := congrArg (·.getLsbD (place flag)) bits
      simpa [getLsbD_mask] using here
    · intro bit
      apply BitVec.eq_of_getLsbD_eq
      intro index _
      rw [BitVec.getLsbD_and, getLsbD_mask]
      by_cases here : index = place flag
      · simp [here, bit]
      · simp [here]
  exact Bool.eq_iff_iff.mpr same

theorem has_empty : ({} : FlagSet Flag).has flag = false := by
  rw [has_eq_getLsbD]
  exact BitVec.getLsbD_zero

@[simp]
theorem has_union : (first.union second).has flag = (first.has flag || second.has flag) := by
  simp only [has_eq_getLsbD, union, UInt64.toBitVec_or, BitVec.getLsbD_or]

theorem has_insert_eq :
    (flags.insert added).has flag = (flags.has flag || decide (place flag = place added)) := by
  simp only [has_eq_getLsbD, insert, UInt64.toBitVec_or, BitVec.getLsbD_or, getLsbD_mask]

/-- A flag is in a set to which others were added exactly if it was there or shares the bit of one of
them. -/
theorem has_insertAll_iff {candidates : List Flag} :
    (flags.insertAll candidates).has flag = true ↔
      flags.has flag = true ∨ ∃ candidate ∈ candidates, place flag = place candidate := by
  induction candidates generalizing flags with
  | nil => simp [insertAll]
  | cons next more ih =>
    change ((flags.insert next).insertAll more).has flag = true ↔ _
    rw [ih, has_insert_eq, Bool.or_eq_true, decide_eq_true_iff, or_assoc]
    simp only [List.mem_cons, exists_eq_or_imp]

theorem has_insertAll {candidates : List Flag} (inside : flag ∈ candidates) :
    (flags.insertAll candidates).has flag = true :=
  has_insertAll_iff.mpr (.inr ⟨flag, inside, rfl⟩)

end FlagSet

/-! ## Flags of members -/

namespace PropertyFlag

/-- The place of a flag among all flags is the number of its bit. -/
theorem all_place (flag : PropertyFlag) :
    (FlagKind.all : List PropertyFlag)[FlagSet.place flag]? = some flag := by
  cases flag <;> rfl

theorem place_inj {first second : PropertyFlag} :
    FlagSet.place first = FlagSet.place second ↔ first = second := by
  constructor
  · intro same
    have listed := all_place first
    rw [same, all_place second] at listed
    exact (Option.some.inj listed).symm
  · exact congrArg _

end PropertyFlag

namespace PropertyFlags

variable {flags : PropertyFlags} {flag : PropertyFlag} {candidates : List PropertyFlag}

@[simp]
theorem has_insertAll : (flags.insertAll candidates).has flag = true ↔
    flags.has flag = true ∨ flag ∈ candidates := by
  simp [FlagSet.has_insertAll_iff, PropertyFlag.place_inj]

@[simp]
theorem has_insertWhen {condition : Bool} : (flags.insertWhen condition candidates).has flag = true ↔
    flags.has flag = true ∨ condition = true ∧ flag ∈ candidates := by
  unfold FlagSet.insertWhen
  cases condition <;> simp

end PropertyFlags

/-- The annotation names a method that is told of changes. -/
def Attribute.NamesListener (attr : Attribute) : Prop :=
  (Config.nonEmptyText? attr Annotation.replicatedUsingArgument).isSome = true

instance {attr : Attribute} : Decidable attr.NamesListener :=
  inferInstanceAs (Decidable (_ = true))

namespace Config

variable {config : Config} {attr : Attribute} {attributes : List Attribute} {flags : PropertyFlags}
  {flag : PropertyFlag}

/-- The annotation gives a member a flag.  A property annotation gives those in its word, those of
replication if it names a method for notification, and those of ownership if it asks for a subobject;
another annotation gives the flag that it is named for. -/
def Gives (config : Config) (attr : Attribute) (flag : PropertyFlag) : Prop :=
  if attr.isNamed (config.annotationName Annotation.nativeProperty) then
    FlagSet.has ⟨attr.flagBits⟩ flag = true ∨
      attr.NamesListener ∧ flag ∈ [.replicated, .repNotify] ∨
      attr.isTrue Annotation.subobjectArgument = true ∧ flag ∈ [.exported, .instanced]
  else
    flag ∈ PropertyFlag.annotated ∧ attr.isNamed (config.annotationName flag.label) = true

theorem has_addPropertyFlags : (config.addPropertyFlags flags attr).has flag = true ↔
    flags.has flag = true ∨ config.Gives attr flag := by
  unfold addPropertyFlags Gives Attribute.NamesListener
  split <;> simp [or_assoc]

/-- A member has the flags that its annotations give. -/
theorem has_propertyFlags : (config.propertyFlags attributes).has flag = true ↔
    ∃ attr ∈ attributes, config.Gives attr flag := by
  have folded : ∀ start : PropertyFlags,
      (attributes.foldl config.addPropertyFlags start).has flag = true ↔
        start.has flag = true ∨ ∃ attr ∈ attributes, config.Gives attr flag := by
    induction attributes with
    | nil => simp
    | cons attr more ih =>
      intro start
      rw [List.foldl_cons, ih, has_addPropertyFlags, or_assoc]
      simp only [List.mem_cons, exists_eq_or_imp]
  rw [propertyFlags, folded, FlagSet.has_empty]
  simp

end Config

end NativeWeave
