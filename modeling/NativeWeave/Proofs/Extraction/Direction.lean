import NativeWeave.Proofs.Extraction.Complete
import NativeWeave.Proofs.Flags

namespace NativeWeave

/-!
# Directions of parameters

The flags of a parameter say in which direction it is handed over.  They are set from the
declaration, but the annotations of the parameter give flags too, so what is extracted agrees with the
declaration exactly if no annotation contradicts it.
-/

namespace Scope

variable {scope : Scope} {owner : TypeDef} {method : Method} {parameter : Parameter}
  {value : MemberBinding} {place : Nat}

theorem BindsParameter.origin (binds : scope.BindsParameter owner method (parameter, place) value) :
    value.origin = .parameter place := by
  rcases binds with ⟨_, ⟨_, _, _, rfl⟩, rfl⟩
  rfl

theorem BindsParameter.type (binds : scope.BindsParameter owner method (parameter, place) value) :
    value.type = parameter.type := by
  rcases binds with ⟨_, ⟨_, _, _, rfl⟩, rfl⟩
  rfl

theorem BindsParameter.flags (binds : scope.BindsParameter owner method (parameter, place) value) :
    value.flags = (scope.config.propertyFlags parameter.attributes).insertAll
      (directionOf parameter) := by
  rcases binds with ⟨_, ⟨_, _, _, rfl⟩, rfl⟩
  rfl

end Scope

/-- In which direction a parameter is handed over. -/
structure Direction where
  /-- The value that it has after the call is handed back. -/
  isByRef : Bool
  /-- The value that it has before the call is handed over. -/
  isInput : Bool
deriving DecidableEq, Repr

/-- What a declaration says about the direction. -/
def Parameter.direction (parameter : Parameter) : Direction :=
  ⟨parameter.type.isByRef, !parameter.isOut⟩

/-- What is extracted about the direction. -/
def MemberBinding.direction (value : MemberBinding) : Direction :=
  ⟨value.isByRef, value.isInput⟩

/-- The annotations of a parameter give no flags for a direction that it has not. -/
structure Config.Respects (config : Config) (parameter : Parameter) : Prop where
  reference : parameter.type.isByRef = false → ∀ attr ∈ parameter.attributes,
    ¬ config.Gives attr .outParameter ∧ ¬ config.Gives attr .referenceParameter
  output : parameter.isOut = false → ∀ attr ∈ parameter.attributes,
    ¬ config.Gives attr .outParameter ∧ ¬ config.Gives attr .returnParameter

namespace Scope

variable {scope : Scope} {owner : TypeDef} {method : Method} {parameter : Parameter}
  {value : MemberBinding} {place : Nat}

/-- A parameter has a flag if its declaration sets it or one of its annotations gives it. -/
theorem BindsParameter.has_flags
    (binds : scope.BindsParameter owner method (parameter, place) value) {flag : PropertyFlag} :
    value.flags.has flag = true ↔
      (∃ attr ∈ parameter.attributes, scope.config.Gives attr flag) ∨
        flag ∈ directionOf parameter := by
  rw [binds.flags, PropertyFlags.has_insertAll, Config.has_propertyFlags]

/-- The value of a parameter is written back if its type or one of its annotations says so. -/
theorem BindsParameter.isByRef_iff
    (binds : scope.BindsParameter owner method (parameter, place) value)
    (out : parameter.isOut = true → parameter.type.isByRef = true) :
    value.isByRef = true ↔ parameter.type.isByRef = true ∨
      ∃ attr ∈ parameter.attributes,
        scope.config.Gives attr .outParameter ∨ scope.config.Gives attr .referenceParameter := by
  have flags : value.isByRef = true ↔
      value.flags.has .outParameter = true ∨ value.flags.has .referenceParameter = true := by
    simp [MemberBinding.isByRef, FlagSet.hasAny]
  rw [flags, binds.has_flags, binds.has_flags, directionOf]
  cases outward : parameter.isOut with
  | true => simp [out outward]
  | false =>
    cases parameter.type.isByRef with
    | true => simp
    | false =>
      simp only [Bool.false_eq_true, if_false, List.mem_singleton, reduceCtorEq, or_false, false_or,
        and_or_left, exists_or]

/-- The value of a parameter is handed over unless the parameter only comes out or one of its
annotations says so. -/
theorem BindsParameter.isInput_iff
    (binds : scope.BindsParameter owner method (parameter, place) value) :
    value.isInput = true ↔ parameter.isOut = false ∧
      ∀ attr ∈ parameter.attributes,
        ¬ scope.config.Gives attr .outParameter ∧ ¬ scope.config.Gives attr .returnParameter := by
  have flags : value.isInput = true ↔
      ¬ (value.flags.has .outParameter = true ∨ value.flags.has .returnParameter = true) := by
    simp [MemberBinding.isInput, FlagSet.hasAny]
  rw [flags, binds.has_flags, binds.has_flags, directionOf]
  cases parameter.isOut with
  | true => simp
  | false =>
    cases parameter.type.isByRef <;> simp [not_or, forall_and]

/-- What is extracted agrees with the declaration of a parameter exactly if its annotations do. -/
theorem BindsParameter.direction_eq_iff
    (binds : scope.BindsParameter owner method (parameter, place) value)
    (out : parameter.isOut = true → parameter.type.isByRef = true) :
    value.direction = parameter.direction ↔ scope.config.Respects parameter := by
  have byRef := binds.isByRef_iff out
  have input := binds.isInput_iff
  constructor
  · intro same
    rcases Direction.mk.inj same with ⟨sameReference, sameOutput⟩
    refine ⟨fun byValue attr listed => ?_, fun inward attr listed => ?_⟩
    · rw [sameReference, byValue] at byRef
      have free : ¬ (scope.config.Gives attr .outParameter ∨
          scope.config.Gives attr .referenceParameter) :=
        fun gives => Bool.false_ne_true (byRef.mpr (.inr ⟨attr, listed, gives⟩))
      exact not_or.mp free
    · rw [sameOutput, inward] at input
      exact (input.mp rfl).2 attr listed
  · intro respects
    refine congrArg₂ Direction.mk ?_ ?_
    · rw [Bool.eq_iff_iff, byRef]
      refine or_iff_left_of_imp ?_
      rintro ⟨attr, listed, gives⟩
      by_contra byValue
      have free := respects.reference (eq_false_of_ne_true byValue) attr listed
      exact gives.elim free.1 free.2
    · rw [Bool.eq_iff_iff, input, Bool.not_eq_true']
      exact and_iff_left_of_imp respects.output

end Scope

end NativeWeave
