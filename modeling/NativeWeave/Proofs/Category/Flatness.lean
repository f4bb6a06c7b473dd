import Mathlib
import NativeWeave.Category.Classification

namespace NativeWeave

/-!
# Structs with the same bytes on both sides

A struct of the module at hand has the same bytes on both sides if all of its fields do, and a field
does if its type is a scalar, an enumeration, a struct that another module declares to be so, or
again such a struct of the module at hand.  The least set of structs with this property is what a
walk through fields can find out without going round in circles.
-/

open Relation (TransGen)

/-! ## What an outline says about a declaration -/

namespace Scope

variable {scope : Scope} {type : Signature} {shape : MemberShape}

theorem qualifiedName_of_resolve? {name : QualifiedName} {declared : TypeDef}
    (found : scope.resolve? name = some declared) : declared.qualifiedName = name := by
  unfold resolve? at found
  split at found
  next other inModule =>
    cases found
    exact (Module.mem_of_type? inModule).2
  next =>
    rcases List.exists_of_findSome?_eq_some found with ⟨module, _, inModule⟩
    exact (Module.mem_of_type? inModule).2

/-- A struct in an outline is what its name means. -/
theorem resolve?_of_outline {struct : TypeDef} {owner : QualifiedName}
    (named : scope.outline type shape = .ok (.struct struct owner)) :
    scope.resolve? owner = some struct ∧ struct.kind = .structType := by
  unfold outline primitiveOutline namedOutline genericOutline at named
  repeat' split at named
  all_goals cases named
  exact ⟨‹_›, ‹_›⟩

/-- A type whose declaration settles its category is no struct. -/
theorem ne_struct_of_outline {category : Category}
    (known : scope.outline type shape = .ok (.settled category)) (repr : StructRepr)
    (nativeName : String) (owner : QualifiedName) : category ≠ .struct repr nativeName owner := by
  unfold outline primitiveOutline namedOutline genericOutline at known
  repeat' split at known
  all_goals cases known
  all_goals exact nofun

/-- The type is a struct of the module at hand that is bound field by field. -/
structure BindsFields (scope : Scope) (type : TypeDef) : Prop where
  struct : type.kind = .structType
  home : scope.isLocal type.qualifiedName = true
  annotated : scope.config.isAnnotated type.attributes Annotation.nativeStruct = true
  plain : scope.config.isCoreStruct type.qualifiedName = false

end Scope

/-! ## The least set -/

/-- Values of the type have the same bytes on both sides, provided that the structs of a set
have. -/
inductive Scope.FlatType (scope : Scope) (flat : Set QualifiedName) (type : Signature)
    (shape : MemberShape) : Prop
  | scalar {kind : NativeKind}
    (known : scope.outline type shape = .ok (.settled (.scalar kind)))
  | enumeration {nativeName : String} {owner : QualifiedName}
    (known : scope.outline type shape = .ok (.settled (.enumeration nativeName owner)))
  | foreign {struct : TypeDef} {owner : QualifiedName}
    (named : scope.outline type shape = .ok (.struct struct owner))
    (abroad : scope.isLocal struct.qualifiedName = false)
    (plain : scope.config.isCoreStruct struct.qualifiedName = false)
    (blittable : scope.foreignRepr? struct = some .blittable)
  | struct {struct : TypeDef} {owner : QualifiedName}
    (named : scope.outline type shape = .ok (.struct struct owner))
    (member : struct.qualifiedName ∈ flat)

namespace Scope

variable {scope : Scope} {type : Signature} {shape : MemberShape} {flat larger : Set QualifiedName}
  {name part whole : QualifiedName} {struct : TypeDef}

theorem FlatType.mono (flatType : scope.FlatType flat type shape) (included : flat ⊆ larger) :
    scope.FlatType larger type shape := by
  cases flatType with
  | scalar known => exact .scalar known
  | enumeration known => exact .enumeration known
  | foreign named abroad plain blittable => exact .foreign named abroad plain blittable
  | struct named member => exact .struct named (included member)

/-- The field is exposed and has the same bytes on both sides, provided that the structs of a set
have. -/
def FlatField (scope : Scope) (flat : Set QualifiedName) (field : Field) : Prop :=
  ∃ attr, scope.config.findAnnotation? field.attributes Annotation.nativeProperty = some attr ∧
    scope.FlatType flat field.type attr.shape

/-- The structs of the module whose fields are flat, provided that the structs of a set are. -/
def flatStep (scope : Scope) : Set QualifiedName →o Set QualifiedName where
  toFun flat := {name | ∃ type, scope.resolve? name = some type ∧ scope.BindsFields type ∧
    ∀ field ∈ type.instanceFields, scope.FlatField flat field}
  monotone' := by
    rintro flat larger included name ⟨type, resolved, own, fields⟩
    refine ⟨type, resolved, own, fun field member => ?_⟩
    rcases fields field member with ⟨attr, exposed, flatType⟩
    exact ⟨attr, exposed, flatType.mono included⟩

/-- The least set of structs all of whose fields are flat. -/
def flatStructs (scope : Scope) : Set QualifiedName :=
  OrderHom.lfp scope.flatStep

theorem mem_flatStructs_iff : name ∈ scope.flatStructs ↔
    ∃ type, scope.resolve? name = some type ∧ scope.BindsFields type ∧
      ∀ field ∈ type.instanceFields, scope.FlatField scope.flatStructs field := by
  change name ∈ OrderHom.lfp scope.flatStep ↔ name ∈ scope.flatStep (OrderHom.lfp scope.flatStep)
  rw [OrderHom.map_lfp]

/-- A struct is flat exactly if its fields are. -/
theorem qualifiedName_mem_flatStructs_iff
    (resolved : scope.resolve? struct.qualifiedName = some struct)
    (own : scope.BindsFields struct) : struct.qualifiedName ∈ scope.flatStructs ↔
      ∀ field ∈ struct.instanceFields, scope.FlatField scope.flatStructs field := by
  rw [mem_flatStructs_iff]
  constructor
  · rintro ⟨other, found, _, fields⟩
    cases resolved.symm.trans found
    exact fields
  · intro fields
    exact ⟨struct, resolved, own, fields⟩

/-! ## No flat struct lies inside itself -/

/-- An exposed field of `whole` has the struct `part` of the module at hand as its type. -/
def Embeds (scope : Scope) (part whole : QualifiedName) : Prop :=
  ∃ type, scope.resolve? whole = some type ∧ ∃ field ∈ type.instanceFields, ∃ attr,
    scope.config.findAnnotation? field.attributes Annotation.nativeProperty = some attr ∧
    ∃ struct owner, scope.outline field.type attr.shape = .ok (.struct struct owner) ∧
      struct.qualifiedName = part ∧ scope.isLocal part = true

/-- A struct inside a struct that is flat over a set belongs to the set. -/
theorem Embeds.mem (embeds : scope.Embeds part whole) (member : whole ∈ scope.flatStep flat) :
    part ∈ flat := by
  rcases embeds with ⟨type, resolved, field, inside, attr, exposed, struct, owner, named, rfl, home⟩
  rcases member with ⟨other, found, _, fields⟩
  cases resolved.symm.trans found
  rcases fields field inside with ⟨same, found, flatType⟩
  cases exposed.symm.trans found
  cases flatType with
  | scalar known => cases named.symm.trans known
  | enumeration known => cases named.symm.trans known
  | foreign otherwise abroad _ _ =>
    cases named.symm.trans otherwise
    rw [home] at abroad
    cases abroad
  | struct otherwise member =>
    cases named.symm.trans otherwise
    exact member

theorem mem_flatStructs_of_embeds (embeds : TransGen scope.Embeds part whole)
    (member : whole ∈ scope.flatStructs) : part ∈ scope.flatStructs := by
  have inside : ∀ {part whole}, scope.Embeds part whole → whole ∈ scope.flatStructs →
      part ∈ scope.flatStructs := fun step holds => step.mem (mem_flatStructs_iff.mp holds)
  induction embeds with
  | single step => exact inside step member
  | tail _ step ih => exact ih (inside step member)

/-- Going from a flat struct to structs inside it comes to an end. -/
theorem acc_of_mem_flatStructs (member : name ∈ scope.flatStructs) : Acc scope.Embeds name := by
  have closed : scope.flatStep {name | Acc scope.Embeds name} ≤ {name | Acc scope.Embeds name} :=
    fun whole holds => Acc.intro whole fun part embeds => embeds.mem holds
  exact OrderHom.lfp_le scope.flatStep closed member

theorem not_embeds_itself (member : name ∈ scope.flatStructs) :
    ¬ TransGen scope.Embeds name name := by
  induction (acc_of_mem_flatStructs member).transGen with
  | intro name _ ih => exact fun round => ih name round member round

end Scope

end NativeWeave
