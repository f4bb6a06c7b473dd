import NativeWeave.Proofs.Binding.Observation
import NativeWeave.Proofs.Extraction.Direction

namespace NativeWeave

/-!
# Notification of changes

A member whose flags ask for notification of changes should have a listener, which is a method of its
type.  The rule looks for the method that the first property annotation names, while any annotation can
give the flag.  So a listener is sure to be there exactly if no annotation gives the flag, or the first
property annotation names a method.
-/

/-- A method of the owner listens to changes of the member. -/
def MemberBinding.HasListener (owner : TypeDef) (member : MemberBinding) : Prop :=
  ∃ method ∈ owner.methods, member.repNotify = some method.name ∧ method.name ≠ "" ∧
    method.isStatic = false ∧
      (method.parameterTypes = [] ∨ method.parameterTypes = [member.type])

/-- If any annotation gives the flag for notification, the first property annotation names a
method. -/
def Config.BacksNotification (config : Config) (attributes : List Attribute) : Prop :=
  (∃ attr ∈ attributes, config.Gives attr .repNotify) →
    ∃ attr, config.findAnnotation? attributes Annotation.nativeProperty = some attr ∧
      attr.NamesListener

/-- The annotations of each member that the binding of a type has. -/
def TypeBinding.declaredAttributes (scope : Scope) (type : TypeDef) :
    TypeBinding → List (List Attribute)
  | ofClass _ => (scope.annotatedProperties type).map (·.1.attributes)
  | ofStruct _ => (scope.annotatedFields type).map (·.1.attributes)
  | ofEnum _ => []

theorem Attribute.namesListener_iff {attr : Attribute} : attr.NamesListener ↔
    ∃ name, attr.text? Annotation.replicatedUsingArgument = some name ∧ name ≠ "" := by
  simp only [NamesListener, Config.nonEmptyText?, text?, Option.isSome_iff_exists,
    Option.filter_eq_some_iff, Bool.not_eq_true', String.isEmpty_eq_false_iff]

namespace MemberBinding

variable {scope : Scope} {declaration : MemberDeclaration} {member : MemberBinding}
  {owner : TypeDef}

theorem Renders.has_flags (renders : member.Renders scope declaration) {flag : PropertyFlag} :
    member.flags.has flag = true ↔
      ∃ attr ∈ declaration.attributes, scope.config.Gives attr flag := by
  rcases renders with ⟨_, _, _, rfl⟩
  exact Config.has_propertyFlags

/-- The name of the listener is the one that the first property annotation gives. -/
theorem Renders.namesListener_iff (renders : member.Renders scope declaration) :
    (∃ name, member.repNotify = some name ∧ name ≠ "") ↔
      ∃ attr, scope.config.findAnnotation? declaration.attributes Annotation.nativeProperty =
        some attr ∧ attr.NamesListener := by
  rcases renders with ⟨_, _, _, rfl⟩
  simp only [Attribute.namesListener_iff, Scope.memberBinding, Option.bind_eq_some_iff]
  constructor
  · rintro ⟨name, ⟨attr, first, given⟩, nonempty⟩
    exact ⟨attr, first, name, given, nonempty⟩
  · rintro ⟨attr, first, name, given, nonempty⟩
    exact ⟨name, ⟨attr, first, given⟩, nonempty⟩

/-- A member that obeys the rules has a listener exactly if it names one. -/
theorem Lawful.hasListener_iff (lawful : member.Lawful owner) :
    member.HasListener owner ↔ ∃ name, member.repNotify = some name ∧ name ≠ "" := by
  constructor
  · rintro ⟨method, _, named, nonempty, _⟩
    exact ⟨method.name, named, nonempty⟩
  · rintro ⟨name, named, nonempty⟩
    rcases lawful.repNotify name named nonempty with ⟨method, inside, rfl, instanced, takes⟩
    exact ⟨method, inside, named, nonempty, instanced, takes⟩

theorem Renders.hasListener_iff (renders : member.Renders scope declaration)
    (lawful : member.Lawful owner) :
    (member.flags.has .repNotify = true → member.HasListener owner) ↔
      scope.config.BacksNotification declaration.attributes := by
  rw [lawful.hasListener_iff, renders.namesListener_iff, renders.has_flags,
    Config.BacksNotification]

end MemberBinding

namespace Scope

open Remembering

variable {scope : Scope} {type : TypeDef}

/-- Members that are rendered from their declarations and obey the rules have listeners exactly if
their annotations see to that. -/
theorem forall₂_hasListener_of_renders {Item : Type} {items : List Item} {members : List MemberBinding}
    {attributes : Item → List Attribute}
    (renders : List.Forall₂ (fun item member => ∃ declaration : MemberDeclaration,
      declaration.attributes = attributes item ∧ member.Renders scope declaration) items members)
    (lawful : ∀ member ∈ members, member.Lawful type) :
    List.Forall₂ (fun attributes member =>
        (member.flags.has .repNotify = true → member.HasListener type) ↔
          scope.config.BacksNotification attributes)
      (items.map attributes) members := by
  rw [List.forall₂_map_left_iff]
  induction renders with
  | nil => exact .nil
  | cons first more ih =>
    rw [List.forall_mem_cons] at lawful
    rcases first with ⟨declaration, same, renders⟩
    exact .cons (same ▸ renders.hasListener_iff lawful.1) (ih lawful.2)

/-- A member whose flags ask for notification of changes has a listener exactly if its annotations see
to that. -/
theorem forall₂_hasListener {binding : TypeBinding} (listed : binding ∈ scope.extract.bindings)
    (present : scope.module.types[binding.place]? = some type) :
    List.Forall₂ (fun attributes member =>
        (member.flags.has .repNotify = true → member.HasListener type) ↔
          scope.config.BacksNotification attributes)
      (binding.declaredAttributes scope type) binding.members := by
  refine @forall_mem_extract scope type (fun type binding =>
    List.Forall₂ (fun attributes member =>
        (member.flags.has .repNotify = true → member.HasListener type) ↔
          scope.config.BacksNotification attributes)
      (binding.declaredAttributes scope type) binding.members) ?_ ?_ ?_ binding listed present
  · exact fun _ _ _ _ => .nil
  · intro index type _ kind _ memory binding found
    rcases accounts_extractStruct memory (clean_extractStruct memory binding found) with
      ⟨other, made, lawful, complete⟩
    cases made.symm.trans found
    refine forall₂_hasListener_of_renders ((complete kind).2.2.1.imp ?_) lawful.members
    exact fun item member bound => ⟨_, rfl, bound.2⟩
  · intro index type _ kind memory binding found
    rcases accounts_extractClass memory (clean_extractClass memory binding found) with
      ⟨other, made, lawful, complete⟩
    cases made.symm.trans found
    refine forall₂_hasListener_of_renders ((complete kind).2.1.imp ?_) lawful.members
    rintro item member ⟨getter, _, _, renders⟩
    exact ⟨_, rfl, renders⟩

end Scope

namespace Arena

/-- The pawn of the arena has a binding. -/
theorem exists_ofClass_mem_extract : ∃ binding : ClassBinding,
    .ofClass binding ∈ scope.extract.bindings ∧ binding.type = 0 := by
  rcases exists_extract with ⟨binding, other, first, extracted⟩
  have bound : Scope.Binds scope (pawn, 0) binding := by
    have accounts := @Scope.accounts_examine scope pawn 0 {}
    rw [first] at accounts
    have native : scope.isNative pawn = true := by decide +kernel
    rw [native] at accounts
    rcases accounts rfl with ⟨_, same, bound⟩
    cases same
    exact bound
  have listed : binding ∈ scope.extract.bindings := extracted ▸ List.mem_cons_self
  have classes : pawn.kind ≠ .enumType := by decide
  have complete := bound.complete (absurd · classes)
  cases binding with
  | ofClass binding => exact ⟨binding, listed, bound.declares.1⟩
  | ofStruct _ => cases complete.1
  | ofEnum _ => cases complete.1

theorem backsNotification_health : scope.config.BacksNotification [healthAttribute] :=
  fun _ => ⟨healthAttribute, by decide, by decide⟩

end Arena

/-- The annotation of health names a method that is told of changes, so health has a listener. -/
theorem Scope.forall₂_hasListener_arena : ∃ binding : ClassBinding,
    .ofClass binding ∈ Arena.scope.extract.bindings ∧
      Arena.scope.module.types[binding.type]? = some Arena.pawn ∧
      Arena.scope.config.BacksNotification [Arena.healthAttribute] ∧
      List.Forall₂ (fun attributes member =>
          (member.flags.has .repNotify = true → member.HasListener Arena.pawn) ↔
            Arena.scope.config.BacksNotification attributes)
        [[Arena.healthAttribute]] binding.members := by
  rcases Arena.exists_ofClass_mem_extract with ⟨binding, listed, place⟩
  have present : Arena.scope.module.types[binding.type]? = some Arena.pawn := by rw [place]; rfl
  have exposed : (Arena.scope.annotatedProperties Arena.pawn).map (·.1.attributes) =
      [[Arena.healthAttribute]] := by decide
  have listeners := Scope.forall₂_hasListener listed present
  rw [TypeBinding.declaredAttributes, exposed] at listeners
  exact ⟨binding, listed, present, Arena.backsNotification_health, listeners⟩

end NativeWeave
