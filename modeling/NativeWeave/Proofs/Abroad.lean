import NativeWeave.Proofs.Category.Foreign
import NativeWeave.Proofs.Editing.Frame
import NativeWeave.Proofs.Extraction.Answers
import NativeWeave.Proofs.Naming
import NativeWeave.Proofs.Extraction.Lawful

namespace NativeWeave

/-!
# Structs seen from other modules

Within its own module the representation of a struct is worked out from its fields.  Another module
sees the woven struct and goes by its annotations.  Both find the same category: the woven struct is
marked as having the same bytes on both sides exactly if it was found to have them, and no struct
that is bound was marked before.
-/

namespace StructBinding

/-- The representation of a bound struct. -/
def repr (config : Config) (binding : StructBinding) : StructRepr :=
  if config.isCoreStruct binding.name then .core
  else if binding.blittable then .blittable
  else .generic

/-- The category of the values of a bound struct.  The text type is no exception where it is bound. -/
def category (config : Config) (binding : StructBinding) : Category :=
  if config.isRuntime binding.name .text then .text
  else .struct (binding.repr config) binding.nativeName binding.name

/-- What the binding of a struct says about the declaration apart from its fields. -/
structure Describes (config : Config) (type : TypeDef) (binding : StructBinding) : Prop where
  kind : type.kind = .structType
  annotated : config.isAnnotated type.attributes Annotation.nativeStruct = true
  unmarked : config.isAnnotated type.attributes Annotation.blittable = false
  nativeName : binding.nativeName = config.nativeTypeName type Annotation.nativeStruct

end StructBinding

/-- What the binding of a type says about the declaration, if it is the binding of a struct. -/
def TypeBinding.Described (config : Config) (type : TypeDef) : TypeBinding → Prop
  | .ofStruct binding => binding.Describes config type
  | _ => True

open Remembering

namespace Scope

variable {scope abroad : Scope} {type struct : TypeDef} {binding : StructBinding}
  {result : WovenModule}

/-! ## Within the module -/

theorem gives_describes {index : Nat} (kind : type.kind = .structType)
    (annotated : scope.config.isAnnotated type.attributes Annotation.nativeStruct = true) :
    Gives (scope.extractStruct index type) fun found =>
      ∀ binding ∈ found.binding, binding.Describes scope.config type := by
  refine .after fun members => .after fun repr => .pure fun binding found => ?_
  have clean := not_of_mem_unless found
  rw [← eq_of_mem_unless found]
  rw [Bool.not_eq_true, Diagnostic.hasErrors_append_eq_false,
    Diagnostic.hasErrors_append_eq_false, hasErrors_structFindings] at clean
  rcases clean with ⟨⟨⟨computed, _⟩, _⟩, _⟩
  exact ⟨kind, annotated, computed, rfl⟩

theorem described_of_mem_extract {binding : TypeBinding} (member : binding ∈ scope.extract.bindings)
    (present : scope.module.types[binding.place]? = some type) :
    binding.Described scope.config type :=
  forall_mem_extract (fun _ _ _ _ => trivial)
    (fun _ _ _ kind annotated => gives_describes kind annotated)
    (fun _ _ _ _ _ _ _ => trivial) member present

/-- What classification gives is the category of the type, and the representation of the struct. -/
theorem answering_faithful (distinct : (scope.module.types.map (·.qualifiedName)).Nodup) :
    scope.Answering (Memory.Faithful scope [])
      (fun type shape category => scope.categoryOf type shape = .ok category)
      (fun struct repr => repr = scope.reprOf? struct) where
  category type shape := (keeps_classify type shape).mono (fun _ => id)
    fun _ right _ same => right.symm.trans same
  repr _ member := keeps_structRepr? (resolve?_of_mem distinct member)
  hash owner category := (keeps_hashOverride? owner category).mono (fun _ => id) fun _ _ => trivial

/-- The representation of a bound struct is the one of its declaration. -/
theorem reprOf?_of_mem_extract (distinct : (scope.module.types.map (·.qualifiedName)).Nodup)
    (member : .ofStruct binding ∈ scope.extract.bindings)
    (present : scope.module.types[binding.type]? = some type) :
    scope.reprOf? type = some (binding.repr scope.config) := by
  have named : type.qualifiedName = binding.name := qualifiedName_of_mem_extract member present
  have described : binding.Describes scope.config type :=
    described_of_mem_extract member present
  have reflects := (answering_faithful distinct).reflects_of_mem_extract faithful_empty member present
  rcases reflects.repr binding rfl with ⟨_, rfl, blittable⟩
  have home : scope.isLocal type.qualifiedName = true := by
    refine List.findIdx?_isSome.trans (List.any_eq_true.mpr ⟨type, List.mem_of_getElem? present, ?_⟩)
    simp [TypeDef.qualifiedName]
  unfold StructBinding.repr
  rw [← named]
  cases core : scope.config.isCoreStruct type.qualifiedName with
  | true => simp [reprOf?, core]
  | false =>
    unfold reprOf? at blittable ⊢
    simp only [core, home, described.annotated, Bool.false_eq_true, if_false, if_true] at blittable ⊢
    split at blittable <;> simp_all

/-- The category of a declared struct, by its representation. -/
theorem categoryOf_named {shape : MemberShape} {repr : StructRepr} {name : QualifiedName}
    (resolved : scope.resolve? name = some type) (kind : type.kind = .structType)
    (answer : scope.reprOf? type = some repr) (plain : shape.arrayDim = none) :
    scope.categoryOf (.named name) shape = .ok (if scope.config.isRuntime name .text then .text
      else .struct repr (scope.config.nativeTypeName type Annotation.nativeStruct) name) := by
  have outlined : scope.outline (.named name) shape =
      if scope.config.isRuntime name .text then .ok (.settled .text) else .ok (.struct type name) := by
    unfold outline namedOutline
    simp only [plain, Option.isSome_none, Bool.false_and, Bool.false_eq_true, if_false, resolved,
      kind]
  rw [categoryOf_eq, outlined]
  cases scope.config.isRuntime name .text with
  | true => rfl
  | false =>
    simp only [Bool.false_eq_true, if_false]
    rw [answer]

/-- A type with a name is no fixed array. -/
theorem arrayDim_of_categoryOf {shape : MemberShape} {name : QualifiedName} {category : Category}
    (answer : scope.categoryOf (.named name) shape = .ok category) : shape.arrayDim = none := by
  rw [categoryOf_eq, outline] at answer
  cases dim : shape.arrayDim with
  | none => rfl
  | some count =>
    rw [dim] at answer
    cases answer

/-- The category of a bound struct. -/
theorem categoryOf_of_mem_extract {shape : MemberShape}
    (distinct : (scope.module.types.map (·.qualifiedName)).Nodup)
    (member : .ofStruct binding ∈ scope.extract.bindings) (plain : shape.arrayDim = none) :
    scope.categoryOf (.named binding.name) shape = .ok (binding.category scope.config) := by
  rcases scope.exists_declares_of_mem_extract _ member with ⟨_, type, present, rfl, named⟩
  change binding.name = type.qualifiedName at named
  have described : binding.Describes scope.config type :=
    described_of_mem_extract member present
  have resolved := resolve?_of_mem distinct (List.mem_of_getElem? present)
  rw [← named] at resolved
  rw [categoryOf_named resolved described.kind (reprOf?_of_mem_extract distinct member present)
    plain, ← described.nativeName]
  rfl

/-! ## Within another module -/

/-- The module at hand does not declare the name, and of the modules given for reference the given
one is the first that does. -/
structure FindsIn (scope : Scope) (name : QualifiedName) (module : Module) : Prop where
  foreign : scope.isLocal name = false
  first : scope.context.modules.find? (fun other => (other.type? name).isSome) = some module

theorem FindsIn.resolve?_eq {name : QualifiedName} {module : Module}
    (finds : abroad.FindsIn name module) : abroad.resolve? name = module.type? name := by
  have missing : abroad.module.type? name = none := by
    have missed := Option.isNone_iff_eq_none.mp (Option.isSome_eq_false_iff.mp finds.foreign)
    have all := List.findIdx?_eq_none_iff.mp missed
    exact List.find?_eq_none.mpr fun type member => Bool.eq_false_iff.mp (all type member)
  rcases List.find?_eq_some_iff_append.mp finds.first with ⟨present, before, after, split, lacking⟩
  rcases Option.isSome_iff_exists.mp present with ⟨type, found⟩
  have skipped : before.findSome? (·.type? name) = none :=
    List.findSome?_eq_none_iff.mpr fun other member => by simpa using lacking other member
  rw [resolve?, missing]
  dsimp only
  rw [Context.lookup?, split, List.findSome?_append, skipped, List.findSome?_cons, found]
  rfl

/-- The mark of a woven struct is found. -/
theorem isAnnotated_marks (within : scope.config.attributeNamespace.isEmpty = false) :
    scope.config.isAnnotated (binding.marks scope.config) Annotation.blittable =
      binding.blittable := by
  unfold StructBinding.marks
  cases binding.blittable with
  | true => exact Config.isAnnotated_parse_annotationName within (by decide)
  | false => rfl

/-- A woven struct has the representation that its binding gives. -/
theorem reprOf?_of_marks {now : TypeDef} (imported : abroad.Imports now)
    (settings : abroad.config = scope.config)
    (within : scope.config.attributeNamespace.isEmpty = false)
    (described : binding.Describes scope.config type) (named : now.qualifiedName = binding.name)
    (attributes : now.attributes = type.attributes ++ binding.marks scope.config) :
    abroad.reprOf? now = some (binding.repr scope.config) := by
  unfold StructBinding.repr
  rw [← named]
  cases core : scope.config.isCoreStruct now.qualifiedName with
  | true =>
    rw [reprOf?, settings, core]
    rfl
  | false =>
    rw [imported.reprOf?_eq (settings ▸ core), foreignRepr?, settings, attributes,
      Config.isAnnotated_append, Config.isAnnotated_append, described.annotated,
      described.unmarked, isAnnotated_marks within]
    cases binding.blittable <;> rfl

/-- A bound struct is found in the woven module, with its annotations and marked as its binding has
it. -/
theorem exists_type?_of_weave (distinct : (scope.module.types.map (·.qualifiedName)).Nodup)
    (woven : scope.weave = .ok (.woven result))
    (member : .ofStruct binding ∈ scope.extract.bindings) :
    ∃ type now, binding.Describes scope.config type ∧ type.SameOutside now ∧
      result.module.type? binding.name = some now ∧
      now.attributes = type.attributes ++ binding.marks scope.config := by
  rcases scope.exists_declares_of_mem_extract _ member with ⟨_, type, present, rfl, named⟩
  change binding.name = type.qualifiedName at named
  rcases attributes_of_weave (distinct_extract distinct) woven member present
    with ⟨now, there, same, attributes⟩
  refine ⟨type, now, described_of_mem_extract member present, same, ?_, attributes⟩
  rw [named, ← same.qualifiedName]
  refine type?_of_mem ?_ (List.mem_of_getElem? there)
  rwa [qualifiedNames_of_weave woven]

/-- A bound struct has one category.  Classification in its own module gives it, whatever was asked
before; every value of the struct that the module exposes has it; and so does classification in any
module that finds the struct in the woven module, whatever was asked there. -/
theorem classify_abroad (scope abroad : Scope) (result : WovenModule) (binding : StructBinding)
    (distinct : (scope.module.types.map (·.qualifiedName)).Nodup)
    (within : scope.config.attributeNamespace.isEmpty = false)
    (woven : scope.weave = .ok (.woven result))
    (member : .ofStruct binding ∈ scope.extract.bindings)
    (settings : abroad.config = scope.config)
    (finds : abroad.FindsIn binding.name result.module) :
    (∀ queries, (∀ query ∈ queries, query.IsResolved scope) →
      (scope.classify (.named binding.name) {} (scope.remembered queries)).1 =
        .ok (binding.category scope.config)) ∧
    (∀ other ∈ scope.extract.bindings, ∀ value ∈ other.values,
      value.valueType = .named binding.name → value.category = binding.category scope.config) ∧
    ∀ queries, (∀ query ∈ queries, query.IsDeclared abroad) →
      (abroad.classify (.named binding.name) {} (abroad.remembered queries)).1 =
        .ok (binding.category scope.config) := by
  refine ⟨fun queries resolved => ?_, fun other bound value inside typed => ?_,
    fun queries declared => ?_⟩
  · exact (keeps_classify _ _ _ (scope.faithful_remembered resolved)).1.trans
      (categoryOf_of_mem_extract distinct member rfl)
  · rcases scope.exists_declares_of_mem_extract _ bound with ⟨_, type, present, rfl, _⟩
    have reflects := (answering_faithful distinct).reflects_of_mem_extract faithful_empty bound present
    rcases reflects.values value inside with ⟨shape, answer⟩
    rw [typed] at answer
    have known := categoryOf_of_mem_extract distinct member (arrayDim_of_categoryOf answer)
    exact Except.ok.inj (answer.symm.trans known)
  · rcases exists_type?_of_weave distinct woven member with
      ⟨type, now, described, same, found, attributes⟩
    have resolved : abroad.resolve? binding.name = some now := finds.resolve?_eq.trans found
    have named : now.qualifiedName = binding.name := qualifiedName_of_resolve? resolved
    have imported : abroad.Imports now := ⟨named ▸ finds.foreign, named ▸ resolved⟩
    have answer := reprOf?_of_marks imported settings within described named attributes
    have category : abroad.categoryOf (.named binding.name) {} = _ :=
      categoryOf_named resolved (same.kind.trans described.kind) answer rfl
    have right := (soundAbroad_classify (.named binding.name) {} _
      (abroad.soundAbroad_remembered declared)).1 imported (congrArg _ named.symm)
    rw [right, category, settings, Config.nativeTypeName, attributes,
      Config.findAnnotation?_append_of_isAnnotated described.annotated, same.name,
      StructBinding.category, described.nativeName]
    rfl

end Scope

/-- An empty module that has the woven struct for reference. -/
def Toggle.abroad (result : WovenModule) : Scope where
  context := { modules := [result.module] }
  module := Module.empty "Arcade"

/-- The struct is a generic one for the other module, also where it was asked for in another shape
before. -/
theorem Scope.classify_abroad_toggle : ∃ result, Toggle.scope.weave = .ok (.woven result) ∧
    (Toggle.scope.module.types.map (·.qualifiedName)).Nodup ∧
    Toggle.scope.config.attributeNamespace.isEmpty = false ∧
    .ofStruct Toggle.binding ∈ Toggle.scope.extract.bindings ∧
    (Toggle.abroad result).FindsIn Toggle.binding.name result.module ∧
    ((Toggle.abroad result).classify (.named Toggle.binding.name) {}
        ((Toggle.abroad result).remembered [.category (.named Toggle.binding.name) ⟨none, true⟩])).1 =
      .ok (.struct .generic "Toggle" ⟨"Game", "Toggle"⟩) := by
  rcases Toggle.exists_woven with ⟨result, woven⟩
  have distinct : (Toggle.scope.module.types.map (·.qualifiedName)).Nodup := by decide
  have within : Toggle.scope.config.attributeNamespace.isEmpty = false := by decide
  have member : .ofStruct Toggle.binding ∈ Toggle.scope.extract.bindings := by
    rw [Toggle.extract_scope]
    exact List.mem_singleton_self _
  have finds : (Toggle.abroad result).FindsIn Toggle.binding.name result.module := by
    rcases exists_type?_of_weave distinct woven member with ⟨_, now, _, _, found, _⟩
    refine ⟨rfl, List.find?_cons_of_pos ?_⟩
    rw [found]
    rfl
  have category : Toggle.binding.category Toggle.scope.config =
      .struct .generic "Toggle" ⟨"Game", "Toggle"⟩ := by decide
  have answers := classify_abroad Toggle.scope (Toggle.abroad result) result Toggle.binding distinct
    within woven member rfl finds
  rw [category] at answers
  exact ⟨result, woven, distinct, within, member, finds,
    answers.2.2 _ (List.forall_mem_singleton.mpr trivial)⟩

end NativeWeave
