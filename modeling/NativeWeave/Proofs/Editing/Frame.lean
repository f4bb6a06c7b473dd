import NativeWeave.Proofs.Binding.Order
import NativeWeave.Proofs.Editing.Additions
import NativeWeave.Proofs.Editing.Edited
import NativeWeave.Proofs.Editing.Placement

namespace NativeWeave

/-!
# What weaving leaves alone

Weaving edits the members of annotated types and puts new entries behind those of the tables.  The
header of the module, the order of the types and everything that is said about a type apart from its
members stay as they are, and so does every type that has no binding.  Since a table only grows at
its end, and by entries that it lacked, an instruction that was not edited refers to what it referred
to before.
-/

/-! ## Types -/

/-- The types differ in their members and annotations at most.  A property keeps its name and may
lose an accessor. -/
structure TypeDef.SameOutside (type now : TypeDef) : Prop where
  name : now.name = type.name
  namespaceName : now.namespaceName = type.namespaceName
  kind : now.kind = type.kind
  flags : now.flags = type.flags
  base : now.base = type.base
  underlying : now.underlying = type.underlying
  source : now.source = type.source
  properties : now.properties.map (·.name) = type.properties.map (·.name)

namespace TypeDef.SameOutside

variable {type middle now : TypeDef}

theorem refl (type : TypeDef) : type.SameOutside type :=
  ⟨rfl, rfl, rfl, rfl, rfl, rfl, rfl, rfl⟩

theorem trans (first : type.SameOutside middle) (second : middle.SameOutside now) :
    type.SameOutside now where
  name := second.name.trans first.name
  namespaceName := second.namespaceName.trans first.namespaceName
  kind := second.kind.trans first.kind
  flags := second.flags.trans first.flags
  base := second.base.trans first.base
  underlying := second.underlying.trans first.underlying
  source := second.source.trans first.source
  properties := second.properties.trans first.properties

/-- Edits do not change what a type is called. -/
theorem qualifiedName (same : type.SameOutside now) : now.qualifiedName = type.qualifiedName := by
  rw [TypeDef.qualifiedName, TypeDef.qualifiedName, same.name, same.namespaceName]

end TypeDef.SameOutside

namespace TypePlan

variable {plan : TypePlan} {type edited : TypeDef}

/-- Where methods are removed, properties may lose accessors. -/
theorem exists_of_applyRemovals {indices : List Nat}
    (removed : applyRemovals indices type = .ok edited) :
    ∃ methods properties, edited = { type with methods, properties } ∧
      properties.map (·.name) = type.properties.map (·.name) := by
  refine applyRemovals_induction (fun left : TypeDef => ∃ methods properties,
    left = { type with methods, properties } ∧
      properties.map (·.name) = type.properties.map (·.name)) removed ⟨_, _, rfl, rfl⟩ ?_
  rintro left index _ next ⟨methods, properties, rfl, names⟩ taken
  rcases Option.map_eq_some_iff.mp taken with ⟨_, _, same⟩
  cases same
  exact ⟨_, _, rfl, List.map_map.trans names⟩

/-- A plan edits members, and puts its annotations behind those that the type has. -/
theorem exists_of_apply (applied : plan.apply type = .ok edited) :
    ∃ fields methods properties, edited = { type with
        fields, methods, properties, attributes := type.attributes ++ plan.attributes } ∧
      properties.map (·.name) = type.properties.map (·.name) := by
  rcases exists_stages_of_apply applied with
    ⟨bodied, initialized, reduced, ⟨_, installed, removed⟩, rfl⟩
  rcases exists_of_installPrelude installed with ⟨extended, rfl⟩
  rcases exists_of_applyRemovals removed with ⟨methods, properties, rfl, names⟩
  exact ⟨_, methods, properties, rfl, names⟩

theorem sameOutside_of_apply (applied : plan.apply type = .ok edited) :
    type.SameOutside edited := by
  rcases exists_of_apply applied with ⟨fields, methods, properties, rfl, names⟩
  exact ⟨rfl, rfl, rfl, rfl, rfl, rfl, rfl, names⟩

end TypePlan

/-! ## A run of edits -/

/-- The draft differs from the module at hand in its tables, which have new entries, and in the
members of types that have a binding. -/
structure Draft.Frames (draft : Draft) (scope : Scope) : Prop where
  header : draft.module =
    { scope.module with types := draft.module.types, tables := draft.module.tables }
  tables : scope.module.tables.Extends draft.module.tables
  types : List.Forall₂ TypeDef.SameOutside scope.module.types draft.module.types
  others : ∀ index, (∀ binding ∈ scope.extract.bindings, binding.place ≠ index) →
    draft.module.types[index]? = scope.module.types[index]?

theorem forall₂_set {α β : Type} {related : α → β → Prop} {items : List α} {results : List β}
    {index : Nat} {old new : β} (all : List.Forall₂ related items results)
    (here : results[index]? = some old) (kept : ∀ item, related item old → related item new) :
    List.Forall₂ related items (results.set index new) := by
  induction all generalizing index with
  | nil => exact .nil
  | cons holds rest ih =>
    cases index with
    | zero =>
      cases here
      exact .cons (kept _ holds) rest
    | succ index => exact .cons holds (ih here)

namespace Draft

variable {draft next : Draft} {scope : Scope} {binding : TypeBinding}

theorem frames_of_start {bindings : Bindings} (begun : Draft.start scope bindings = .ok draft) :
    draft.Frames scope := by
  cases eq_of_start begun
  exact ⟨rfl, .refl _, List.forall₂_same.mpr fun type _ => .refl type, fun _ _ => rfl⟩

theorem Frames.step (frames : draft.Frames scope) (member : binding ∈ scope.extract.bindings)
    (changes : draft.Changes binding next) : next.Frames scope := by
  cases changes with
  | extended grown _ =>
    refine ⟨?_, frames.tables.trans grown, frames.types, frames.others⟩
    dsimp only
    rw [frames.header]
  | edited _ here grown _ applied =>
    refine ⟨?_, frames.tables.trans grown, ?_, fun index free => ?_⟩
    · dsimp only
      rw [frames.header]
    · exact forall₂_set frames.types here fun type same =>
        same.trans (TypePlan.sameOutside_of_apply applied)
    · exact (List.getElem?_set_ne (free binding member)).trans (frames.others index free)

end Draft

namespace Scope

variable {scope : Scope}

theorem frames_of_process {progress : Progress}
    (run : scope.process scope.extract.bindings = .ok progress) : progress.draft.Frames scope := by
  rcases exists_stages_of_process run with ⟨_, _, _, last, ledger, stages, rfl⟩
  refine stages.induction (fun progress : Progress => progress.draft.Frames scope)
    (Draft.frames_of_start stages.begun) (fun progress name next frames step => ?_)
    fun progress name next frames step => ?_
  · rcases progress.processStruct_eq_ok step with ⟨_, _, binding, found, changes, _⟩
    exact frames.step (Bindings.ofStruct_mem_of_findStruct? found).1 changes
  · rcases progress.processClass_eq_ok step with ⟨_, _, binding, found, changes, _⟩
    exact frames.step (Bindings.ofClass_mem_of_findClass? found).1 changes

/-- There are as many types as before, in the same order and under the same names. -/
theorem sameOutside_of_weave {result : WovenModule} (woven : scope.weave = .ok (.woven result)) :
    List.Forall₂ TypeDef.SameOutside scope.module.types result.module.types := by
  rcases exists_process_of_weave woven with ⟨progress, run, _, types, _⟩
  exact types ▸ (frames_of_process run).types

theorem qualifiedNames_of_weave {result : WovenModule} (woven : scope.weave = .ok (.woven result)) :
    result.module.types.map (·.qualifiedName) = scope.module.types.map (·.qualifiedName) := by
  have related := (sameOutside_of_weave woven).imp fun type now same => same.qualifiedName.symm
  have mapped := List.forall₂_map_left_iff.mpr (List.forall₂_map_right_iff.mpr related)
  exact (List.forall₂_eq_eq_eq ▸ mapped : scope.module.types.map _ = _).symm

/-- What of the module at hand is left alone when it is woven. -/
structure LeavesAlone (scope : Scope) (woven : Module) : Prop where
  magic : woven.magic = scope.module.magic
  version : woven.version = scope.module.version
  name : woven.name = scope.module.name
  references : woven.references = scope.module.references
  flags : woven.flags = scope.module.flags ||| Module.wovenFlag
  tables : scope.module.tables.Extends woven.tables
  /-- There are as many types, in the same order. -/
  types : List.Forall₂ TypeDef.SameOutside scope.module.types woven.types
  /-- A type without a binding is as it was. -/
  others : ∀ index, (∀ binding ∈ scope.extract.bindings, binding.place ≠ index) →
    woven.types[index]? = scope.module.types[index]?
  /-- What an instruction refers to is found where it was. -/
  textOf : ∀ index text, scope.module.tables.string? index = some text →
    woven.tables.string? index = some text
  memberOf : ∀ token member, scope.module.tables.member? token = some member →
    woven.tables.member? token = some member
  typeOf : ∀ token type, scope.module.tables.type? token = some type →
    woven.tables.type? token = some type

/-- Weaving a module leaves alone what has no binding, and the meaning of every token. -/
theorem leavesAlone_of_weave (scope : Scope) (result : WovenModule)
    (woven : scope.weave = .ok (.woven result)) : scope.LeavesAlone result.module := by
  rcases exists_process_of_weave woven with ⟨progress, run, _, types, tables, whole⟩
  have frames := frames_of_process run
  rw [frames.header] at whole
  have grows := (tables ▸ frames.tables : scope.module.tables.Extends result.module.tables)
  exact {
    magic := by rw [whole]
    version := by rw [whole]
    name := by rw [whole]
    references := by rw [whole]
    flags := by rw [whole]
    tables := grows
    types := types ▸ frames.types
    others := fun index free => types ▸ frames.others index free
    textOf := fun _ _ => getElem?_of_prefix grows.strings.isPrefix
    memberOf := fun _ _ => getElem?_of_prefix grows.members.isPrefix
    typeOf := fun _ _ => getElem?_of_prefix grows.types.isPrefix }

/-- The struct is edited, and is still the only type of its module; the tables begin with those of
the source, which are empty. -/
theorem leavesAlone_of_weave_toggle : ∃ result, Toggle.scope.weave = .ok (.woven result) ∧
    Toggle.scope.LeavesAlone result.module ∧ result.module.tables = Toggle.tables ∧
    Toggle.scope.module.tables = {} := by
  rcases Toggle.exists_woven with ⟨result, woven⟩
  exact ⟨result, woven, leavesAlone_of_weave Toggle.scope result woven,
    Toggle.tables_of_weave woven, rfl⟩

end Scope

/-! ## Annotations that editing adds

Editing a struct annotates it if it has the same bytes on both sides, and not otherwise.  What was
annotated before stays. -/

section

open TypePlan Emit

/-- The plan adds no annotations. -/
def TypePlan.Unmarked (plan : TypePlan) : Prop :=
  plan.attributes = []

namespace TypePlan

variable {first second : TypePlan}

theorem Unmarked.append (front : first.Unmarked) (back : second.Unmarked) :
    (first ++ second).Unmarked := by
  change first.attributes ++ second.attributes = []
  rw [front, back, List.append_nil]

theorem unmarked_concat {plans : List TypePlan} (each : ∀ plan ∈ plans, plan.Unmarked) :
    (concat plans).Unmarked := by
  induction plans with
  | nil => rfl
  | cons plan more ih =>
    rw [List.forall_mem_cons] at each
    exact each.1.append (ih each.2)

end TypePlan

variable {config : Config} {type : TypeDef}

theorem yieldsUnmarked_staticSlot {owner kind : Signature} {name : String} :
    (staticSlot owner name kind).Yields (·.plan.Unmarked) := by
  unfold staticSlot
  exact .after fun token => .pure rfl

theorem yieldsUnmarked_optionalSlot {wanted : Bool} {owner kind : Signature} {name : String} :
    (optionalSlot wanted owner name kind).Yields (·.plan.Unmarked) := by
  unfold optionalSlot
  split
  · exact .bind yieldsUnmarked_staticSlot fun slot unmarked => .pure unmarked
  · exact .pure rfl

theorem yieldsUnmarked_memberSlots {owner : Signature} {base : String} {category : Category} :
    (memberSlots owner base category).Yields (·.plan.Unmarked) := by
  unfold memberSlots
  refine .bind yieldsUnmarked_staticSlot fun offset first => ?_
  refine .bind yieldsUnmarked_optionalSlot fun handle second => ?_
  refine .bind yieldsUnmarked_optionalSlot fun elementSize third => ?_
  refine .bind yieldsUnmarked_optionalSlot fun width fourth => ?_
  exact .pure (((first.append second).append third).append fourth)

namespace StructBinding

theorem yieldsUnmarked_fieldCode (classPtr : UInt32) (member : MemberBinding) :
    (fieldCode config type classPtr member).Yields (·.plan.Unmarked) := by
  unfold fieldCode
  refine .after fun field => .bind yieldsUnmarked_memberSlots fun slots unmarked => ?_
  refine .after fun fill => .after fun token => .after fun value => ?_
  dsimp only
  split
  · exact .after fun write => .pure (unmarked.append rfl)
  · exact .after fun write => .pure (unmarked.append rfl)

theorem yieldsUnmarked_marshalPlan (binding : StructBinding) :
    (binding.marshalPlan config type).Yields TypePlan.Unmarked := by
  unfold marshalPlan
  refine .bind yieldsUnmarked_staticSlot fun classPtr first => ?_
  refine .bind yieldsUnmarked_staticSlot fun size second => ?_
  refine .after fun findType => .after fun findSize => ?_
  refine .bind (.mapM fun member _ => yieldsUnmarked_fieldCode classPtr.value member)
    fun fields each => .pure ?_
  have slots := unmarked_concat (List.forall_mem_map.mpr each)
  refine .append (.append (.append (.append ?_ slots) rfl) rfl) rfl
  exact .append (first.append second) rfl

/-- The annotations that a struct gets when it is woven. -/
def marks (config : Config) (binding : StructBinding) : List Attribute :=
  if binding.blittable then (blittablePlan config).attributes else []

theorem yields_marks (binding : StructBinding) :
    (binding.plan? config type).Yields fun plan? =>
      ∀ plan ∈ plan?, plan.attributes = binding.marks config := by
  unfold plan? marks
  split
  · refine .pure fun plan member => ?_
    cases member
    rfl
  · split
    · exact .pure nofun
    · refine .bind (yieldsUnmarked_marshalPlan binding) fun plan unmarked =>
        .pure fun other member => ?_
      cases member
      exact unmarked

/-- A struct that is not edited gets no annotations. -/
theorem marks_of_not_needsEdit {binding : StructBinding}
    (stays : ¬ (TypeBinding.ofStruct binding).NeedsEdit config) : binding.marks config = [] := by
  rw [marks, if_neg fun blittable => stays (.inl blittable)]

end StructBinding

namespace Scope

variable {scope : Scope} {result : WovenModule} {binding : StructBinding}

/-- A bound struct of a woven module has the annotations that it had, and behind them the one that
says whether it has the same bytes on both sides. -/
theorem attributes_of_weave (distinct : scope.extract.bindings.Distinct)
    (woven : scope.weave = .ok (.woven result))
    (member : .ofStruct binding ∈ scope.extract.bindings)
    (present : scope.module.types[binding.type]? = some type) :
    ∃ now, result.module.types[binding.type]? = some now ∧ type.SameOutside now ∧
      now.attributes = type.attributes ++ binding.marks scope.config := by
  rcases types_of_weave woven with ⟨_, _, each, needed⟩
  have made : ∀ {now}, result.module.EditedAs scope.config scope.module (.ofStruct binding) type now →
      type.SameOutside now ∧ now.attributes = type.attributes ++ binding.marks scope.config := by
    rintro now ⟨plan, after, ⟨_, made⟩, _, applied⟩
    refine ⟨TypePlan.sameOutside_of_apply applied, ?_⟩
    rcases TypePlan.exists_of_apply applied with ⟨_, _, _, rfl, _⟩
    rw [StructBinding.yields_marks binding _ _ _ made plan rfl]
  by_cases edits : (TypeBinding.ofStruct binding).NeedsEdit scope.config
  · have listed : binding ∈ scope.extract.bindings.structs :=
      List.mem_filterMap.mpr ⟨_, member, rfl⟩
    have picks : scope.extract.bindings.Picks (.ofStruct binding) := distinct.findStruct?_eq listed
    rcases needed picks edits present with ⟨now, there, edited⟩
    exact ⟨now, there, made edited⟩
  · rcases each present with ⟨now, there, rfl | ⟨other, picks, place, edited⟩⟩
    · refine ⟨now, there, .refl now, ?_⟩
      rw [StructBinding.marks_of_not_needsEdit edits, List.append_nil]
    · -- Only a binding of the same name could edit the type, and there is no other one.
      have named : other.name = (TypeBinding.ofStruct binding).name :=
        (qualifiedName_of_mem_extract picks.mem (place ▸ present)).symm.trans
          (qualifiedName_of_mem_extract member present)
      cases distinct.eq_of_name picks.mem member named
      exact ⟨now, there, made edited⟩

end Scope

end

end NativeWeave
