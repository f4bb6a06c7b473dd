import NativeWeave.Proofs.Editing.Collaborators
import NativeWeave.Proofs.Editing.Frame

namespace NativeWeave

/-!
# Every added reference has an owner within reach

Before code is generated, the types that it relies on are looked up, and a type that is missing ends
the run.  The list of these types is worked out from the categories of the bindings alone.  It is
complete: an owner of a reference that weaving adds is on the list, is an edited type itself, or is
a type of user code that a category names, and in all of these cases the owner resolves in the woven
module or in the modules given for reference.
-/

/-! ## Names of types -/

theorem Module.isSome_type?_iff {module : Module} {name : QualifiedName} :
    (module.type? name).isSome = true ↔ ∃ type ∈ module.types, type.qualifiedName = name := by
  constructor
  · intro found
    rcases Option.isSome_iff_exists.mp found with ⟨type, found⟩
    exact ⟨type, mem_of_type? found⟩
  · rintro ⟨type, member, rfl⟩
    unfold type?
    rw [List.find?_isSome]
    exact ⟨type, member, by simp [TypeDef.qualifiedName]⟩

namespace Scope

variable {scope : Scope} {result : WovenModule} {name : QualifiedName}

/-- The same run with the woven module at hand. -/
def after (scope : Scope) (result : WovenModule) : Scope :=
  { scope with module := result.module }

/-- What a name means before a module is woven, it means afterwards. -/
theorem isSome_resolve?_after (woven : scope.weave = .ok (.woven result))
    (found : (scope.resolve? name).isSome = true) :
    ((scope.after result).resolve? name).isSome = true := by
  rcases types_of_weave woven with ⟨_, _, each, _⟩
  unfold resolve? at found ⊢
  cases inWoven : (scope.after result).module.type? name with
  | some type => rfl
  | none =>
    cases inSource : scope.module.type? name with
    | none =>
      rw [inSource] at found
      exact found
    | some type =>
      -- A type of the source is there under its name still.
      rcases Module.mem_of_type? inSource with ⟨member, rfl⟩
      rcases List.mem_iff_getElem?.mp member with ⟨index, present⟩
      rcases each present with ⟨now, there, origin⟩
      have named : now.qualifiedName = type.qualifiedName := by
        rcases origin with rfl | ⟨_, _, _, plan, _, _, _, applied⟩
        · rfl
        · exact (TypePlan.sameOutside_of_apply applied).qualifiedName
      have kept : ((scope.after result).module.type? type.qualifiedName).isSome = true :=
        Module.isSome_type?_iff.mpr ⟨now, List.mem_of_getElem? there, named⟩
      rw [inWoven] at kept
      cases kept

/-! ## The list is complete -/

/-- Code for the bindings of the module relies on the type with the name: it is on the list of
required types, it is edited itself, or a category names it. -/
structure ReliesOn (scope : Scope) (name : QualifiedName) : Prop where
  needed : scope.extract.bindings.needCode = true
  origin : name ∈ scope.config.requiredTypes scope.extract.bindings.categories ∨
    (∃ binding ∈ scope.extract.bindings, binding.name = name) ∨
    ∃ category ∈ scope.extract.bindings.categories, name ∈ category.partners

/-- Every value in a binding has its category among those of all bindings. -/
theorem mem_categories {binding : TypeBinding} (member : binding ∈ scope.extract.bindings)
    {value : MemberBinding} (listed : value ∈ binding.values) :
    value.category ∈ scope.extract.bindings.categories := by
  refine List.mem_map_of_mem ?_
  cases binding with
  | ofClass binding =>
    refine List.mem_append_left _ (List.mem_flatMap.mpr ⟨binding, ?_, listed⟩)
    exact List.mem_filterMap.mpr ⟨_, member, rfl⟩
  | ofStruct binding =>
    refine List.mem_append_right _ (List.mem_flatMap.mpr ⟨binding, ?_, listed⟩)
    exact List.mem_filterMap.mpr ⟨_, member, rfl⟩
  | ofEnum binding => cases listed

variable (needed : scope.extract.bindings.needCode = true)
include needed

theorem allowsType_reliesOn {binding : TypeBinding} (member : binding ∈ scope.extract.bindings)
    {type : TypeDef} (present : scope.module.types[binding.place]? = some type) :
    scope.config.AllowsType scope.ReliesOn type where
  own := ⟨needed, .inr (.inl ⟨binding, member, (qualifiedName_of_mem_extract member present).symm⟩)⟩
  root := ⟨needed, .inl List.mem_cons_self⟩
  layout := ⟨needed, .inl (List.mem_cons_of_mem _ List.mem_cons_self)⟩

theorem allowsValue_reliesOn {binding : TypeBinding} (member : binding ∈ scope.extract.bindings)
    {value : MemberBinding} (listed : value ∈ binding.values) :
    scope.AllowsValue scope.config scope.ReliesOn value where
  category :=
    { root := ⟨needed, .inl List.mem_cons_self⟩
      collaborators := fun _ inside => ⟨needed, .inl (List.mem_cons_of_mem _
        (List.mem_cons_of_mem _ (List.mem_flatMap.mpr ⟨_, mem_categories member listed, inside⟩)))⟩
      partners := fun _ inside =>
        ⟨needed, .inr (.inr ⟨_, mem_categories member listed, inside⟩)⟩ }
  fits := explained_of_mem_extract member value listed

end Scope

/-! ## Runs -/

/-- A reference that weaving may add: it means a member of a type that code relies on, and none in
which the value of a property is kept unless it is one of a struct that is marshalled. -/
structure Scope.Adds (scope : Scope) (marshalled : List QualifiedName) (reference : MemberRef) :
    Prop where
  owned : ∃ name, reference.owner.typeName? = some name ∧ scope.ReliesOn name
  visible : reference.Visible ∨ ∃ name ∈ marshalled, reference.owner.typeName? = some name

/-- The draft of a source refers to nothing new but members of types that code relies on. -/
structure Draft.Relies (draft : Draft) (scope : Scope) (marshalled : List QualifiedName) :
    Prop where
  config : draft.config = scope.config
  source : draft.source = scope.module
  members : ∃ added, draft.module.tables.members = scope.module.tables.members ++ added ∧
    ∀ reference ∈ added, scope.Adds marshalled reference

namespace Draft

variable {draft next : Draft} {scope : Scope} {marshalled later : List QualifiedName}

theorem relies_of_start {bindings : Bindings} (begun : Draft.start scope bindings = .ok draft) :
    draft.Relies scope marshalled := by
  cases eq_of_start begun
  exact ⟨rfl, rfl, [], (List.append_nil _).symm, List.forall_mem_nil _⟩

/-- A plan that refers to nothing else leaves the draft as it should be, whatever becomes of it. -/
theorem Relies.extend {Plan : Type} {plan : Emit Plan} {given : Plan} {after : Tables}
    (relies : draft.Relies scope marshalled) (more : ∀ name ∈ marshalled, name ∈ later)
    (mentions : plan.Mentions (scope.Adds later))
    (made : plan draft.module.tables = .ok (given, after)) (config : next.config = draft.config)
    (source : next.source = draft.source) (tables : next.module.tables = after) :
    next.Relies scope later where
  config := config.trans relies.config
  source := source.trans relies.source
  members := by
    rcases relies.members with ⟨early, before, one⟩
    rcases mentions _ _ _ made with ⟨late, grown, other⟩
    refine ⟨early ++ late, ?_, List.forall_mem_append.mpr ⟨fun reference member => ?_, other⟩⟩
    · rw [tables, grown, before, List.append_assoc]
    · have adds := one reference member
      refine ⟨adds.owned, adds.visible.imp_right ?_⟩
      rintro ⟨name, inside, owned⟩
      exact ⟨name, more name inside, owned⟩

/-- Afterwards the struct counts as marshalled. -/
theorem Relies.editStruct {binding : StructBinding} (relies : draft.Relies scope marshalled)
    (member : .ofStruct binding ∈ scope.extract.bindings)
    (edited : draft.editStruct binding = .ok next) :
    next.Relies scope (binding.name :: marshalled) := by
  rcases bind_eq_ok_iff.mp edited with ⟨type, found, edited⟩
  rcases bind_eq_ok_iff.mp edited with ⟨⟨plan?, extended⟩, planned, edited⟩
  rcases planned_eq_ok planned with ⟨after, made, rfl⟩
  have present := declaration_eq_ok found
  rw [relies.source] at present
  rw [relies.config] at made
  have named : type.qualifiedName = binding.name :=
    Scope.qualifiedName_of_mem_extract member present
  have mentions : (binding.plan? scope.config type).Mentions
      (scope.Adds (binding.name :: marshalled)) := by
    unfold StructBinding.plan?
    split
    · exact .pure
    · next different =>
      have needed : scope.extract.bindings.needCode = true := by
        have listed : binding ∈ scope.extract.bindings.structs :=
          List.mem_filterMap.mpr ⟨_, member, rfl⟩
        rw [Bool.not_eq_true, ← Bool.not_eq_true'] at different
        exact Bool.or_eq_true_iff.mpr (.inr (List.any_eq_true.mpr ⟨binding, listed, different⟩))
      split
      · exact .pure
      · have allows := Scope.allowsType_reliesOn needed member present
        refine .bind (.mono (StructBinding.mentions_marshalPlan allows fun value listed =>
          Scope.allowsValue_reliesOn needed member listed) ?_) fun plan => .pure
        rintro reference (other | own)
        · exact ⟨other.owned, .inl other.visible⟩
        · have owned : reference.owner.typeName? = some type.qualifiedName := own ▸ rfl
          exact ⟨⟨_, owned, allows.own⟩, .inr ⟨_, List.mem_cons_self, named ▸ owned⟩⟩
  have more : ∀ name ∈ marshalled, name ∈ binding.name :: marshalled :=
    fun name => List.mem_cons_of_mem _
  cases plan? with
  | none =>
    cases edited
    exact relies.extend more mentions made rfl rfl rfl
  | some plan =>
    rcases commit_eq_ok edited with ⟨current, now, here, applied, rfl⟩
    exact relies.extend more mentions made rfl rfl rfl

theorem Relies.editClass {binding : ClassBinding} (relies : draft.Relies scope marshalled)
    (member : .ofClass binding ∈ scope.extract.bindings)
    (edited : draft.editClass binding = .ok next) : next.Relies scope marshalled := by
  rcases bind_eq_ok_iff.mp edited with ⟨type, found, edited⟩
  rcases bind_eq_ok_iff.mp edited with ⟨⟨⟨plan, diagnostics⟩, extended⟩, planned, edited⟩
  rcases planned_eq_ok planned with ⟨after, made, rfl⟩
  have present := declaration_eq_ok found
  rw [relies.source] at present made
  rw [relies.config] at made
  have listed : binding ∈ scope.extract.bindings.classes :=
    List.mem_filterMap.mpr ⟨_, member, rfl⟩
  have needed : scope.extract.bindings.needCode = true := by
    refine Bool.or_eq_true_iff.mpr (.inl ?_)
    rw [Bool.not_eq_true', List.isEmpty_eq_false_iff]
    exact List.ne_nil_of_mem listed
  have mentions : (binding.plan scope.config scope.module type).Mentions (scope.Adds marshalled) := by
    refine .mono (ClassBinding.mentions_plan (Scope.allowsType_reliesOn needed member present)
      fun value listed => Scope.allowsValue_reliesOn needed member listed) fun reference own => ?_
    exact ⟨own.owned, .inl own.visible⟩
  dsimp only at edited
  split at edited
  · cases edited
    exact relies.extend (fun _ => id) mentions made rfl rfl rfl
  · rcases commit_eq_ok edited with ⟨current, now, here, applied, rfl⟩
    exact relies.extend (fun _ => id) mentions made rfl rfl rfl

end Draft

namespace Scope

variable {scope : Scope} {result : WovenModule} {name : QualifiedName}

/-- A run adds nothing else, and no class has the name of a struct that it marshals. -/
theorem relies_of_process {progress : Progress}
    (run : scope.process scope.extract.bindings = .ok progress) :
    ∃ marshalled, progress.draft.Relies scope marshalled ∧ ∀ binding,
      scope.extract.bindings.findClass? binding.name = some binding → binding.name ∉ marshalled := by
  rcases exists_stages_of_process run with ⟨_, _, afterStructs, _, _, stages, rfl⟩
  have middle : afterStructs.draft.Relies scope afterStructs.ledger.processed := by
    refine foldlM_induction (fun progress => progress.draft.Relies scope progress.ledger.processed)
      (Draft.relies_of_start stages.begun) (fun progress name next _ relies step => ?_) stages.first
    rcases progress.exists_of_processStruct step with ⟨_, recorded, binding, found, edited, _⟩
    rcases Bindings.ofStruct_mem_of_findStruct? found with ⟨member, rfl⟩
    rw [recorded]
    exact relies.editStruct member edited
  have last := foldlM_achieves
    (fun progress : Progress => progress.draft.Relies scope afterStructs.ledger.processed ∧
      ∀ name ∈ afterStructs.ledger.processed, name ∈ progress.ledger.processed)
    (fun name _ => name ∉ afterStructs.ledger.processed) ⟨middle, fun _ => id⟩ ?_ stages.second
  · refine ⟨_, last.1.1, fun binding found => ?_⟩
    have known := (Bindings.ofClass_mem_of_findClass? found).1
    have member : binding ∈ scope.extract.bindings.classes :=
      List.mem_filterMap.mpr ⟨_, known, rfl⟩
    exact last.2.1 _ (Bindings.mem_classOrder stages.classesOrdered member)
  · rintro progress name next _ ⟨relies, earlier⟩ step
    rcases progress.exists_of_processClass step with ⟨fresh, recorded, binding, found, edited, _⟩
    have member := (Bindings.ofClass_mem_of_findClass? found).1
    refine ⟨⟨relies.editClass member edited, fun other inside => ?_⟩,
      fun inside => fresh (earlier _ inside), fun _ => id⟩
    rw [recorded]
    exact List.mem_cons_of_mem _ (earlier other inside)

/-- A run that needs code has found all required types. -/
theorem isSome_resolve?_of_required {progress : Progress}
    (run : scope.process scope.extract.bindings = .ok progress)
    (needed : scope.extract.bindings.needCode = true)
    (required : name ∈ scope.config.requiredTypes scope.extract.bindings.categories) :
    (scope.resolve? name).isSome = true := by
  rcases exists_stages_of_process run with ⟨_, _, _, _, _, stages, rfl⟩
  have checked := Draft.checkCollaborators_of_start stages.begun needed
  unfold checkCollaborators at checked
  split at checked
  · cases checked
  · next complete =>
    have found := List.find?_eq_none.mp complete name required
    rwa [Bool.not_eq_true, Option.isNone_eq_false_iff] at found

/-- A type that code relies on is within reach. -/
theorem ReliesOn.isSome_resolve? (relies : scope.ReliesOn name) {progress : Progress}
    (run : scope.process scope.extract.bindings = .ok progress) :
    (scope.resolve? name).isSome = true := by
  rcases relies with ⟨needed, required | ⟨binding, member, rfl⟩ | ⟨category, listed, partner⟩⟩
  · exact isSome_resolve?_of_required run needed required
  · rcases scope.exists_declares_of_mem_extract binding member with ⟨index, type, present, _, named⟩
    have found : (scope.module.type? binding.name).isSome = true :=
      Module.isSome_type?_iff.mpr ⟨type, List.mem_of_getElem? present, named.symm⟩
    rcases Option.isSome_iff_exists.mp found with ⟨declared, found⟩
    unfold resolve?
    rw [found]
    rfl
  · rcases List.mem_map.mp listed with ⟨value, inside, rfl⟩
    have fits : value.Explained scope := by
      rcases List.mem_append.mp inside with ofClass | ofStruct
      · rcases List.mem_flatMap.mp ofClass with ⟨binding, bound, member⟩
        rcases List.mem_filterMap.mp bound with ⟨entry, declared, same⟩
        cases entry with
        | ofClass other =>
          cases same
          exact explained_of_mem_extract declared value member
        | _ => cases same
      · rcases List.mem_flatMap.mp ofStruct with ⟨binding, bound, member⟩
        rcases List.mem_filterMap.mp bound with ⟨entry, declared, same⟩
        cases entry with
        | ofStruct other =>
          cases same
          exact explained_of_mem_extract declared value member
        | _ => cases same
    unfold MemberBinding.Explained Explains at fits
    unfold Category.partners at partner
    split at partner
    · next named =>
      rw [named] at fits
      cases List.mem_singleton.mp partner
      exact fits.2
    · next named =>
      rw [named] at fits
      rcases fits with ⟨_, target, rfl, declared⟩
      cases List.mem_singleton.mp partner
      exact declared
    · cases partner

/-- The owner of every reference that weaving adds resolves in the woven module or in the modules
given for reference.  It is one of the types that were required before any code was generated, or an
edited type, or a type of user code that a category names. -/
theorem owner_resolves_of_weave (scope : Scope) (result : WovenModule)
    (woven : scope.weave = .ok (.woven result)) :
    ∀ reference ∈ result.module.tables.members, reference ∉ scope.module.tables.members →
      ∃ name, reference.owner.typeName? = some name ∧ scope.ReliesOn name ∧
        ∃ type, (scope.after result).resolve? name = some type := by
  intro reference member added
  rcases exists_process_of_weave woven with ⟨progress, run, _, _, tables, _⟩
  rcases relies_of_process run with ⟨marshalled, relies, _⟩
  rcases relies.members with ⟨more, grown, all⟩
  rw [tables, grown] at member
  rcases List.mem_append.mp member with old | new
  · exact absurd old added
  · rcases (all reference new).owned with ⟨name, owned, relies⟩
    refine ⟨name, owned, relies, Option.isSome_iff_exists.mp ?_⟩
    exact isSome_resolve?_after woven (relies.isSome_resolve? run)

/-- The tokens that mean values of properties of a class meant them in the source: weaving adds no
such reference. -/
theorem member?_of_weave (woven : scope.weave = .ok (.woven result)) {binding : ClassBinding}
    (bound : scope.extract.bindings.findClass? binding.name = some binding) {token : UInt32}
    {owner type : Signature} {property : String} (owned : owner.typeName? = some binding.name)
    (found : result.module.tables.member? token =
      some (.field owner (Naming.backingField property) type)) :
    scope.module.tables.member? token =
      some (.field owner (Naming.backingField property) type) := by
  rcases exists_process_of_weave woven with ⟨progress, run, _, _, tables, _⟩
  rcases relies_of_process run with ⟨marshalled, relies, apart⟩
  rcases relies.members with ⟨added, grown, all⟩
  unfold Tables.member? at found ⊢
  rw [tables, grown, List.getElem?_append] at found
  split at found
  · exact found
  · rcases (all _ (List.mem_of_getElem? found)).visible with visible | ⟨name, inside, named⟩
    · exact absurd rfl (visible type rfl property)
    · cases owned.symm.trans named
      exact absurd inside (apart binding bound)

end Scope

/-- Marshalling a struct asks the layout service, which is found in the module given for
reference. -/
theorem Scope.owner_resolves_of_weave_toggle : ∃ result,
    Toggle.scope.weave = .ok (.woven result) ∧
      Toggle.scope.config.layout .structSize ∈ result.module.tables.members ∧
      Toggle.scope.config.layout .structSize ∉ Toggle.scope.module.tables.members ∧
      ∃ name, (Toggle.scope.config.layout .structSize).owner.typeName? = some name ∧
        Toggle.scope.ReliesOn name ∧
        ∃ type, (Toggle.scope.after result).resolve? name = some type := by
  rcases Toggle.exists_woven with ⟨result, woven⟩
  have member : Toggle.scope.config.layout .structSize ∈ result.module.tables.members := by
    rw [Toggle.tables_of_weave woven]
    decide
  have added : Toggle.scope.config.layout .structSize ∉ Toggle.scope.module.tables.members :=
    List.not_mem_nil
  exact ⟨result, woven, member, added,
    owner_resolves_of_weave Toggle.scope result woven _ member added⟩

end NativeWeave
