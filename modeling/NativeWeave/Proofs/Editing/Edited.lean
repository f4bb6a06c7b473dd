import NativeWeave.Proofs.Binding.Order
import NativeWeave.Proofs.Extraction.Checked
import NativeWeave.Proofs.Weaving

namespace NativeWeave

/-!
# What becomes of the types of a module

Every type of a woven module is a type of the source, as it was or with the edits of one plan, which
was worked out for a binding of it from the source and from tables that the final ones contain.  A
class that its name means is edited in any case, for a class with mistakes ends the run.
-/

/-- The plan was worked out without mistakes for the binding of a type, from tables that contain
those of the source, and left the tables `after`. -/
inductive TypeBinding.Plans (config : Config) (source : Module) (type : TypeDef) :
    TypeBinding → TypePlan → Tables → Prop
  | ofStruct {binding : StructBinding} {plan : TypePlan} {before after : Tables}
    (grown : source.tables.Grows before)
    (made : binding.plan? config type before = .ok (some plan, after)) :
    Plans config source type (.ofStruct binding) plan after
  | ofClass {binding : ClassBinding} {plan : TypePlan} {diagnostics : List Diagnostic}
    {before after : Tables} (grown : source.tables.Grows before)
    (made : binding.plan config source type before = .ok ((plan, diagnostics), after))
    (clean : Diagnostic.hasErrors diagnostics = false) :
    Plans config source type (.ofClass binding) plan after

/-- The second type is the first one with the edits of a plan for a binding of it.  The tables of the
module contain what the plan refers to. -/
def Module.EditedAs (module : Module) (config : Config) (source : Module) (binding : TypeBinding)
    (type now : TypeDef) : Prop :=
  ∃ plan after, binding.Plans config source type plan after ∧ after.Grows module.tables ∧
    plan.apply type = .ok now

theorem Module.EditedAs.grow {module next source : Module} {config : Config}
    {binding : TypeBinding} {type now : TypeDef}
    (edited : module.EditedAs config source binding type now)
    (grows : module.tables.Grows next.tables) : next.EditedAs config source binding type now := by
  rcases edited with ⟨plan, after, plans, within, applied⟩
  exact ⟨plan, after, plans, within.trans grows, applied⟩

/-- The binding is the one that its name means. -/
def Bindings.Picks (bindings : Bindings) : TypeBinding → Prop
  | .ofClass binding => bindings.findClass? binding.name = some binding
  | .ofStruct binding => bindings.findStruct? binding.name = some binding
  | .ofEnum _ => False

theorem Bindings.Picks.mem {bindings : Bindings} {binding : TypeBinding}
    (picks : bindings.Picks binding) : binding ∈ bindings := by
  cases binding with
  | ofClass binding => exact (ofClass_mem_of_findClass? picks).1
  | ofStruct binding => exact (ofStruct_mem_of_findStruct? picks).1
  | ofEnum binding => exact picks.elim

/-- The type of the binding has to be edited. -/
def TypeBinding.NeedsEdit (config : Config) : TypeBinding → Prop
  | .ofClass _ => True
  | .ofStruct binding => binding.blittable = true ∨ config.isCoreStruct binding.name = false
  | .ofEnum _ => False

theorem StructBinding.not_needsEdit_of_plan? {config : Config} {type : TypeDef}
    {binding : StructBinding} {before after : Tables}
    (made : binding.plan? config type before = .ok (none, after)) :
    ¬ (TypeBinding.ofStruct binding).NeedsEdit config := by
  unfold plan? at made
  split at made
  · cases made
  · next generic =>
    split at made
    · next core =>
      rintro (blittable | plain)
      · exact generic blittable
      · exact Bool.false_ne_true (plain.symm.trans core)
    · rcases Emit.exists_of_bind made with ⟨plan, middle, _, final⟩
      cases final

/-! ## One edit -/

/-- What editing for a binding does to a draft: either it enters references only, which happens to
a class with mistakes or a struct that stays, or it replaces the type at the place of the binding. -/
inductive Draft.Changes (draft : Draft) (binding : TypeBinding) : Draft → Prop
  | extended {after : Tables} {diagnostics : List Diagnostic}
    (grown : draft.module.tables.Extends after)
    (mistaken : binding.NeedsEdit draft.config → Diagnostic.hasErrors diagnostics = true) :
    Changes draft binding { draft with
      module := { draft.module with tables := after }
      diagnostics := draft.diagnostics ++ diagnostics }
  | edited {type current now : TypeDef} {plan : TypePlan} {after : Tables}
    {diagnostics : List Diagnostic}
    (declared : draft.source.types[binding.place]? = some type)
    (here : draft.module.types[binding.place]? = some current)
    (grown : draft.module.tables.Extends after)
    (plans : draft.source.tables.Grows draft.module.tables →
      binding.Plans draft.config draft.source type plan after)
    (applied : plan.apply current = .ok now) :
    Changes draft binding { draft with
      module := { draft.module with
        types := draft.module.types.set binding.place now, tables := after }
      diagnostics := draft.diagnostics ++ diagnostics }

namespace Draft

variable {draft next : Draft}

theorem Changes.source_eq {binding : TypeBinding} (changes : draft.Changes binding next) :
    next.source = draft.source := by
  cases changes <;> rfl

theorem declaration_eq_ok {index : Nat} {name : QualifiedName} {type : TypeDef}
    (found : draft.declaration index name = .ok type) :
    draft.source.types[index]? = some type :=
  (Option.filter_eq_some_iff.mp (Weave.ofOption_eq_ok found)).1

theorem planned_eq_ok {Plan : Type} {plan : Emit Plan} {result : Plan}
    (planned : draft.planned plan = .ok (result, next)) :
    ∃ after, plan draft.module.tables = .ok (result, after) ∧
      next = { draft with module := { draft.module with tables := after } } := by
  rcases bind_eq_ok_iff.mp planned with ⟨⟨given, after⟩, run, final⟩
  cases final
  exact ⟨after, run, rfl⟩

theorem commit_eq_ok {index : Nat} {plan : TypePlan}
    (committed : draft.commit index plan = .ok next) :
    ∃ current now, draft.module.types[index]? = some current ∧ plan.apply current = .ok now ∧
      next = { draft with
        module := { draft.module with types := draft.module.types.set index now } } := by
  rcases bind_eq_ok_iff.mp committed with ⟨module, commit, final⟩
  cases final
  unfold Module.commit at commit
  split at commit
  · cases commit
  · next current here =>
    rcases bind_eq_ok_iff.mp commit with ⟨now, applied, commit⟩
    rcases bind_eq_ok_iff.mp commit with ⟨_, _, final⟩
    cases final
    exact ⟨current, now, here, applied, rfl⟩

theorem changes_editStruct {binding : StructBinding}
    (edited : draft.editStruct binding = .ok next) : draft.Changes (.ofStruct binding) next := by
  rcases bind_eq_ok_iff.mp edited with ⟨type, found, edited⟩
  rcases bind_eq_ok_iff.mp edited with ⟨⟨plan?, extended⟩, planned, edited⟩
  rcases planned_eq_ok planned with ⟨after, made, rfl⟩
  have grown : draft.module.tables.Extends after := Emit.Grows.extended made
  cases plan? with
  | none =>
    cases edited
    have stays := StructBinding.not_needsEdit_of_plan? made
    have changes := @Changes.extended _ (.ofStruct binding) after [] grown (absurd · stays)
    rwa [List.append_nil] at changes
  | some plan =>
    rcases commit_eq_ok edited with ⟨current, now, here, applied, rfl⟩
    have changes := @Changes.edited draft (.ofStruct binding) type current now plan after []
      (declaration_eq_ok found) here grown (fun contained => .ofStruct contained made) applied
    rwa [List.append_nil] at changes

theorem changes_editClass {binding : ClassBinding}
    (edited : draft.editClass binding = .ok next) : draft.Changes (.ofClass binding) next := by
  rcases bind_eq_ok_iff.mp edited with ⟨type, found, edited⟩
  rcases bind_eq_ok_iff.mp edited with ⟨⟨⟨plan, diagnostics⟩, extended⟩, planned, edited⟩
  rcases planned_eq_ok planned with ⟨after, made, rfl⟩
  have grown : draft.module.tables.Extends after := Emit.Grows.extended made
  dsimp only at edited
  split at edited
  · next mistaken =>
    cases edited
    exact .extended grown fun _ => mistaken
  · next clean =>
    rcases commit_eq_ok edited with ⟨current, now, here, applied, rfl⟩
    exact .edited (declaration_eq_ok found) here grown
      (fun contained => .ofClass contained made (Bool.not_eq_true _ ▸ clean)) applied

/-! ## A run of edits -/

/-- The draft of a source: each type is the one of the source or was edited once, and the types
without a processed name are as they were. -/
structure Follows (draft : Draft) (scope : Scope) (processed : List QualifiedName) : Prop where
  config : draft.config = scope.config
  source : draft.source = scope.module
  grown : scope.module.tables.Grows draft.module.tables
  length : draft.module.types.length = scope.module.types.length
  untouched : ∀ {index : Nat} {type : TypeDef}, scope.module.types[index]? = some type →
    type.qualifiedName ∉ processed → draft.module.types[index]? = some type
  each : ∀ {index : Nat} {type : TypeDef}, scope.module.types[index]? = some type →
    ∃ now, draft.module.types[index]? = some now ∧ (now = type ∨
      ∃ binding, scope.extract.bindings.Picks binding ∧ binding.place = index ∧
        draft.module.EditedAs scope.config scope.module binding type now)

/-- At the start the draft is the source. -/
theorem follows_of_start {scope : Scope} {bindings : Bindings}
    (begun : Draft.start scope bindings = .ok draft) : draft.Follows scope [] := by
  cases eq_of_start begun
  exact ⟨rfl, rfl, .refl _, rfl, fun present _ => present, fun present => ⟨_, present, .inl rfl⟩⟩

/-- The type of the binding has been edited, unless there are mistakes. -/
def Completes (draft : Draft) (scope : Scope) (binding : TypeBinding) : Prop :=
  Diagnostic.hasErrors draft.diagnostics = true ∨
    ∃ type now, scope.module.types[binding.place]? = some type ∧
      draft.module.types[binding.place]? = some now ∧
      draft.module.EditedAs scope.config scope.module binding type now

variable {scope : Scope} {processed : List QualifiedName} {binding declared : TypeBinding}

/-- The first edit under a name keeps the draft in line with its source. -/
theorem Follows.step (follows : draft.Follows scope processed)
    (picks : scope.extract.bindings.Picks binding) (fresh : binding.name ∉ processed)
    (changes : draft.Changes binding next) : next.Follows scope (binding.name :: processed) := by
  cases changes with
  | extended grown mistaken =>
    refine ⟨follows.config, follows.source, follows.grown.trans grown.grows, follows.length, ?_, ?_⟩
    · intro index type present unprocessed
      exact follows.untouched present (List.not_mem_of_not_mem_cons unprocessed)
    · intro index type present
      rcases follows.each present with ⟨now, there, rfl | ⟨other, inside, place, edited⟩⟩
      · exact ⟨now, there, .inl rfl⟩
      · exact ⟨now, there, .inr ⟨other, inside, place, edited.grow grown.grows⟩⟩
  | @edited type current now plan after diagnostics declared here grown plans applied =>
    rw [follows.source] at declared plans
    rw [follows.config] at plans
    have named := Scope.qualifiedName_of_mem_extract picks.mem declared
    have unchanged := follows.untouched declared (named ▸ fresh)
    cases here.symm.trans unchanged
    refine ⟨follows.config, follows.source, follows.grown.trans grown.grows,
      List.length_set.trans follows.length, ?_, ?_⟩
    · intro index other present unprocessed
      have different : binding.place ≠ index := by
        rintro rfl
        cases declared.symm.trans present
        exact unprocessed (named ▸ List.mem_cons_self)
      change (draft.module.types.set binding.place now)[index]? = some other
      rw [List.getElem?_set_ne different]
      exact follows.untouched present (List.not_mem_of_not_mem_cons unprocessed)
    · intro index other present
      by_cases same : binding.place = index
      · subst same
        cases declared.symm.trans present
        have inside := (List.getElem?_eq_some_iff.mp here).1
        exact ⟨now, List.getElem?_set_self inside, .inr ⟨binding, picks, rfl, plan, after,
          plans follows.grown, .refl after, applied⟩⟩
      · rcases follows.each present with ⟨found, there, origin⟩
        refine ⟨found, (List.getElem?_set_ne same).trans there, origin.imp_right ?_⟩
        rintro ⟨former, inside, place, edited⟩
        exact ⟨former, inside, place, edited.grow grown.grows⟩

/-- Editing completes the type of its binding, if that has to be edited. -/
theorem Follows.completes (follows : draft.Follows scope processed)
    (member : declared ∈ scope.extract.bindings) (fresh : declared.name ∉ processed)
    (needed : declared.NeedsEdit scope.config) (changes : draft.Changes declared next) :
    next.Completes scope declared := by
  cases changes with
  | extended grown mistaken =>
    left
    change Diagnostic.hasErrors (draft.diagnostics ++ _) = true
    rw [Diagnostic.hasErrors_append, mistaken (follows.config ▸ needed), Bool.or_true]
  | @edited type current now plan after diagnostics present here grown plans applied =>
    right
    rw [follows.source] at present plans
    rw [follows.config] at plans
    have named := Scope.qualifiedName_of_mem_extract member present
    have unchanged := follows.untouched present (named ▸ fresh)
    cases here.symm.trans unchanged
    have inside := (List.getElem?_eq_some_iff.mp here).1
    exact ⟨type, now, present, List.getElem?_set_self inside, plan, after,
      plans follows.grown, .refl after, applied⟩

/-- A completed type stays so when a type of another name is edited. -/
theorem Completes.step (completes : draft.Completes scope declared)
    (follows : draft.Follows scope processed) (earlier : declared ∈ scope.extract.bindings)
    (member : binding ∈ scope.extract.bindings) (different : binding.name ≠ declared.name)
    (changes : draft.Changes binding next) : next.Completes scope declared := by
  rcases completes with mistaken | ⟨type, now, present, there, edited⟩
  · left
    cases changes with
    | extended grown _ =>
      change Diagnostic.hasErrors (draft.diagnostics ++ _) = true
      rw [Diagnostic.hasErrors_append, mistaken, Bool.true_or]
    | edited _ _ grown _ _ =>
      change Diagnostic.hasErrors (draft.diagnostics ++ _) = true
      rw [Diagnostic.hasErrors_append, mistaken, Bool.true_or]
  · right
    cases changes with
    | extended grown _ => exact ⟨type, now, present, there, edited.grow grown.grows⟩
    | edited declaredHere _ grown _ _ =>
      refine ⟨type, now, present, ?_, edited.grow grown.grows⟩
      have apart : binding.place ≠ declared.place := by
        intro same
        rw [follows.source, same] at declaredHere
        cases declaredHere.symm.trans present
        have one := Scope.qualifiedName_of_mem_extract earlier present
        have two := Scope.qualifiedName_of_mem_extract member (same ▸ present)
        exact different (two.symm.trans one)
      exact (List.getElem?_set_ne apart).trans there

end Draft

namespace Progress

variable {bindings : Bindings} {progress next : Progress} {name : QualifiedName}

theorem processStruct_eq_ok
    (processed : progress.processStruct bindings name = .ok next) :
    name ∉ progress.ledger.processed ∧ next.ledger.processed = name :: progress.ledger.processed ∧
      ∃ binding, bindings.findStruct? name = some binding ∧
        progress.draft.Changes (.ofStruct binding) next.draft ∧
        ∃ hash, progress.known.addStruct bindings binding =
          .ok (hash, next.known) := by
  rcases exists_of_processStruct processed with ⟨fresh, recorded, binding, found, edited, hashed⟩
  exact ⟨fresh, recorded, binding, found, Draft.changes_editStruct edited, hashed⟩

theorem processClass_eq_ok
    (processed : progress.processClass bindings name = .ok next) :
    name ∉ progress.ledger.processed ∧ next.ledger.processed = name :: progress.ledger.processed ∧
      ∃ binding, bindings.findClass? name = some binding ∧
        progress.draft.Changes (.ofClass binding) next.draft ∧
        ∃ hash, progress.known.addClass bindings progress.draft.source binding =
          .ok (hash, next.known) := by
  rcases exists_of_processClass processed with ⟨fresh, recorded, binding, found, edited, hashed⟩
  exact ⟨fresh, recorded, binding, found, Draft.changes_editClass edited, hashed⟩

end Progress

namespace Scope

variable {scope : Scope} {result : WovenModule}

/-- A run over the annotated types edits each of them at most once, and every one that its name means
if it has to be edited. -/
theorem follows_of_process {progress : Progress}
    (run : scope.process scope.extract.bindings = .ok progress) :
    (∃ processed, progress.draft.Follows scope processed) ∧
      ∀ binding, scope.extract.bindings.Picks binding → binding.NeedsEdit scope.config →
        progress.draft.Completes scope binding := by
  rcases exists_stages_of_process run with ⟨structs, classes, _, _, _, stages, rfl⟩
  have middle := foldlM_achieves
    (fun progress : Progress => progress.draft.Follows scope progress.ledger.processed)
    (fun name progress => name ∈ progress.ledger.processed ∧
      ∀ binding, scope.extract.bindings.findStruct? name = some binding →
        (TypeBinding.ofStruct binding).NeedsEdit scope.config →
          progress.draft.Completes scope (.ofStruct binding))
    (Draft.follows_of_start stages.begun) ?_ stages.first
  · -- What has been done to structs stays when the classes are processed.
    have final := foldlM_achieves
      (fun progress : Progress => progress.draft.Follows scope progress.ledger.processed ∧
        ∀ binding, scope.extract.bindings.findStruct? binding.name = some binding →
          binding.name ∈ progress.ledger.processed ∧
          ((TypeBinding.ofStruct binding).NeedsEdit scope.config →
            progress.draft.Completes scope (.ofStruct binding)))
      (fun name progress => name ∈ progress.ledger.processed ∧
        ∀ binding, scope.extract.bindings.findClass? name = some binding →
          progress.draft.Completes scope (.ofClass binding)) ⟨middle.1, fun binding found => ?_⟩ ?_
      stages.second
    · refine ⟨⟨_, final.1.1⟩, fun binding picks needed => ?_⟩
      cases binding with
      | ofStruct binding => exact (final.1.2 binding picks).2 needed
      | ofClass binding =>
        have known := (Bindings.ofClass_mem_of_findClass? picks).1
        have member : binding ∈ scope.extract.bindings.classes :=
          List.mem_filterMap.mpr ⟨_, known, rfl⟩
        exact (final.2.1 _ (Bindings.mem_classOrder stages.classesOrdered member)).2 binding picks
      | ofEnum binding => exact picks.elim
    · have known := (Bindings.ofStruct_mem_of_findStruct? found).1
      have listed := (Bindings.sortedBy_structOrder stages.structsOrdered).2.2 binding
        (List.mem_filterMap.mpr ⟨_, known, rfl⟩)
      rcases middle.2.1 _ listed with ⟨processed, completes⟩
      exact ⟨processed, completes binding found⟩
    · rintro progress name next _ ⟨follows, structs⟩ step
      rcases progress.processClass_eq_ok step with
        ⟨fresh, recorded, binding, found, changes, _⟩
      rcases Bindings.ofClass_mem_of_findClass? found with ⟨member, rfl⟩
      have picks : scope.extract.bindings.Picks (.ofClass binding) := found
      rw [recorded]
      have other : ∀ declared ∈ scope.extract.bindings, declared.name ∈ progress.ledger.processed →
          progress.draft.Completes scope declared → next.draft.Completes scope declared := by
        refine fun declared inside earlier completes =>
          completes.step follows inside member (fun named => ?_) changes
        change binding.name = declared.name at named
        exact fresh (named.symm ▸ earlier)
      refine ⟨⟨follows.step picks fresh changes, fun struct found => ?_⟩,
        ⟨List.mem_cons_self, fun other same => ?_⟩, ?_⟩
      · rcases structs struct found with ⟨earlier, completed⟩
        have inside := (Bindings.ofStruct_mem_of_findStruct? found).1
        exact ⟨List.mem_cons_of_mem _ earlier,
          fun needed => other _ inside earlier (completed needed)⟩
      · cases found.symm.trans same
        exact follows.completes member fresh trivial changes
      · rintro name ⟨earlier, completed⟩
        refine ⟨List.mem_cons_of_mem _ earlier, fun declared same => ?_⟩
        rcases Bindings.ofClass_mem_of_findClass? same with ⟨inside, rfl⟩
        exact other _ inside earlier (completed declared same)
  · intro progress name next _ follows step
    rcases progress.processStruct_eq_ok step with ⟨fresh, recorded, binding, found, changes, _⟩
    rcases Bindings.ofStruct_mem_of_findStruct? found with ⟨member, rfl⟩
    have picks : scope.extract.bindings.Picks (.ofStruct binding) := found
    rw [recorded]
    refine ⟨follows.step picks fresh changes,
      ⟨List.mem_cons_self, fun other same needed => ?_⟩, ?_⟩
    · cases found.symm.trans same
      exact follows.completes member fresh needed changes
    · rintro other ⟨earlier, completed⟩
      refine ⟨List.mem_cons_of_mem _ earlier, fun declared same needed => ?_⟩
      rcases Bindings.ofStruct_mem_of_findStruct? same with ⟨inside, rfl⟩
      refine (completed declared same needed).step follows inside member ?_ changes
      intro named
      change binding.name = declared.name at named
      exact fresh (named.symm ▸ earlier)

/-- A module is woven from a run over its bindings without errors, and its report tells the hashes of
that run. -/
theorem exists_report_of_weave (woven : scope.weave = .ok (.woven result)) :
    ∃ progress, scope.process scope.extract.bindings = .ok progress ∧
      Diagnostic.hasErrors progress.draft.diagnostics = false ∧
      Report.ofBindings progress.known scope.module.name scope.extract.bindings =
        .ok result.report ∧
      result.module = { progress.draft.module with
        flags := progress.draft.module.flags ||| Module.wovenFlag } := by
  unfold weave at woven
  split at woven
  · cases woven
  · dsimp only at woven
    split at woven
    · cases woven
    · split at woven
      · cases woven
      · rcases bind_eq_ok_iff.mp woven with ⟨progress, run, woven⟩
        dsimp only at woven
        split at woven
        · cases woven
        · next clean =>
          rcases bind_eq_ok_iff.mp woven with ⟨report, reported, final⟩
          cases final
          rw [Bool.not_eq_true, Diagnostic.hasErrors_append, Bool.or_eq_false_iff] at clean
          exact ⟨progress, run, clean.2, reported, rfl⟩

/-- A woven module comes from a run without mistakes. -/
theorem exists_process_of_weave (woven : scope.weave = .ok (.woven result)) :
    ∃ progress, scope.process scope.extract.bindings = .ok progress ∧
      Diagnostic.hasErrors progress.draft.diagnostics = false ∧
      result.module.types = progress.draft.module.types ∧
      result.module.tables = progress.draft.module.tables ∧
      result.module = { progress.draft.module with
        flags := progress.draft.module.flags ||| Module.wovenFlag } := by
  rcases exists_report_of_weave woven with ⟨progress, run, clean, _, same⟩
  exact ⟨progress, run, clean, by rw [same], by rw [same], same⟩

/-- The tables of a woven module begin with those of the source; each type is the one of the source
or that one with the edits of a plan; and every type that its name means has been edited, if it has to
be. -/
theorem types_of_weave (woven : scope.weave = .ok (.woven result)) :
    scope.module.tables.Grows result.module.tables ∧
    result.module.types.length = scope.module.types.length ∧
    (∀ {index type}, scope.module.types[index]? = some type →
      ∃ now, result.module.types[index]? = some now ∧ (now = type ∨
        ∃ binding, scope.extract.bindings.Picks binding ∧ binding.place = index ∧
          result.module.EditedAs scope.config scope.module binding type now)) ∧
    ∀ {binding type}, scope.extract.bindings.Picks binding → binding.NeedsEdit scope.config →
      scope.module.types[binding.place]? = some type →
        ∃ now, result.module.types[binding.place]? = some now ∧
          result.module.EditedAs scope.config scope.module binding type now := by
  rcases exists_process_of_weave woven with ⟨progress, run, clean, types, tables, _⟩
  rcases follows_of_process run with ⟨⟨processed, follows⟩, completes⟩
  have grows : progress.draft.module.tables.Grows result.module.tables := tables ▸ .refl _
  rw [types]
  refine ⟨follows.grown.trans grows, follows.length, fun {index type} present => ?_,
    fun {binding type} picks needed present => ?_⟩
  · rcases follows.each present with ⟨now, there, same | ⟨binding, picks, place, edited⟩⟩
    · exact ⟨now, there, .inl same⟩
    · exact ⟨now, there, .inr ⟨binding, picks, place, edited.grow grows⟩⟩
  · rcases completes binding picks needed with mistaken | ⟨other, now, declared, there, edited⟩
    · rw [clean] at mistaken
      cases mistaken
    · cases present.symm.trans declared
      exact ⟨now, there, edited.grow grows⟩

end Scope

/-- The tables of the woven struct. -/
theorem Toggle.tables_of_weave {result : WovenModule} (woven : scope.weave = .ok (.woven result)) :
    result.module.tables = tables := by
  have structs : Bindings.structOrder [.ofStruct binding] = .ok [binding.name] := by cbv
  have classes : Bindings.classOrder [.ofStruct binding] = .ok [] := rfl
  have started : Draft.start scope [.ofStruct binding] = .ok draft := rfl
  rcases exists_processStruct with ⟨hash, processed⟩
  rcases Scope.exists_process_of_weave woven with ⟨progress, run, _, _, same, _⟩
  simp only [extract_scope, Scope.process, structs, classes, started, List.foldlM_cons,
    List.foldlM_nil, processed, ok_bind] at run
  cases run
  exact same

end NativeWeave
