import NativeWeave.Proofs.Editing.Redirection
import NativeWeave.Proofs.Editing.Sparing
import NativeWeave.Proofs.Extraction.Lawful

namespace NativeWeave

/-!
# Classes without uses of hidden fields

Each stage of planning a class takes uses of hidden fields out of some bodies: accessors get new ones,
constructors and other methods are redirected, and what none of them changes had no such use.  So
nothing in the edited class uses a hidden field.
-/

open Emit TypePlan

theorem Instr.fieldToken?_of_isConstant {instr : Instr} (constant : instr.isConstant = true) :
    instr.fieldToken? = none := by
  cases instr with
  | member op token => cases constant
  | _ => rfl

/-! ## Constructors -/

namespace Edits

variable {backing : Backing} {code later : Code} {baseCall : Nat} {settings effects : List Fragment}
  {hidden : UInt32 → Prop}

/-- Settings push the receiver and a constant and call a setter. -/
theorem fieldToken?_of_mem_settings (edits : Edits backing code later baseCall settings effects)
    {instr : Instr} (member : instr ∈ settings.flatten) : instr.fieldToken? = none := by
  rcases List.mem_flatten.mp member with ⟨setting, listed, inside⟩
  have given : some setting ∈ (ClassSite.earlyStores backing code baseCall).map
      (backing.setting? code) := by
    rw [edits.early]
    exact List.mem_map_of_mem listed
  rcases List.mem_map.mp given with ⟨store, _, found⟩
  rcases Backing.setting?_eq_some found with ⟨value, setter, rfl, stored, _⟩
  have constant := (ClassSite.storedConstant?_eq_some_iff.mp stored).2.2.2
  have all : ∀ instr ∈ [Instr.loadArg 0, value, .call setter], instr.fieldToken? = none :=
    List.forall_mem_cons.mpr ⟨rfl, List.forall_mem_cons.mpr
      ⟨Instr.fieldToken?_of_isConstant constant, List.forall_mem_singleton.mpr rfl⟩⟩
  exact all instr inside

/-- Nothing in an edited constructor uses a field that the table knows. -/
theorem uses (edits : Edits backing code later baseCall settings effects)
    (knows : backing.Knows hidden)
    (emitted : ∀ fragment ∈ effects, fragment.Uses (¬ hidden ·)) :
    Fragment.Uses (¬ hidden ·) later.instrs := by
  intro instr member token own
  rcases edits.origin instr member with ⟨original, old, rename, rfl⟩ | injected
  · rw [Instruction.fieldToken?_mapTarget] at own
    exact knows.not_of_touched? (edits.redirected original old) own
  · rcases List.mem_append.mp injected with setting | effect
    · cases (edits.fieldToken?_of_mem_settings setting).symm.trans own
    · rcases List.mem_flatten.mp effect with ⟨fragment, listed, inside⟩
      exact emitted fragment listed instr inside token own

end Edits

namespace Backing

variable {backing : Backing} {hidden : UInt32 → Prop} {body : Body} {code : Code}

/-- A body that touches nothing in the table uses no field that the table knows. -/
theorem Knows.spares (knows : backing.Knows hidden) (untouched : ∀ code, body.toCode = .ok code →
    ∀ instr ∈ code.instrs, backing.touched? instr = none) : body.Spares hidden :=
  fun code read instr member _ uses => knows.not_of_touched? (untouched code read instr member) uses

theorem Knows.spares_redirectCode (knows : backing.Knows hidden)
    (fine : ∀ instr ∈ code.instrs, backing.touched? (backing.redirect instr) = none)
    (locals : List Signature) : ((backing.redirectCode code).toBody locals).Spares hidden := by
  refine Body.spares_toBody (List.forall_mem_map.mpr fun instr member token uses => ?_)
  exact knows.not_of_touched? (fine instr member) uses

end Backing

namespace ClassSite

variable {site : ClassSite} {tables : Tables} {backing : Backing}
  {effects : List ConstructionEffect}

/-- The table knows the hidden fields of the class. -/
abbrev Knows (site : ClassSite) (backing : Backing) (tables : Tables) : Prop :=
  backing.Knows (site.binding.Hides tables site.type)

theorem leavesSpares_planConstructor {index : Nat} {method : Method} :
    (site.planConstructor backing effects index method).Leaves fun tables planned =>
      site.Knows backing tables → Diagnostic.hasErrors planned.2 = false →
        site.Spares tables planned.1 := by
  intro before after planned run tables grows indexed knows clean
  cases bodied : method.body with
  | none =>
    unfold planConstructor at run
    rw [bodied] at run
    cases run
    exact spares_empty
  | some body =>
    rcases constructed_of_planConstructor run clean bodied with ⟨code, wanted, read, rfl,
      ⟨nothing, _⟩ | ⟨baseCall, later, settings, emitted, _, emission, replaced, _, edits⟩⟩
    · rw [nothing]
      exact spares_empty
    · have uses := Leaves.mapM (fun effect _ => site.emits_emitEffect effect) _ _ _ emission tables
        grows indexed
      rw [replaced]
      exact spares_replaceBody (Body.spares_toBody (edits.uses knows uses)) _ _

theorem spares_foldl_addPlan {parts : List (TypePlan × List Diagnostic)}
    {start : TypePlan × List Diagnostic} (first : site.Spares tables start.1)
    (each : ∀ part ∈ parts, site.Spares tables part.1) :
    site.Spares tables (parts.foldl addPlan start).1 := by
  induction parts generalizing start with
  | nil => exact first
  | cons part more ih =>
    rw [List.forall_mem_cons] at each
    exact ih (first.append each.1) each.2

theorem leavesSpares_planConstructors :
    (site.planConstructors backing effects).Leaves fun tables planned =>
      site.Knows backing tables → Diagnostic.hasErrors planned.2 = false →
        site.Spares tables planned.1 := by
  refine .bind (.mapM fun constructor _ => leavesSpares_planConstructor) fun parts => .pure ?_
  intro tables each knows clean
  rw [hasErrors_foldl_addPlan, Bool.or_eq_false_iff, List.any_eq_false] at clean
  refine spares_foldl_addPlan spares_empty fun part member => each part member knows ?_
  exact Bool.not_eq_true _ ▸ clean.2 part member

/-- Redirected methods use no field that the table knows. -/
theorem spares_of_methodPlans {plan : TypePlan} {result : TypePlan × List Diagnostic}
    (planned : backing.methodPlans site.type plan = .ok result)
    (knows : site.Knows backing tables) (clean : Diagnostic.hasErrors result.2 = false) :
    site.Spares tables result.1 := by
  unfold Backing.methodPlans at planned
  split at planned
  · cases planned
    exact spares_empty
  · rcases bind_eq_ok_iff.mp planned with ⟨parts, run, final⟩
    cases final
    refine spares_concat (List.forall_mem_map.mpr fun part member => ?_)
    rcases exists_of_mem_mapM run member with ⟨⟨method, index⟩, _, step⟩
    have fine := Diagnostic.hasErrors_flatMap.mp clean part member
    rcases Backing.redirected_of_methodPlan (.inr step) fine with
      ⟨nothing, _⟩ | ⟨body, code, _, _, replaced, redirected⟩
    · rw [nothing]
      exact spares_empty
    · rw [replaced]
      exact spares_replaceBody (knows.spares_redirectCode redirected _) _ _

end ClassSite

/-! ## Classes -/

namespace ClassBinding.Planning

variable {config : Config} {source : Module} {type now : TypeDef} {binding : ClassBinding}
  {before after tables : Tables}

/-- The whole plan spares the hidden fields. -/
theorem spares (planning : binding.Planning config source type before after)
    (grows : after.Grows tables) (indexed : tables.Indexed)
    (knows : planning.backing.Knows (binding.Hides tables type))
    (clean : Diagnostic.hasErrors planning.diagnostics = false) :
    planning.site.Spares tables planning.plan := by
  rcases planning.clean_iff.mp clean with ⟨_, fine, alright⟩
  have classPtr : type.IsSlot tables planning.classPtr.value :=
    leaves_slot type _ _ _ _ _ planning.slot tables (planning.start_grows grows) indexed
  have slot : planning.site.Spares tables planning.classPtr.plan :=
    planning.site.spares_staticSlot tables _ _ _ planning.slot
  have findType : planning.findType.Populates config tables type :=
    Prelude.fills_nativeType type _ _ _ _ _ planning.typed tables (planning.first_grows grows) indexed
      classPtr
  have properties : ∀ planned ∈ planning.properties, planning.site.Spares tables planned.plan :=
    fun planned member => Leaves.mapM (fun member _ => ClassSite.leavesSpares_planProperty member)
      _ _ _ planning.accessors tables (planning.second_grows grows) indexed planned member classPtr
  have constructed : planning.site.Spares tables planning.constructed.1 :=
    ClassSite.leavesSpares_planConstructors _ _ _ planning.constructors tables
      (planning.third_grows grows) indexed knows fine
  have redirected : planning.site.Spares tables planning.redirected.1 :=
    ClassSite.spares_of_methodPlans planning.others knows alright
  have functions : ∀ plan ∈ planning.functions, planning.site.Spares tables plan :=
    fun plan member => Leaves.mapM (fun function _ =>
      ClassSite.leavesSpares_planFunction _ function) _ _ _ planning.last tables grows indexed plan
        member classPtr
  have accessors := (ClassSite.spares_prelude findType).append
    (ClassSite.spares_concat (List.forall_mem_map.mpr properties))
  exact slot.append (((accessors.append constructed).append redirected).append
    ((ClassSite.spares_concat functions).append (ClassSite.spares_of_nil rfl rfl rfl)))

/-- A body that the whole plan leaves as it is uses no hidden field: each stage would have changed
it. -/
theorem spares_left (planning : binding.Planning config source type before after)
    (knows : planning.backing.Knows (binding.Hides tables type))
    (clean : Diagnostic.hasErrors planning.diagnostics = false) {index : Nat} {method : Method}
    {body : Body} (here : type.methods[index]? = some method) (bodied : method.body = some body)
    (stays : index ∉ planning.plan.removedMethods)
    (left : lastBody? index planning.plan.bodies = none) :
    body.Spares (binding.Hides tables type) := by
  rcases planning.clean_iff.mp clean with ⟨_, fine, alright⟩
  change lastBody? index (planning.classPtr.plan.bodies ++ (planning.accessorPlan.bodies
    ++ planning.constructed.1.bodies ++ planning.redirected.1.bodies ++ _)) = none at left
  simp only [lastBody?_append, Option.or_eq_none_iff] at left
  rcases left with ⟨⟨_, redirected, constructed, accessors⟩, _⟩
  cases constructs : method.isConstructor with
  | true =>
    have listed : (index, method) ∈ type.constructors := by
      refine List.mem_map.mpr ⟨(method, index), List.mem_filter.mpr ⟨?_, constructs⟩, rfl⟩
      exact List.mk_mem_zipIdx_iff_getElem?.mpr here
    rcases ClassSite.gives_of_planConstructors planning.constructors listed with
      ⟨start, finish, part, _, _, own, carries, gives⟩
    rcases ClassSite.constructed_of_planConstructor own (carries fine) bodied with
      ⟨code, _, read, rfl, ⟨_, _, untouched⟩ | ⟨_, later, _, _, _, _, replaced, _, _⟩⟩
    · refine knows.spares fun other again => ?_
      cases read.symm.trans again
      exact untouched
    · rw [replaced] at gives
      have given := (gives _ (gives_replaceBody index _ _)).body
      rw [constructed, if_pos rfl] at given
      cases given
  | false =>
    have kept : (planning.accessorPlan ++ planning.constructed.1).Gives index none := by
      refine ⟨?_, fun member => stays ?_⟩
      · change lastBody? index (planning.accessorPlan.bodies ++ planning.constructed.1.bodies) = none
        rw [lastBody?_append, accessors, constructed]
        rfl
      · exact List.mem_append_right _ (List.mem_append_left _ (List.mem_append_left _ member))
    rcases Backing.method_of_methodPlans planning.others here constructs kept with
      ⟨part, planned, carries, gives⟩
    rcases Backing.redirected_of_methodPlan planned (carries alright) with
      ⟨_, untouched⟩ | ⟨_, code, _, _, replaced, _⟩
    · exact knows.spares (untouched body bodied)
    · rw [replaced] at gives
      have given := (gives _ (gives_replaceBody index _ _)).body
      rw [redirected, if_pos rfl] at given
      cases given

end ClassBinding.Planning

namespace TypePlan

variable {hidden : UInt32 → Prop} {prelude : Fragment} {body later : Body}

/-- Code in front of a body breaks nothing if it uses no field at all. -/
theorem spares_of_prependCode (none : ∀ instr ∈ prelude, instr.fieldToken? = none)
    (prepended : prependCode prelude body = .ok later) (spares : body.Spares hidden) :
    later.Spares hidden := by
  rcases bind_eq_ok_iff.mp prepended with ⟨code, loaded, prepended⟩
  have read : body.toCode = .ok code := eq_ok_of_mapError loaded
  rw [Code.insert?_zero] at prepended
  cases prepended
  refine Body.spares_toBody (List.forall_mem_append.mpr ⟨fun instr member token uses => ?_,
    List.forall_mem_map.mpr fun instr member => ?_⟩)
  · cases (none instr member).symm.trans uses
  · rw [Instruction.fieldToken?_mapTarget]
    exact spares code read instr member

end TypePlan

namespace ClassBinding.Planning

variable {config : Config} {source : Module} {type now : TypeDef} {binding : ClassBinding}
  {before after tables : Tables}

/-- Nothing in the edited class uses a hidden field. -/
theorem spared (planning : binding.Planning config source type before after)
    (grows : after.Grows tables) (indexed : tables.Indexed)
    (knows : planning.backing.Knows (binding.Hides tables type))
    (clean : Diagnostic.hasErrors planning.diagnostics = false)
    (applied : planning.plan.apply type = .ok now) :
    ∀ method ∈ now.methods, ∀ body ∈ method.body, body.Spares (binding.Hides tables type) := by
  have spares := planning.spares grows indexed knows clean
  have none : ∀ instr ∈ planning.plan.prelude, instr.fieldToken? = none :=
    fun instr member => (spares.prelude instr member).fieldToken?_eq
  refine forall_body_of_apply applied spares.bodies spares.methods ?_
    (fun body later => spares_of_prependCode none) ?_ ?_
  · exact fun index method body here bodied stays left =>
      planning.spares_left knows clean here bodied stays left
  · intro code read
    cases read
    exact Fragment.uses_nil
  · intro body fresh
    cases fresh
    refine Body.spares_toBody (List.forall_mem_append.mpr ⟨fun instr member token uses => ?_, ?_⟩)
    · cases (none instr member).symm.trans uses
    · exact Fragment.uses_of_none rfl

end ClassBinding.Planning

end NativeWeave
