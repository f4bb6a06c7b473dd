import NativeWeave.Proofs.Outcome
import NativeWeave.Weaving

namespace NativeWeave

/-!
# Modules of one class

A module that declares nothing but one annotated class is woven by editing that class.  If it declares
classes of that name again, these are bound as well, but only the first one is edited.
-/

namespace Bindings

variable {binding : ClassBinding} {twins : List ClassBinding}

theorem classes_map_ofClass (bindings : List ClassBinding) :
    classes (bindings.map .ofClass) = bindings := by
  rw [classes, List.filterMap_map]
  exact List.filterMap_some

/-- Without structs there is no struct to process. -/
theorem structOrder_map_ofClass (bindings : List ClassBinding) :
    structOrder (bindings.map .ofClass) = .ok [] := by
  have none : structs (bindings.map .ofClass) = [] := by
    rw [structs, List.filterMap_map]
    exact List.filterMap_eq_nil_iff.mpr fun _ _ => rfl
  rw [structOrder, none, List.map_nil, visitAll]

/-- The base class has no binding, so that the class comes first, and no other class comes behind. -/
theorem classOrder_map_ofClass (rootward : ∀ base ∈ binding.base, base ≠ binding.name)
    (same : ∀ twin ∈ twins, twin.name = binding.name) :
    classOrder ((binding :: twins).map .ofClass) = .ok [binding.name] := by
  have chain : ancestors ((binding :: twins).map .ofClass) [] [binding.name] binding.base =
      .ok [binding.name] := by
    cases given : binding.base with
    | none => rw [ancestors]
    | some base =>
      have unbound : findClass? ((binding :: twins).map .ofClass) base = none := by
        rw [findClass?, classes_map_ofClass, List.find?_eq_none]
        have other := (rootward base given).symm
        rw [List.forall_mem_cons]
        refine ⟨by simpa using other, fun twin listed => ?_⟩
        rw [same twin listed]
        simpa using other
      rw [ancestors, if_neg List.not_mem_nil]
      split
      · rfl
      · next found => cases unbound.symm.trans found
  have still : ∀ twins : List ClassBinding, (∀ twin ∈ twins, twin.name = binding.name) →
      ∀ bindings : Bindings, twins.foldlM bindings.appendClass [binding.name] =
        .ok [binding.name] := by
    intro twins same bindings
    induction twins with
    | nil => rfl
    | cons twin more ih =>
      rw [List.forall_mem_cons] at same
      rw [List.foldlM_cons, appendClass, if_pos (List.mem_singleton.mpr same.1)]
      exact ih same.2
  rw [classOrder, classes_map_ofClass, List.foldlM_cons, appendClass, if_neg List.not_mem_nil, chain]
  exact still twins same _

end Bindings

/-- The first class of a module with its binding and what becomes of it, and further classes of the
same name. -/
structure Scope.FirstClass (scope : Scope) (type edited : TypeDef) (others : List TypeDef)
    (binding : ClassBinding) (twins : List ClassBinding) (plan : TypePlan) (tables : Tables) :
    Prop where
  fresh : scope.module.isWoven = false
  types : scope.module.types = type :: others
  extracted : scope.extract = ⟨(binding :: twins).map .ofClass, []⟩
  same : ∀ twin ∈ twins, twin.name = binding.name
  place : binding.type = 0
  name : type.fullName = binding.name.full
  rootward : ∀ base ∈ binding.base, base ≠ binding.name
  supported : scope.checkCollaborators (Bindings.categories ((binding :: twins).map .ofClass)) =
    .ok ()
  hashed : ∃ hashes, ({} : Fingerprints).addClass ((binding :: twins).map .ofClass) scope.module
    binding = .ok (hashes, { classes := [(binding.name, hashes)] })
  planned : binding.plan scope.config scope.module type scope.module.tables =
    .ok ((plan, []), tables)
  applied : plan.apply type = .ok edited
  verified : TypePlan.verifyTouched plan.touched tables edited = .ok ()

namespace Scope.FirstClass

variable {scope : Scope} {type edited : TypeDef} {others : List TypeDef} {binding : ClassBinding}
  {twins : List ClassBinding} {plan : TypePlan} {tables : Tables}

theorem editClass (first : scope.FirstClass type edited others binding twins plan tables) :
    Draft.editClass ⟨scope.config, scope.module, scope.module, []⟩ binding =
      .ok ⟨scope.config, scope.module,
        { scope.module with types := edited :: others, tables }, []⟩ := by
  have found : Draft.declaration ⟨scope.config, scope.module, scope.module, []⟩ binding.type
      binding.name = .ok type := by
    have kept : (some type).filter (fun type => type.fullName == binding.name.full) = some type :=
      Option.filter_eq_some_iff.mpr ⟨rfl, beq_iff_eq.mpr first.name⟩
    rw [Draft.declaration, first.types, first.place]
    change Weave.ofOption ((some type).filter _) _ = _
    rw [kept]
    rfl
  have committed : { scope.module with tables }.commit binding.type plan =
      .ok { scope.module with types := edited :: others, tables } := by
    have here : ({ scope.module with tables } : Module).types[binding.type]? = some type := by
      rw [first.place]
      exact congrArg (fun types : List TypeDef => types[0]?) first.types
    rw [Module.commit, here]
    change (plan.apply type >>= fun edited =>
      TypePlan.verifyTouched plan.touched tables edited >>= fun _ => pure _) = _
    rw [first.applied, ok_bind, first.verified, ok_bind, first.place, first.types]
    rfl
  rw [Draft.editClass, found, ok_bind, Draft.planned, first.planned]
  simp only [ok_bind, pure_bind, Draft.commit, committed]
  rfl

/-- Each of the classes is reported with the hash of the first one. -/
theorem exists_report (first : scope.FirstClass type edited others binding twins plan tables)
    (hashes : ClassHashes) : ∃ report, Report.ofBindings { classes := [(binding.name, hashes)] }
      scope.module.name ((binding :: twins).map .ofClass) = .ok report := by
  have each : ∀ declared ∈ (binding :: twins).map TypeBinding.ofClass, ∃ report,
      TypeReport.ofBinding { classes := [(binding.name, hashes)] } scope.module.name declared =
        .ok report := by
    rw [List.forall_mem_map]
    intro declared listed
    have named : declared.name = binding.name := by
      rcases List.mem_cons.mp listed with rfl | twin
      · rfl
      · exact first.same declared twin
    have known : ({ classes := [(binding.name, hashes)] } : Fingerprints).class? declared.name =
        some hashes := by
      simp [Fingerprints.class?, named]
    simp only [TypeReport.ofBinding, known]
    exact ⟨_, rfl⟩
  rcases exists_mapM each with ⟨reports, made⟩
  rw [Report.ofBindings, made]
  exact ⟨_, rfl⟩

/-- The module is woven, and the first class is what has become of its types. -/
theorem exists_woven (first : scope.FirstClass type edited others binding twins plan tables) :
    ∃ result, scope.weave = .ok (.woven result) ∧ result.module.types = edited :: others ∧
      result.module.tables = tables := by
  rcases first.hashed with ⟨hashes, hashed⟩
  have marked : ({} : Ledger).mark binding.name = .ok ⟨[binding.name]⟩ := rfl
  have bound : Progress.bound (Bindings.findClass? ((binding :: twins).map .ofClass) binding.name)
      binding.name = .ok binding := by
    have found : Bindings.findClass? ((binding :: twins).map .ofClass) binding.name =
        some binding := List.find?_cons_of_pos (beq_self_eq_true _)
    rw [found]
    rfl
  have started : Draft.start scope ((binding :: twins).map .ofClass) =
      .ok ⟨scope.config, scope.module, scope.module, []⟩ := by
    have needed : Bindings.needCode ((binding :: twins).map .ofClass) = true := rfl
    rw [Draft.start, needed, if_pos rfl, first.supported]
    rfl
  have processed : Progress.processClass ((binding :: twins).map .ofClass)
      { draft := ⟨scope.config, scope.module, scope.module, []⟩ } binding.name =
        .ok ⟨⟨[binding.name]⟩, { classes := [(binding.name, hashes)] },
          ⟨scope.config, scope.module,
            { scope.module with types := edited :: others, tables }, []⟩⟩ := by
    simp only [Progress.processClass, marked, bound, hashed, first.editClass, ok_bind]
    rfl
  have enums : Bindings.enums ((binding :: twins).map .ofClass) = [] := by
    rw [Bindings.enums, List.filterMap_map]
    exact List.filterMap_eq_nil_iff.mpr fun _ _ => rfl
  rcases first.exists_report hashes with ⟨report, reported⟩
  rw [Scope.weave, first.fresh, if_neg Bool.false_ne_true]
  simp only [first.extracted]
  rw [if_neg (by decide), if_neg (by simp)]
  simp only [Scope.weaveBindings, Scope.process, Bindings.structOrder_map_ofClass,
    Bindings.classOrder_map_ofClass first.rootward first.same, started, List.foldlM_cons,
    List.foldlM_nil, pure_bind, processed, ok_bind, enums, List.map_nil]
  change ∃ result, (Report.ofBindings _ _ _ >>= _) = _ ∧ _
  rw [reported]
  exact ⟨_, rfl, rfl, rfl⟩

end Scope.FirstClass

/-- The only class of a module, with its binding and what becomes of it. -/
structure Scope.SoleClass (scope : Scope) (type edited : TypeDef) (binding : ClassBinding)
    (plan : TypePlan) (tables : Tables) : Prop where
  fresh : scope.module.isWoven = false
  types : scope.module.types = [type]
  extracted : scope.extract = ⟨[.ofClass binding], []⟩
  place : binding.type = 0
  name : type.fullName = binding.name.full
  rootward : ∀ base ∈ binding.base, base ≠ binding.name
  supported : scope.checkCollaborators (Bindings.categories [.ofClass binding]) = .ok ()
  hashed : ∃ hashes, ({} : Fingerprints).addClass [.ofClass binding] scope.module binding =
    .ok (hashes, { classes := [(binding.name, hashes)] })
  planned : binding.plan scope.config scope.module type scope.module.tables =
    .ok ((plan, []), tables)
  applied : plan.apply type = .ok edited
  verified : TypePlan.verifyTouched plan.touched tables edited = .ok ()

namespace Scope.SoleClass

variable {scope : Scope} {type edited : TypeDef} {binding : ClassBinding} {plan : TypePlan}
  {tables : Tables}

theorem firstClass (sole : scope.SoleClass type edited binding plan tables) :
    scope.FirstClass type edited [] binding [] plan tables where
  fresh := sole.fresh
  types := sole.types
  extracted := sole.extracted
  same := nofun
  place := sole.place
  name := sole.name
  rootward := sole.rootward
  supported := sole.supported
  hashed := sole.hashed
  planned := sole.planned
  applied := sole.applied
  verified := sole.verified

/-- The module is woven, and the class is what has become of its types. -/
theorem exists_woven (sole : scope.SoleClass type edited binding plan tables) :
    ∃ result, scope.weave = .ok (.woven result) ∧ result.module.types = [edited] ∧
      result.module.tables = tables :=
  sole.firstClass.exists_woven

end Scope.SoleClass

end NativeWeave
