import NativeWeave.Proofs.Editing.Accessors
import NativeWeave.Proofs.Editing.Bodies
import NativeWeave.Proofs.Editing.Construction
import NativeWeave.Proofs.Editing.Edited
import NativeWeave.Proofs.Format.Body

namespace NativeWeave

/-!
# Constructors of woven classes

A constructor of an annotated class ends up as it was, or as its edit.  What its edit does follows
from the paths of the original: wherever a path goes straight to the call of the base class, the
values that it stored to hidden fields before are set right after the call.  Nothing asks whether
control goes straight there, so a constructor that jumps past an early store has its value set all
the same.
-/

theorem Edits.exists_toCode_toBody {backing : Backing} {code later : Code} {baseCall : Nat}
    {settings effects : List Fragment} (edits : Edits backing code later baseCall settings effects)
    (inside : later.TargetsInside) (locals : List Signature)
    (short : (later.toBody locals).code.length < 2 ^ 31) :
    ∃ edited, (later.toBody locals).toCode = .ok edited ∧
      Edits backing code edited baseCall settings effects := by
  rw [Code.toBody, Code.length_encode] at short
  have storable := Code.storable_of_targetsInside inside short
  rcases Code.exists_toCode_toBody storable locals with ⟨edited, read, same⟩
  exact ⟨edited, read, edits.congr same.symm⟩

theorem Method.isTypeInitializer_of_isConstructor {method : Method}
    (constructs : method.isConstructor = true) : method.isTypeInitializer = false := by
  rw [isConstructor, Bool.and_eq_true, beq_iff_eq, Bool.not_eq_true'] at constructs
  rw [isTypeInitializer, constructs.2, Bool.and_false]

/-- What becomes of the body of a constructor of a class.  `effects` are those of the properties of
the class, of which the constructor has the ones that its own stores leave needed. -/
inductive ClassSite.Reconstructs (site : ClassSite) (tables : Tables) (backing : Backing)
    (effects : List ConstructionEffect) (index : Nat) (body : Body) (code : Code) : Body → Prop
  /-- Nothing has to be done. -/
  | kept (idle : wantedEffects effects (backingStores backing code)
        (site.binding.construction == some index) = [])
      (untouched : ∀ instr ∈ code.instrs, backing.touched? instr = none) :
      Reconstructs site tables backing effects index body code body
  | edited {baseCall : Nat} {token : UInt32} {called : MemberRef} {before after : Tables}
      {settings emitted : List Fragment} {later : Body}
      (call : code.instrs[baseCall]? = some (.call token))
      (found : site.source.tables.member? token = some called)
      (constructs : called.isConstructor = true)
      (base : some called.owner = site.type.base ∨ called.owner = site.owner)
      (emission : (wantedEffects effects (backingStores backing code)
        (site.binding.construction == some index)).mapM site.emitEffect before =
          .ok (emitted, after))
      (within : after.Grows tables)
      (edits : later.code.length < 2 ^ 31 → ∃ edited, later.toCode = .ok edited ∧
        Edits backing code edited baseCall settings emitted) :
      Reconstructs site tables backing effects index body code later

namespace Scope

variable {scope : Scope} {result : WovenModule}

/-- A woven class was planned without mistakes, from tables that the woven module contains. -/
theorem exists_planning_of_weave (woven : scope.weave = .ok (.woven result))
    (indexed : result.module.tables.Indexed) {binding : ClassBinding}
    (bound : scope.extract.bindings.findClass? binding.name = some binding) {type : TypeDef}
    (present : scope.module.types[binding.type]? = some type) :
    ∃ before after now,
      ∃ planning : binding.Planning scope.config scope.module type before after,
        result.module.types[binding.type]? = some now ∧ planning.plan.apply type = .ok now ∧
        after.Grows result.module.tables ∧
        Diagnostic.hasErrors planning.diagnostics = false ∧
        planning.backing.Serves scope.module.tables result.module.tables type binding ∧
        planning.plan.Adds type (binding.additions scope.config type) := by
  rcases types_of_weave woven with ⟨sourceGrows, _, _, classes⟩
  rcases @classes (.ofClass binding) type bound trivial present with
    ⟨now, there, plan, after, plans, within, applied⟩
  cases plans with
  | @ofClass _ _ diagnostics before _ _ made clean =>
    rcases ClassBinding.exists_planning made with ⟨planning, same⟩
    have adds := yieldsAdds_classPlan scope.module binding _ _ _ made
    cases same
    have serves := ClassSite.serves_of_planProperties planning.accessors
      (planning.second_grows within) indexed (indexed.of_grows sourceGrows)
    exact ⟨before, after, now, planning, there, applied, within, clean, serves, adds⟩

theorem constructor_of_weave (woven : scope.weave = .ok (.woven result))
    (indexed : result.module.tables.Indexed) {binding : ClassBinding}
    (bound : scope.extract.bindings.findClass? binding.name = some binding) {type : TypeDef}
    (present : scope.module.types[binding.type]? = some type) {index : Nat} {constructor : Method}
    (here : type.methods[index]? = some constructor) (constructs : constructor.isConstructor = true)
    (accessor : ¬ binding.IsAccessor type index)
    (function : ∀ function ∈ binding.functions, function.method ≠ index) {body : Body}
    (bodied : constructor.body = some body) :
    ∃ classPtr backing effects code later now,
      backing.Serves scope.module.tables result.module.tables type binding ∧
      ClassSite.Effects ⟨scope.config, scope.module, type, binding, classPtr⟩ result.module.tables
        effects ∧
      body.toCode = .ok code ∧
      ClassSite.Reconstructs ⟨scope.config, scope.module, type, binding, classPtr⟩
        result.module.tables backing effects index body code later ∧
      result.module.types[binding.type]? = some now ∧
      { constructor with body := some later } ∈ now.methods := by
  rcases exists_planning_of_weave woven indexed bound present with
    ⟨before, after, now, planning, there, applied, within, clean, serves, adds⟩
  rcases planning.constructor clean here constructs accessor with
    ⟨start, finish, part, begun, ended, own, fine, gives⟩
  have finishGrows : finish.Grows result.module.tables := ended.trans (planning.third_grows within)
  have secondGrows : planning.second.Grows result.module.tables :=
    begun.trans ((Emit.Grows.grows own).trans finishGrows)
  have effects := ClassSite.effects_of_planProperties planning.accessors secondGrows indexed
  have named : TypePlan.renamed index planning.plan.renames constructor = constructor := by
    refine TypePlan.renamed_of_ne ?_ _
    rw [adds.renames, ClassBinding.additions_renames]
    exact List.forall_mem_map.mpr function
  have other : ¬ planning.plan.Initializes type index := by
    rintro ⟨⟨method, there, initializes⟩, _⟩
    cases here.symm.trans there
    rw [named, Method.isTypeInitializer_of_isConstructor constructs] at initializes
    cases initializes
  have placed : ∀ body?, part.1.Gives index body? →
      constructor.withBody? body? ∈ now.methods := by
    intro body? given
    have whole := gives body? given
    have member := (TypePlan.mem_of_apply applied here whole.stays).1 other
    rwa [whole.body, named] at member
  rcases ClassSite.constructed_of_planConstructor own fine bodied with
    ⟨code, _, read, rfl, ⟨nothing, idle, untouched⟩ | ⟨baseCall, edited, settings, emitted,
      called, emission, replaced, inside, edits⟩⟩
  · rw [nothing] at placed
    have member := placed none TypePlan.gives_empty
    rw [Method.withBody?, Option.none_or, bodied] at member
    exact ⟨_, _, _, code, body, now, serves, effects, read, .kept idle untouched, there, member⟩
  · rw [replaced] at placed
    have member := placed _ (TypePlan.gives_replaceBody index constructor.name
      (edited.toBody body.locals))
    rw [if_pos rfl, Method.withBody?, Option.some_or] at member
    rcases ClassSite.baseCall?_eq_some called with ⟨token, found, call, names, builds, owner⟩
    exact ⟨_, _, _, code, edited.toBody body.locals, now, serves, effects, read,
      .edited call names builds owner emission finishGrows
        (edits.exists_toCode_toBody inside body.locals), there, member⟩

end Scope

end NativeWeave
