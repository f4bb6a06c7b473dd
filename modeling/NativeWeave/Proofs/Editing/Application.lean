import NativeWeave.Proofs.Editing.Placement
import NativeWeave.Proofs.Verification.Growth

namespace NativeWeave

/-!
# What a plan leaves unverified

After a plan has been applied only the methods with the names that it lists are verified.  That is
enough if the plan lists the names of all methods that get new code, under the names with which they
end up: then each method of the edited type is verified, or it has the code that a method of the
type had before.
-/

/-- The methods have the same code, and it runs with the same arguments and the same result. -/
structure Method.SameCode (first second : Method) : Prop where
  body : first.body = second.body
  arguments : first.argumentCount = second.argumentCount
  result : first.result = second.result

namespace TypePlan

/-- The plan lists all methods that it gives new code. -/
structure Covered (plan : TypePlan) (type : TypeDef) : Prop where
  bodies : ∀ edit ∈ plan.bodies, ∃ method, type.methods[edit.1]? = some method ∧
    method.name ∈ plan.touched
  methods : ∀ method ∈ plan.methods, method.name ∈ plan.touched
  /-- A method with a new body is listed under its new name too. -/
  renames : ∀ edit ∈ plan.renames, plan.replaces edit.1 = true → edit.2 ∈ plan.touched
  prelude : plan.prelude = [] ∨ Method.initializerName ∈ plan.touched

/-! ## The steps of applying a plan -/

/-- A method that got no new body is the method that it was; a method that got one keeps its name. -/
theorem getElem?_of_applyBodies {bodies : List (Nat × Body)} {methods edited : List Method}
    (applied : applyBodies bodies methods = .ok edited) {index : Nat} {method : Method}
    (found : edited[index]? = some method) :
    ∃ source, methods[index]? = some source ∧ method.name = source.name ∧
      (method = source ∨ ∃ edit ∈ bodies, edit.1 = index) := by
  rw [getElem?_applyBodies applied] at found
  rcases Option.map_eq_some_iff.mp found with ⟨source, here, rfl⟩
  refine ⟨source, here, rfl, ?_⟩
  cases own : lastBody? index bodies with
  | none => exact .inl rfl
  | some body => exact .inr ⟨_, mem_of_lastBody? own, rfl⟩

/-- Renaming keeps the code; a method with another name got it from the plan. -/
theorem getElem?_of_applyRenames {renames : List (Nat × String)} {methods : List Method}
    {index : Nat} {method : Method} (found : (applyRenames renames methods)[index]? = some method) :
    ∃ source, methods[index]? = some source ∧ method.SameCode source ∧
      (method.name = source.name ∨ (index, method.name) ∈ renames) := by
  rw [getElem?_applyRenames] at found
  rcases Option.map_eq_some_iff.mp found with ⟨source, here, rfl⟩
  have code : (renamed index renames source).SameCode source :=
    ⟨body_renamed _ _ _, view_renamed Method.argumentCount (fun _ _ _ => rfl) _ _ _,
      view_renamed (fun method => method.result) (fun _ _ _ => rfl) _ _ _⟩
  exact ⟨source, here, code, name_renamed index renames source⟩

/-- Only the initializer is changed by code that goes in front of it. -/
theorem mem_of_installPrelude {prelude : Fragment} {type extended : TypeDef}
    (installed : installPrelude prelude type = .ok extended) {method : Method}
    (member : method ∈ extended.methods) :
    method ∈ type.methods ∨ prelude ≠ [] ∧ method.name = Method.initializerName := by
  cases installs_of_installPrelude installed with
  | idle => exact .inl member
  | added something =>
    rcases List.mem_append.mp member with old | new
    · exact .inl old
    · cases List.mem_singleton.mp new
      exact .inr ⟨something, rfl⟩
  | extended something _ initializes =>
    rcases List.mem_or_eq_of_mem_set member with old | rfl
    · exact .inl old
    · simp only [Method.isTypeInitializer, Bool.and_eq_true, beq_iff_eq] at initializes
      exact .inr ⟨something, initializes.1⟩

/-- Removing methods leaves some of the others. -/
theorem mem_of_applyRemovals {indices : List Nat} {type reduced : TypeDef}
    (removed : applyRemovals indices type = .ok reduced) :
    ∀ method ∈ reduced.methods, method ∈ type.methods := by
  intro method member
  rcases (mem_iff_of_applyRemovals removed).mp member with ⟨_, _, there⟩
  exact List.mem_of_getElem? there

/-! ## Applying a plan -/

/-- A method of the edited type is listed by the plan, or its code is that of a method which the
type had before. -/
theorem Covered.mem_of_apply {plan : TypePlan} {type edited : TypeDef} (covered : plan.Covered type)
    (applied : plan.apply type = .ok edited) {method : Method} (member : method ∈ edited.methods) :
    method.name ∈ plan.touched ∨ ∃ source ∈ type.methods, method.SameCode source := by
  rcases exists_stages_of_apply applied with
    ⟨bodied, initialized, rest, ⟨bodies, installed, removed⟩, rfl⟩
  rcases mem_of_installPrelude installed (mem_of_applyRemovals removed method member) with
    old | ⟨nonempty, name⟩
  · rcases List.mem_append.mp old with renamed | added
    · rcases List.mem_iff_getElem?.mp renamed with ⟨index, found⟩
      rcases getElem?_of_applyRenames found with ⟨middle, there, code, origin⟩
      obtain ⟨source, stood, name, rfl | ⟨edit, replaced, rfl⟩⟩ :=
        getElem?_of_applyBodies bodies there
      · exact .inr ⟨middle, List.mem_of_getElem? stood, code⟩
      · left
        rcases origin with kept | given
        · rcases covered.bodies edit replaced with ⟨original, same, listed⟩
          cases stood.symm.trans same
          rw [kept, name]
          exact listed
        · apply covered.renames _ given
          exact List.any_eq_true.mpr ⟨edit, replaced, beq_self_eq_true _⟩
    · exact .inl (covered.methods method added)
  · left
    rw [name]
    exact covered.prelude.resolve_left nonempty

theorem verify_of_verifyTouched {touched : List String} {tables : Tables} {type : TypeDef}
    (passed : verifyTouched touched tables type = .ok ()) {method : Method}
    (member : method ∈ type.methods) (listed : method.name ∈ touched) :
    method.verify tables = .ok () := by
  refine eq_ok_of_mapError (eq_ok_of_forM passed method ?_)
  exact List.mem_filter.mpr ⟨member, List.contains_iff_mem.mpr listed⟩

theorem verifyTouched_of_verify {touched : List String} {tables : Tables} {type : TypeDef}
    (each : ∀ method ∈ type.methods, method.verify tables = .ok ()) :
    verifyTouched touched tables type = .ok () := by
  refine forM_eq_ok fun method listed => ?_
  rw [each method (List.mem_filter.mp listed).1]
  rfl

end TypePlan

/-! ## Committing a plan -/

/-- A plan that lists what it gives new code is committed to a verified module only if the result is
verified; the other types stay what they are. -/
theorem Module.verify_of_commit {module committed : Module} {index : Nat} {plan : TypePlan}
    {type : TypeDef} (here : module.types[index]? = some type) (covered : plan.Covered type)
    (verified : module.verify = .ok ()) (commit : module.commit index plan = .ok committed) :
    committed.verify = .ok () ∧
      ∀ other, other ≠ index → committed.types[other]? = module.types[other]? := by
  unfold Module.commit at commit
  rw [here] at commit
  rcases bind_eq_ok_iff.mp commit with ⟨edited, applied, commit⟩
  rcases bind_eq_ok_iff.mp commit with ⟨_, passed, final⟩
  cases final
  rcases module.verify_eq_ok_iff.mp verified with ⟨valid, bodies⟩
  constructor
  · refine (Module.verify_eq_ok_iff _).mpr ⟨valid, ?_⟩
    intro target present method member
    rcases List.mem_or_eq_of_mem_set present with old | rfl
    · exact bodies target old method member
    · rcases covered.mem_of_apply applied member with listed | ⟨source, had, same⟩
      · exact TypePlan.verify_of_verifyTouched passed member listed
      · rw [Method.verify_congr same.body same.arguments same.result]
        exact bodies type (List.mem_of_getElem? here) source had
  · intro other different
    exact List.getElem?_set_ne (Ne.symm different)

end NativeWeave
