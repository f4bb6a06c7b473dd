import NativeWeave.Proofs.Editing.Bodies
import NativeWeave.Proofs.Editing.Renaming

namespace NativeWeave

/-!
# Methods that are added

What a plan adds stands behind the methods of the type.  Only accessors are taken out, which are among
those, so that everything that is added stays; and code goes in front of it only if it initializes the
type.
-/

namespace TypePlan

variable {plan : TypePlan} {type reduced : TypeDef} {method : Method}

theorem mem_methods_concat {plans : List TypePlan} (listed : plan ∈ plans)
    (added : method ∈ plan.methods) : method ∈ (concat plans).methods := by
  induction plans with
  | nil => cases listed
  | cons first more ih =>
    rcases List.mem_cons.mp listed with rfl | later
    · exact List.mem_append_left _ added
    · exact List.mem_append_right _ (ih later)

theorem length_applyRenames (renames : List (Nat × String)) (methods : List Method) :
    (applyRenames renames methods).length = methods.length := by
  induction renames generalizing methods with
  | nil => rfl
  | cons edit more ih => exact (ih _).trans (List.length_modify _ _ _)

/-- New bodies and new names leave the number of methods. -/
theorem length_of_applyBodies {bodies : List (Nat × Body)} {methods bodied : List Method}
    (applied : applyBodies bodies methods = .ok bodied) (renames : List (Nat × String)) :
    (applyRenames renames bodied).length = methods.length := by
  have same := congrArg List.length
    (map_of_applyBodies (fun method => method.name) applied fun _ _ => rfl)
  rwa [List.length_map, List.length_map, ← length_applyRenames renames] at same

/-- A method that is added is found in the edited type, if only methods of the type are taken out.  If it
is an initializer, code may go in front of its own. -/
theorem exists_of_apply_of_added (applied : plan.apply type = .ok reduced)
    (inside : ∀ index ∈ plan.removedMethods, index < type.methods.length)
    (added : method ∈ plan.methods) :
    ∃ later?, { method with body := later? } ∈ reduced.methods ∧ (later? = method.body ∨
      method.isTypeInitializer = true ∧ Prepends plan.prelude method.body later?) := by
  rcases exists_stages_of_apply applied with
    ⟨bodied, initialized, rest, ⟨bodies, installed, removed⟩, rfl⟩
  have length := length_of_applyBodies bodies plan.renames
  rcases List.mem_iff_getElem?.mp added with ⟨place, here⟩
  have there : (applyRenames plan.renames bodied ++ plan.methods)[type.methods.length + place]? =
      some method := by
    rw [← length, List.getElem?_append_right (Nat.le_add_right _ _), Nat.add_sub_cancel_left]
    exact here
  have stays : ∀ {later}, initialized.methods[type.methods.length + place]? = some later →
      later ∈ rest.methods := fun found =>
    (mem_iff_of_applyRemovals removed).mpr ⟨type.methods.length + place, fun taken =>
      Nat.not_lt_of_le (Nat.le_add_right _ _) (inside _ taken), found⟩
  by_cases first : FirstInitializer (applyRenames plan.renames bodied ++ plan.methods)
      (type.methods.length + place)
  · rcases getElem?_of_installPrelude_of_first installed there first with ⟨later?, prepends, found⟩
    rcases first.here with ⟨initializer, stands, initializes⟩
    cases there.symm.trans stands
    exact ⟨later?, stays found, .inr ⟨initializes, prepends⟩⟩
  · exact ⟨method.body, stays (getElem?_of_installPrelude installed there first), .inl rfl⟩

/-- What is added and is no initializer stays as it is. -/
theorem mem_of_apply_of_added (applied : plan.apply type = .ok reduced)
    (inside : ∀ index ∈ plan.removedMethods, index < type.methods.length)
    (added : method ∈ plan.methods) (other : method.isTypeInitializer = false) :
    method ∈ reduced.methods := by
  rcases exists_of_apply_of_added applied inside added with ⟨_, stays, rfl | ⟨initializes, _⟩⟩
  · exact stays
  · cases other.symm.trans initializes

end TypePlan

open TypePlan Emit

namespace ClassSite

variable {site : ClassSite} {member : MemberBinding} {property : Property} {slots : MemberSlots}
  {address : NativeAddress} {tokens : List UInt32} {getter : Nat}

/-- The setter of the property is a method of the type. -/
def SetsInside (site : ClassSite) (property : Property) : Prop :=
  ∀ place, property.setter = some place → place.toNat < site.type.methods.length

theorem lt_of_method {index : Nat} {method : Method} (found : site.method index = .ok method) :
    index < site.type.methods.length :=
  (List.getElem?_eq_some_iff.mp (Weave.ofOption_eq_ok found)).1

theorem yieldsInside_planGetter : (site.planGetter member getter slots address).Yields fun _ =>
    getter < site.type.methods.length := by
  unfold planGetter
  refine .bind (.lift lt_of_method) fun method inside => ?_
  exact .after fun live => .after fun load => .after fun token => .pure inside

theorem yieldsInside_planSetter :
    (site.planSetter member property slots address tokens).Yields fun _ =>
      site.SetsInside property := by
  have body : (site.planSetterBody member property slots address tokens).Yields fun _ =>
      site.SetsInside property := by
    unfold planSetterBody
    refine .after fun code => ?_
    cases declared : property.setter with
    | some place =>
      refine .bind (.lift lt_of_method) fun setter inside => .pure fun other same => ?_
      cases declared.symm.trans same
      exact inside
    | none =>
      have none : site.SetsInside property := fun place same => nomatch declared.symm.trans same
      refine .after fun isStored => ?_
      split
      · exact .pure none
      · exact .pure none
  unfold planSetter
  refine .bind body fun body inside => ?_
  split
  · exact .pure inside
  · exact .after fun token => .pure inside

theorem setsInside_of_planRemoval {result : TypePlan × List Diagnostic}
    (planned : site.planRemoval member property = .ok result) : site.SetsInside property := by
  intro place declared
  unfold planRemoval at planned
  rw [declared] at planned
  rcases bind_eq_ok_iff.mp planned with ⟨setter, found, _⟩
  exact lt_of_method found

theorem yieldsInside_planAccessors :
    (site.planAccessors member property getter).Yields fun _ =>
      getter < site.type.methods.length ∧ site.SetsInside property := by
  unfold planAccessors
  refine .after fun slots => .after fun wrapper => .after fun fill => .after fun base => ?_
  refine .bind yieldsInside_planGetter fun reading reads => ?_
  dsimp only
  split
  · refine .bind (.lift setsInside_of_planRemoval) fun removal writes => ?_
    rw [pure_bind]
    exact .pure ⟨reads, writes⟩
  · refine .bind yieldsInside_planSetter fun setter writes => ?_
    rw [pure_bind]
    exact .pure ⟨reads, writes⟩

/-- No property takes out a method that is not one of the type. -/
theorem yieldsGives_planProperty_of_le {index : Nat} (far : site.type.methods.length ≤ index) :
    (site.planProperty member).Yields fun planned => planned.plan.Gives index none := by
  unfold planProperty
  split
  · refine .bind (.lift Weave.ofOption_eq_ok) fun property found => ?_
    refine .bind (.lift Weave.ofOption_eq_ok) fun getter declared => ?_
    intro before after planned run
    rcases yieldsInside_planAccessors before after planned run with ⟨reads, writes⟩
    exact yieldsGives_planAccessors (Nat.ne_of_lt (Nat.lt_of_lt_of_le reads far))
      (fun place same => Nat.ne_of_lt (Nat.lt_of_lt_of_le (writes place same) far))
      before after planned run
  · exact .pure gives_empty

/-- No constructor is one of other methods. -/
theorem gives_of_planConstructors_of_le {backing : Backing} {effects : List ConstructionEffect}
    {index : Nat} (far : site.type.methods.length ≤ index) :
    (site.planConstructors backing effects).Yields fun planned => planned.1.Gives index none := by
  refine .bind (.mapM fun item member => yieldsGives_planConstructor ?_) fun parts each =>
    .pure (gives_foldl_addPlan gives_empty each)
  rcases List.mem_map.mp member with ⟨⟨constructor, place⟩, listed, rfl⟩
  have inside := List.snd_lt_of_mem_zipIdx (List.mem_filter.mp listed).1
  exact Nat.ne_of_lt (Nat.lt_of_lt_of_le inside far)

end ClassSite

theorem Backing.gives_of_methodPlans_of_le {backing : Backing} {type : TypeDef} {plan : TypePlan}
    {result : TypePlan × List Diagnostic} {index : Nat}
    (planned : backing.methodPlans type plan = .ok result) (far : type.methods.length ≤ index) :
    result.1.Gives index none := by
  unfold methodPlans at planned
  split at planned
  · cases planned
    exact gives_empty
  · rcases bind_eq_ok_iff.mp planned with ⟨parts, run, final⟩
    cases final
    refine gives_concat_map fun part member => ?_
    rcases exists_of_mem_mapM run member with ⟨⟨found, place⟩, kept, step⟩
    have inside := List.snd_lt_of_mem_zipIdx (List.mem_filter.mp kept).1
    exact gives_of_methodPlan step (Nat.ne_of_lt (Nat.lt_of_lt_of_le inside far))

namespace ClassBinding.Planning

variable {config : Config} {source : Module} {type : TypeDef} {binding : ClassBinding}
  {before after : Tables}

/-- Only methods of the class are taken out. -/
theorem removed_inside (planning : binding.Planning config source type before after) :
    ∀ index ∈ planning.plan.removedMethods, index < type.methods.length := by
  intro index taken
  by_contra far
  rw [Nat.not_lt] at far
  have properties : ∀ planned ∈ planning.properties, planned.plan.Gives index none :=
    Yields.mapM (fun member _ => ClassSite.yieldsGives_planProperty_of_le far) _ _ _
      planning.accessors
  have constructed : planning.constructed.1.Gives index none :=
    ClassSite.gives_of_planConstructors_of_le far _ _ _ planning.constructors
  have redirected : planning.redirected.1.Gives index none :=
    Backing.gives_of_methodPlans_of_le planning.others far
  have functions : ∀ plan ∈ planning.functions, plan.Gives index none :=
    Yields.mapM (fun function _ => ClassSite.yieldsGives_planFunction _ function) _ _ _ planning.last
  have slot : planning.classPtr.plan.Gives index none :=
    yieldsGives_staticSlot index _ _ _ planning.slot
  have accessors : planning.accessorPlan.Gives index none :=
    (gives_of_nil rfl rfl).append (gives_concat_map properties)
  have late : (concat planning.functions
      ++ ({ touched := [Method.initializerName] } : TypePlan)).Gives index none :=
    (gives_concat functions).append (gives_of_nil rfl rfl)
  have whole := slot.append (((accessors.append constructed).append redirected).append late)
  exact whole.stays taken

/-- What the plan of a function adds is added to the class. -/
theorem mem_methods (planning : binding.Planning config source type before after) {plan : TypePlan}
    (listed : plan ∈ planning.functions) {method : Method} (added : method ∈ plan.methods) :
    method ∈ planning.plan.methods := by
  have inside := mem_methods_concat listed added
  exact List.mem_append_right _ (List.mem_append_right _ (List.mem_append_left _ inside))

end ClassBinding.Planning

end NativeWeave
