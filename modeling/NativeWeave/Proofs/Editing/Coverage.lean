import NativeWeave.Editing.Class
import NativeWeave.Editing.Struct
import NativeWeave.Proofs.Editing.Application
import NativeWeave.Proofs.Marshalling.Emission

namespace NativeWeave

/-!
# Every plan lists what it gives new code

Plans of members list the methods that they give new code, and their edits are put together from the
edits of the members.  A function gives its method a new name after other members may have given it
a new body; which methods these are is therefore a parameter of the property that all parts have.
-/

namespace TypePlan

/-- The part of a plan lists the methods that it gives new code, and they are among those that the
whole plan replaces; a method among those is listed under its new name too. -/
structure Listed (plan : TypePlan) (type : TypeDef) (replaced : Nat → Bool) : Prop where
  bodies : ∀ edit ∈ plan.bodies, replaced edit.1 = true ∧
    ∃ method, type.methods[edit.1]? = some method ∧ method.name ∈ plan.touched
  methods : ∀ method ∈ plan.methods, method.name ∈ plan.touched
  renames : ∀ edit ∈ plan.renames, replaced edit.1 = true → edit.2 ∈ plan.touched

variable {type : TypeDef} {replaced : Nat → Bool}

/-- A plan that leaves the methods alone has nothing to list. -/
theorem listed_of_nil {plan : TypePlan} (bodies : plan.bodies = []) (methods : plan.methods = [])
    (renames : plan.renames = []) : plan.Listed type replaced where
  bodies := by simp [bodies]
  methods := by simp [methods]
  renames := by simp [renames]

theorem listed_replaceBody {index : Nat} {method : Method} (body : Body)
    (found : type.methods[index]? = some method) (counted : replaced index = true) :
    (replaceBody index method.name body).Listed type replaced where
  bodies edit member := by
    cases List.mem_singleton.mp member
    exact ⟨counted, method, found, List.mem_singleton_self method.name⟩
  methods _ member := by cases member
  renames _ member := by cases member

theorem listed_addMethod (method : Method) : (addMethod method).Listed type replaced where
  bodies _ member := by cases member
  methods added member := by
    cases List.mem_singleton.mp member
    exact List.mem_singleton_self method.name
  renames _ member := by cases member

theorem Listed.append {first second : TypePlan} (front : first.Listed type replaced)
    (back : second.Listed type replaced) : (first ++ second).Listed type replaced where
  bodies edit member := by
    rcases List.mem_append.mp member with one | other
    · rcases front.bodies edit one with ⟨counted, method, found, listed⟩
      exact ⟨counted, method, found, List.mem_append_left _ listed⟩
    · rcases back.bodies edit other with ⟨counted, method, found, listed⟩
      exact ⟨counted, method, found, List.mem_append_right _ listed⟩
  methods method member := by
    rcases List.mem_append.mp member with one | other
    · exact List.mem_append_left _ (front.methods method one)
    · exact List.mem_append_right _ (back.methods method other)
  renames edit member counted := by
    rcases List.mem_append.mp member with one | other
    · exact List.mem_append_left _ (front.renames edit one counted)
    · exact List.mem_append_right _ (back.renames edit other counted)

theorem listed_concat {plans : List TypePlan} (each : ∀ plan ∈ plans, plan.Listed type replaced) :
    (concat plans).Listed type replaced := by
  induction plans with
  | nil => exact listed_of_nil rfl rfl rfl
  | cons plan more ih =>
    rw [List.forall_mem_cons] at each
    exact each.1.append (ih each.2)

/-- The plans of several items, put together. -/
theorem listed_concat_map {Item : Type} {items : List Item} {part : Item → TypePlan}
    (each : ∀ item ∈ items, (part item).Listed type replaced) :
    (concat (items.map part)).Listed type replaced :=
  listed_concat (List.forall_mem_map.mpr each)

/-- A plan of which every part does its listing is one that lists everything. -/
theorem Listed.covered {plan : TypePlan} (listed : plan.Listed type replaced)
    (prelude : plan.prelude = [] ∨ Method.initializerName ∈ plan.touched) :
    plan.Covered type where
  bodies edit member := (listed.bodies edit member).2
  methods := listed.methods
  renames edit member again := by
    rcases List.any_eq_true.mp again with ⟨other, inside, same⟩
    apply listed.renames edit member
    rw [← beq_iff_eq.mp same]
    exact (listed.bodies other inside).1
  prelude := prelude

/-- Without new names it does not matter which methods the whole plan replaces. -/
theorem Listed.ofReplaces {plan : TypePlan} (listed : plan.Listed type fun _ => true) :
    plan.Listed type plan.replaces where
  bodies edit member :=
    ⟨List.any_eq_true.mpr ⟨edit, member, beq_self_eq_true _⟩, (listed.bodies edit member).2⟩
  methods := listed.methods
  renames edit member _ := listed.renames edit member rfl

end TypePlan

open TypePlan Emit

variable {config : Config} {type : TypeDef} {replaced : Nat → Bool}

/-! ## Slots -/

theorem yields_staticSlot (type : TypeDef) (replaced : Nat → Bool) {owner kind : Signature}
    {name : String} :
    (staticSlot owner name kind).Yields fun slot => slot.plan.Listed type replaced := by
  unfold staticSlot
  exact .after fun token => .pure (listed_of_nil rfl rfl rfl)

theorem yields_optionalSlot (type : TypeDef) (replaced : Nat → Bool) {wanted : Bool}
    {owner kind : Signature} {name : String} :
    (optionalSlot wanted owner name kind).Yields fun slot => slot.plan.Listed type replaced := by
  unfold optionalSlot
  split
  · exact .bind (yields_staticSlot type replaced) fun slot listed => .pure listed
  · exact .pure (listed_of_nil rfl rfl rfl)

theorem yields_memberSlots (type : TypeDef) (replaced : Nat → Bool) {owner : Signature}
    {base : String} {category : Category} :
    (memberSlots owner base category).Yields fun slots => slots.plan.Listed type replaced := by
  unfold memberSlots
  refine .bind (yields_staticSlot type replaced) fun offset first => ?_
  refine .bind (yields_optionalSlot type replaced) fun handle second => ?_
  refine .bind (yields_optionalSlot type replaced) fun elementSize third => ?_
  refine .bind (yields_optionalSlot type replaced) fun width fourth => ?_
  exact .pure (((first.append second).append third).append fourth)

/-! ## Structs -/

namespace StructBinding

theorem yields_fieldCode (replaced : Nat → Bool) (classPtr : UInt32) (member : MemberBinding) :
    (fieldCode config type classPtr member).Yields fun code =>
      code.plan.Listed type replaced := by
  unfold fieldCode
  refine .after fun field => .bind (yields_memberSlots type replaced) fun slots listed => ?_
  refine .after fun fill => .after fun token => .after fun value => ?_
  have whole := listed.append (listed_of_nil rfl rfl rfl : TypePlan.Listed { prelude := fill } _ _)
  dsimp only
  split
  · exact .after fun write => .pure whole
  · exact .after fun write => .pure whole

theorem yields_marshalPlan (binding : StructBinding) :
    (binding.marshalPlan config type).Yields fun plan => plan.Covered type := by
  unfold marshalPlan
  refine .bind (yields_staticSlot type fun _ => true) fun classPtr first => ?_
  refine .bind (yields_staticSlot type fun _ => true) fun size second => ?_
  refine .after fun findType => .after fun findSize => ?_
  refine .bind (.mapM fun member _ => yields_fieldCode (fun _ => true) classPtr.value member)
    fun fields each => ?_
  have edits : (classPtr.plan ++ size.plan ++ ({ prelude := findType ++ findSize } : TypePlan)
      ++ TypePlan.concat (fields.map (·.plan))).Listed type fun _ => true :=
    ((first.append second).append (listed_of_nil rfl rfl rfl)).append (listed_concat_map each)
  refine .pure (Listed.covered (?_ : TypePlan.Listed _ type fun _ => true) (.inr ?_))
  · exact ((edits.append (listed_addMethod _)).append (listed_addMethod _)).append
      (listed_of_nil rfl rfl rfl)
  · exact List.mem_append_right _ (List.mem_singleton_self _)

/-- The plan of a struct, if there is one, lists what it gives new code. -/
theorem yields_plan? (binding : StructBinding) :
    (binding.plan? config type).Yields fun plan? => ∀ plan ∈ plan?, plan.Covered type := by
  have alone : (blittablePlan config).Listed type fun _ => true := listed_of_nil rfl rfl rfl
  unfold plan?
  split
  · refine .pure fun plan member => ?_
    cases member
    exact alone.covered (.inl rfl)
  · split
    · refine .pure fun plan member => ?_
      cases member
    · refine .bind (yields_marshalPlan binding) fun plan covered => .pure fun other member => ?_
      cases member
      exact covered

end StructBinding

/-! ## Properties -/

namespace ClassSite

variable {site : ClassSite}

theorem method_eq_ok {index : Nat} {method : Method} (found : site.method index = .ok method) :
    site.type.methods[index]? = some method :=
  Weave.ofOption_eq_ok found

theorem yields_wrapperSlot (type : TypeDef) (replaced : Nat → Bool) {property : String}
    {category : Category} :
    (site.wrapperSlot property category).Yields fun slot => slot.plan.Listed type replaced := by
  unfold wrapperSlot
  split
  · exact .pure (listed_of_nil rfl rfl rfl)
  · exact .after fun token => .pure (listed_of_nil rfl rfl rfl)

theorem yields_planGetter {member : MemberBinding} {index : Nat} {slots : MemberSlots}
    {address : NativeAddress} :
    (site.planGetter member index slots address).Yields fun reading =>
      reading.plan.Listed site.type fun _ => true := by
  unfold planGetter
  refine .bind (.lift method_eq_ok) fun getter found => ?_
  exact .after fun live => .after fun load => .after fun token =>
    .pure (listed_replaceBody _ found rfl)

theorem yields_planSetterBody {member : MemberBinding} {property : Property} {slots : MemberSlots}
    {address : NativeAddress} {tokens : List UInt32} :
    (site.planSetterBody member property slots address tokens).Yields fun body =>
      body.plan.Listed site.type fun _ => true := by
  unfold planSetterBody
  refine .after fun code => ?_
  split
  · exact .bind (.lift method_eq_ok) fun setter found => .pure (listed_replaceBody _ found rfl)
  · refine .after fun isStored => ?_
    split
    · exact .pure (listed_addMethod _)
    · exact .pure (listed_of_nil rfl rfl rfl)

theorem yields_planSetter {member : MemberBinding} {property : Property} {slots : MemberSlots}
    {address : NativeAddress} {tokens : List UInt32} :
    (site.planSetter member property slots address tokens).Yields fun setter =>
      setter.plan.Listed site.type fun _ => true := by
  unfold planSetter
  refine .bind yields_planSetterBody fun body listed => ?_
  split
  · exact .pure listed
  · exact .after fun token => .pure listed

theorem listed_of_planRemoval {member : MemberBinding} {property : Property}
    {result : TypePlan × List Diagnostic} (planned : site.planRemoval member property = .ok result) :
    result.1.Listed site.type fun _ => true := by
  unfold planRemoval at planned
  split at planned
  · cases planned
    exact listed_of_nil rfl rfl rfl
  · rcases bind_eq_ok_iff.mp planned with ⟨setter, _, planned⟩
    rcases bind_eq_ok_iff.mp planned with ⟨diagnostics, _, final⟩
    cases final
    exact listed_of_nil rfl rfl rfl

theorem yields_planAccessors {member : MemberBinding} {property : Property} {getter : Nat} :
    (site.planAccessors member property getter).Yields fun planned =>
      planned.plan.Listed site.type fun _ => true := by
  unfold planAccessors
  refine .bind (yields_memberSlots site.type fun _ => true) fun slots first => ?_
  refine .bind (yields_wrapperSlot site.type fun _ => true) fun wrapper second => ?_
  refine .after fun fill => .after fun base => ?_
  refine .bind yields_planGetter fun reading third => ?_
  have start : (slots.plan ++ wrapper.plan ++ ({ prelude := fill } : TypePlan)
      ++ reading.plan).Listed site.type fun _ => true :=
    ((first.append second).append (listed_of_nil rfl rfl rfl)).append third
  have emptied : ∀ hidden, (if (site.type.findField? hidden).isSome then
      ({ removedFields := [hidden] } : TypePlan) else {}).Listed site.type fun _ => true := by
    intro hidden
    split
    · exact listed_of_nil rfl rfl rfl
    · exact listed_of_nil rfl rfl rfl
  have nothing : ({} : TypePlan).Listed site.type fun _ => true := listed_of_nil rfl rfl rfl
  dsimp only
  split
  · refine .bind (.lift listed_of_planRemoval) fun removal fourth => ?_
    rw [pure_bind]
    exact .pure (((start.append nothing).append fourth).append (emptied _))
  · refine .bind yields_planSetter fun setter fourth => ?_
    rw [pure_bind]
    exact .pure (((start.append fourth).append nothing).append (emptied _))

/-- The plan of a property lists the accessors that it gives new code. -/
theorem yields_planProperty (member : MemberBinding) :
    (site.planProperty member).Yields fun planned =>
      planned.plan.Listed site.type fun _ => true := by
  unfold planProperty
  split
  · exact .after fun property => .after fun getter => yields_planAccessors
  · exact .pure (listed_of_nil rfl rfl rfl)

/-! ## Constructors and other methods -/

theorem yields_planConstruction {backing : Backing} {effects : List ConstructionEffect}
    {method : Method} {index : Nat} {locals : List Signature} {code : Code} {baseCall : Nat}
    (found : site.type.methods[index]? = some method) :
    (site.planConstruction backing effects method index locals code baseCall).Yields
      fun planned => planned.1.Listed site.type fun _ => true := by
  unfold planConstruction
  refine .after fun relocation => ?_
  dsimp only
  split
  · exact .pure (listed_of_nil rfl rfl rfl)
  · split
    · exact .bind .throw fun _ (impossible : False) => impossible.elim
    · refine .after fun emitted => ?_
      split
      · exact .throw
      · exact .pure (listed_replaceBody _ found rfl)

theorem yields_planConstructor {backing : Backing} {effects : List ConstructionEffect}
    {index : Nat} {method : Method} (found : site.type.methods[index]? = some method) :
    (site.planConstructor backing effects index method).Yields
      fun planned => planned.1.Listed site.type fun _ => true := by
  unfold planConstructor
  split
  · exact .pure (listed_of_nil rfl rfl rfl)
  · refine .after fun code => ?_
    dsimp only
    split
    · exact .pure (listed_of_nil rfl rfl rfl)
    · split
      · exact .pure (listed_of_nil rfl rfl rfl)
      · exact yields_planConstruction found

theorem getElem?_of_mem_constructors {type : TypeDef} {index : Nat} {method : Method}
    (member : (index, method) ∈ type.constructors) : type.methods[index]? = some method := by
  rcases List.mem_map.mp member with ⟨⟨found, place⟩, kept, same⟩
  cases same
  exact List.mk_mem_zipIdx_iff_getElem?.mp (List.mem_filter.mp kept).1

/-- Edits and findings that are collected one after another. -/
theorem listed_foldl_addPlan {parts : List (TypePlan × List Diagnostic)}
    {start : TypePlan × List Diagnostic} (first : start.1.Listed type replaced)
    (each : ∀ part ∈ parts, part.1.Listed type replaced) :
    (parts.foldl addPlan start).1.Listed type replaced := by
  induction parts generalizing start with
  | nil => exact first
  | cons part more ih =>
    rw [List.forall_mem_cons] at each
    exact ih (first.append each.1) each.2

theorem yields_planConstructors {backing : Backing} {effects : List ConstructionEffect} :
    (site.planConstructors backing effects).Yields
      fun planned => planned.1.Listed site.type fun _ => true := by
  unfold planConstructors
  refine .bind (.mapM fun constructor member => ?_) fun parts each =>
    .pure (listed_foldl_addPlan (listed_of_nil rfl rfl rfl) each)
  exact yields_planConstructor (getElem?_of_mem_constructors member)

end ClassSite

namespace Backing

theorem listed_of_methodPlan {backing : Backing} {method : Method} {index : Nat}
    (found : type.methods[index]? = some method) {result : TypePlan × List Diagnostic}
    (planned : backing.methodPlan type method index = .ok result) :
    result.1.Listed type fun _ => true := by
  unfold methodPlan at planned
  split at planned
  · cases planned
    exact listed_of_nil rfl rfl rfl
  · rcases bind_eq_ok_iff.mp planned with ⟨code, _, final⟩
    cases final
    dsimp only
    split
    · exact listed_of_nil rfl rfl rfl
    · exact listed_replaceBody _ found rfl

/-- The plan for the methods that are no constructors lists those whose code is redirected. -/
theorem listed_of_methodPlans {backing : Backing} {plan : TypePlan}
    {result : TypePlan × List Diagnostic} (planned : backing.methodPlans type plan = .ok result) :
    result.1.Listed type fun _ => true := by
  unfold methodPlans at planned
  split at planned
  · cases planned
    exact listed_of_nil rfl rfl rfl
  · rcases bind_eq_ok_iff.mp planned with ⟨parts, run, final⟩
    cases final
    apply listed_concat_map
    intro part member
    rcases exists_of_mem_mapM run member with ⟨⟨method, index⟩, kept, step⟩
    have found := List.mk_mem_zipIdx_iff_getElem?.mp (List.mem_filter.mp kept).1
    exact listed_of_methodPlan found step

end Backing

/-! ## Functions and classes -/

namespace ClassSite

variable {site : ClassSite}

theorem yields_planValue (type : TypeDef) (replaced : Nat → Bool) {function : FunctionBinding}
    {handle : UInt32} {hasThis : Bool} {value : MemberBinding} :
    (site.planValue function handle hasThis value).Yields fun planned =>
      planned.plan.Listed type replaced := by
  unfold planValue
  refine .bind (yields_memberSlots type replaced) fun slots listed => .after fun fill => ?_
  have whole : (slots.plan ++ ({ prelude := fill } : TypePlan)).Listed type replaced :=
    listed.append (listed_of_nil rfl rfl rfl)
  dsimp only
  split
  · exact .after fun argument => .pure whole
  · exact .after fun argument => .pure whole

/-- The plan of a function lists the methods that it adds.  It also lists the method that it was
made from, under its new name, if that method got a new body before. -/
theorem yields_planFunction (earlier : TypePlan) (function : FunctionBinding) :
    (site.planFunction earlier function).Yields fun plan =>
      plan.Listed site.type earlier.replaces := by
  unfold planFunction
  refine .after fun method => ?_
  refine .bind (yields_staticSlot site.type earlier.replaces) fun handle first => ?_
  refine .bind (yields_staticSlot site.type earlier.replaces) fun size second => ?_
  refine .after fun findHandle => .after fun findSize => ?_
  refine .bind (.mapM fun value _ => yields_planValue site.type earlier.replaces)
    fun values each => ?_
  refine .after fun callerBody => .after fun invokerBody => .pure ?_
  have slots : (handle.plan ++ size.plan ++ ({ prelude := findHandle ++ findSize } : TypePlan)
      ++ TypePlan.concat (values.map (·.plan))).Listed site.type earlier.replaces :=
    ((first.append second).append (listed_of_nil rfl rfl rfl)).append (listed_concat_map each)
  have renamed : ∀ name, ({
      renames := [(function.method, name)]
      touched := if earlier.replaces function.method then [name] else [] } : TypePlan).Listed
        site.type earlier.replaces := by
    intro name
    refine ⟨fun _ member => (by cases member), fun _ member => (by cases member), ?_⟩
    intro edit member again
    cases List.mem_singleton.mp member
    rw [if_pos again]
    exact List.mem_singleton_self name
  exact ((slots.append (renamed _)).append (listed_addMethod _)).append (listed_addMethod _)

theorem yields_planMembers :
    site.planMembers.Yields fun planned => ∃ replaced, planned.1.Listed site.type replaced ∧
      Method.initializerName ∈ planned.1.touched := by
  unfold planMembers
  refine .after fun findType => ?_
  refine .bind (.mapM fun member _ => yields_planProperty member) fun properties accessors => ?_
  dsimp only
  refine .bind yields_planConstructors fun constructed second => ?_
  refine .bind (.lift Backing.listed_of_methodPlans) fun redirected third => ?_
  have findings : ({ prelude := findType } : TypePlan).Listed site.type fun _ => true :=
    listed_of_nil rfl rfl rfl
  have earlier := ((findings.append (listed_concat_map accessors)).append second).append third
  refine .bind (.mapM fun function _ => yields_planFunction _ function) fun functions fourth => ?_
  refine .pure ⟨_, earlier.ofReplaces.append ((listed_concat fourth).append ?_), ?_⟩
  · exact listed_of_nil rfl rfl rfl
  · exact List.mem_append_right _ (List.mem_append_right _ (List.mem_singleton_self _))

end ClassSite

/-- The plan of a class lists what it gives new code. -/
theorem yields_classPlan (source : Module) (binding : ClassBinding) :
    (binding.plan config source type).Yields fun planned => planned.1.Covered type := by
  have slot : ∀ {owner kind name}, (staticSlot owner name kind).Yields fun slot =>
      ∀ replaced, slot.plan.Listed type replaced :=
    fun before after value run replaced => yields_staticSlot type replaced before after value run
  unfold ClassBinding.plan
  refine .bind slot fun classPtr first => ?_
  refine .bind ClassSite.yields_planMembers fun members second => .pure ?_
  rcases second with ⟨replaced, listed, initialized⟩
  exact ((first replaced).append listed).covered (.inr (List.mem_append_right _ initialized))

end NativeWeave
