import NativeWeave.Proofs.Editing.Edited
import NativeWeave.Proofs.Editing.Inquiries

namespace NativeWeave

/-!
# Slots and initializers of planned types

The slots of a type are added in several places, and filled in others.  The plan for the type has them
all in one order nevertheless: the code for its initializer makes the inquiries of the type one after
the other, and for each of them the plan has a slot.  Bodies of methods have no part in this.
-/

open Emit TypePlan

variable {config : Config} {owner : Signature} {known : List Inquiry}

/-! ## Edits of methods -/

namespace ClassSite

variable {site : ClassSite} {member : MemberBinding} {property : Property} {slots : MemberSlots}
  {address : NativeAddress} {tokens : List UInt32}

/-- The field for a wrapper belongs to objects. -/
theorem yieldsIdle_wrapperSlot {property : String} {category : Category} :
    (site.wrapperSlot property category).Yields fun slot => slot.plan.Idle := by
  unfold wrapperSlot
  split
  · exact .pure idle_empty
  · next type _ =>
    have own : ({ name := Naming.wrapperField property, type, flags := Field.generatedFlag } :
        Field).isStatic = false := by
      change hasFlag Field.generatedFlag Field.staticFlag = false
      decide
    refine .after fun token => .pure ⟨?_, rfl⟩
    exact List.filter_cons_of_neg (Bool.not_eq_true _ ▸ own)

theorem yieldsIdle_planGetter {index : Nat} :
    (site.planGetter member index slots address).Yields fun reading => reading.plan.Idle := by
  unfold planGetter
  exact .after fun method => .after fun live => .after fun load => .after fun token =>
    .pure (idle_of_nil rfl rfl)

theorem yieldsIdle_planSetter :
    (site.planSetter member property slots address tokens).Yields fun setter =>
      setter.plan.Idle := by
  have settled : (site.planSetterBody member property slots address tokens).Yields fun body =>
      body.plan.Idle := by
    unfold planSetterBody
    refine .after fun code => ?_
    split
    · exact .after fun setter => .pure (idle_of_nil rfl rfl)
    · refine .after fun isStored => ?_
      split
      · exact .pure (idle_of_nil rfl rfl)
      · exact .pure idle_empty
  unfold planSetter
  refine .bind settled fun body idle => ?_
  split
  · exact .pure idle
  · exact .after fun token => .pure idle

theorem idle_of_planRemoval {result : TypePlan × List Diagnostic}
    (planned : site.planRemoval member property = .ok result) : result.1.Idle := by
  unfold planRemoval at planned
  split at planned
  · cases planned
    exact idle_empty
  · rcases bind_eq_ok_iff.mp planned with ⟨setter, _, planned⟩
    rcases bind_eq_ok_iff.mp planned with ⟨diagnostics, _, final⟩
    cases final
    exact idle_of_nil rfl rfl

theorem yieldsIdle_planConstructor {backing : Backing} {effects : List ConstructionEffect}
    {index : Nat} {method : Method} :
    (site.planConstructor backing effects index method).Yields fun planned => planned.1.Idle := by
  have constructed : ∀ effects locals code baseCall,
      (site.planConstruction backing effects method index locals code baseCall).Yields
        fun planned => planned.1.Idle := by
    intro effects locals code baseCall
    unfold planConstruction
    refine .after fun relocation => ?_
    dsimp only
    split
    · exact .pure idle_empty
    · split
      · exact .bind .throw fun _ (impossible : False) => impossible.elim
      · refine .after fun emitted => ?_
        split
        · exact .throw
        · exact .pure (idle_of_nil rfl rfl)
  unfold planConstructor
  split
  · exact .pure idle_empty
  · refine .after fun code => ?_
    dsimp only
    split
    · exact .pure idle_empty
    · split
      · exact .pure idle_empty
      · exact constructed _ _ _ _

theorem yieldsIdle_planConstructors {backing : Backing} {effects : List ConstructionEffect} :
    (site.planConstructors backing effects).Yields fun planned => planned.1.Idle := by
  have folded : ∀ (parts : List (TypePlan × List Diagnostic)) (start : TypePlan × List Diagnostic),
      start.1.Idle → (∀ part ∈ parts, part.1.Idle) → (parts.foldl addPlan start).1.Idle := by
    intro parts
    induction parts with
    | nil => exact fun start first _ => first
    | cons part more ih =>
      intro start first each
      rw [List.forall_mem_cons] at each
      exact ih _ (first.append each.1) each.2
  unfold planConstructors
  exact .bind (.mapM fun constructor _ => yieldsIdle_planConstructor) fun parts each =>
    .pure (folded parts _ idle_empty each)

end ClassSite

namespace Backing

variable {backing : Backing} {type : TypeDef}

theorem idle_of_methodPlan {method : Method} {index : Nat} {result : TypePlan × List Diagnostic}
    (planned : backing.methodPlan type method index = .ok result) : result.1.Idle := by
  unfold methodPlan at planned
  split at planned
  · cases planned
    exact idle_empty
  · rcases bind_eq_ok_iff.mp planned with ⟨code, _, final⟩
    cases final
    dsimp only
    split
    · exact idle_empty
    · exact idle_of_nil rfl rfl

theorem idle_of_methodPlans {plan : TypePlan} {result : TypePlan × List Diagnostic}
    (planned : backing.methodPlans type plan = .ok result) : result.1.Idle := by
  unfold methodPlans at planned
  split at planned
  · cases planned
    exact idle_empty
  · rcases bind_eq_ok_iff.mp planned with ⟨parts, run, final⟩
    cases final
    refine idle_concat (List.forall_mem_map.mpr fun part member => ?_)
    rcases exists_of_mem_mapM run member with ⟨⟨method, index⟩, _, step⟩
    exact idle_of_methodPlan step

end Backing

/-! ## Members -/

/-- The plan that the step gives adds the slots of inquiries and has the code that makes them, as long
as every text has an index and the token is that of the slot of a known inquiry. -/
def Emit.Prepares {Plan : Type} (step : Emit Plan) (part : Plan → TypePlan) (config : Config)
    (owner : Signature) (handle : UInt32) (source : Inquiry) (asked : List Inquiry) : Prop :=
  step.Leaves fun tables planned => tables.strings.length ≤ 2 ^ 32 →
    tables.member? handle = some (source.field owner) → ∀ known, source ∈ known →
      (part planned).Inquires config tables owner known asked asked

theorem MemberSlots.Complete.withWrapper {slots : MemberSlots} {tables : Tables} {base : String}
    {category : Category} (complete : slots.Complete tables owner base category)
    (wrapper : Option UInt32) : { slots with wrapper }.Complete tables owner base category :=
  ⟨complete.offset, complete.handle, complete.elementSize, complete.width⟩

namespace ClassSite

variable {site : ClassSite}

theorem prepares_planAccessors {member : MemberBinding} {property : Property} {getter : Nat}
    (source : Inquiry) :
    (site.planAccessors member property getter).Prepares (·.plan) site.config site.owner
      site.classPtr source
      (member.category.inquiries member.name source.question member.nativeName) := by
  have emptied : ∀ hidden, (if (site.type.findField? hidden).isSome then
      ({ removedFields := [hidden] } : TypePlan) else {}).Idle := by
    intro hidden
    split
    · exact idle_of_nil rfl rfl
    · exact idle_empty
  unfold planAccessors
  refine .bind (leaves_slotsOfInquiries site.config source.question member.name member.nativeName
    member.category) fun slots => ?_
  refine .bind (.ofYields fun _ => yieldsIdle_wrapperSlot) fun wrapper => ?_
  refine .bind (Prelude.leaves_inquiries source site.owner member.name member.category) fun fill => ?_
  refine .after fun base => ?_
  refine .bind (.ofYields fun _ => yieldsIdle_planGetter) fun reading => ?_
  dsimp only
  split
  · refine .bind (.lift fun planned _ => idle_of_planRemoval planned) fun removal => ?_
    rw [pure_bind]
    refine .pure fun tables removed reading fill wrapper slots short loads known listed => ?_
    have start := ((slots.2 known).idle wrapper).filled
      (fill short loads (slots.1.withWrapper _) known listed)
    exact (((start.idle reading).idle idle_empty).idle removed).idle (emptied _)
  · refine .bind (.ofYields fun _ => yieldsIdle_planSetter) fun setter => ?_
    rw [pure_bind]
    refine .pure fun tables setter reading fill wrapper slots short loads known listed => ?_
    have start := ((slots.2 known).idle wrapper).filled
      (fill short loads (slots.1.withWrapper _) known listed)
    exact (((start.idle reading).idle setter).idle idle_empty).idle (emptied _)

theorem prepares_planProperty (source : Inquiry) (member : MemberBinding) :
    (site.planProperty member).Prepares (·.plan) site.config site.owner site.classPtr source
      (member.inquiries source.question) := by
  unfold planProperty MemberBinding.inquiries
  cases member.origin with
  | property place => exact .after fun property => .after fun getter => prepares_planAccessors source
  | _ => exact .pure fun tables short loads known listed => idle_empty.inquires

theorem prepares_planValue (source : Inquiry) (function : FunctionBinding) (hasThis : Bool)
    (value : MemberBinding) :
    (site.planValue function handle hasThis value).Prepares (·.plan) site.config site.owner handle
      source (value.category.inquiries (Naming.parameterSlots function.name value.name)
        source.question value.nativeName) := by
  let base := Naming.parameterSlots function.name value.name
  unfold planValue
  cases value.origin
  all_goals
    refine .bind (leaves_slotsOfInquiries site.config source.question base value.nativeName
      value.category) fun slots => ?_
    refine .bind (Prelude.leaves_inquiries source site.owner base value.category) fun fill => ?_
    exact .after fun argument => .pure fun tables fill slots short loads known listed =>
      (slots.2 known).filled (fill short loads slots.1 known listed)

theorem prepares_planFunction (source : Inquiry) (earlier : TypePlan) (function : FunctionBinding) :
    (site.planFunction earlier function).Prepares id site.config site.owner site.classPtr source
      (function.inquiries source.question) := by
  intro before after plan run tables grows indexed short loads known listed
  unfold planFunction at run
  rcases exists_of_bind run with ⟨method, start, _, run⟩
  rcases exists_of_bind run with ⟨handle, first, handled, run⟩
  rcases exists_of_bind run with ⟨size, second, sized, run⟩
  rcases exists_of_bind run with ⟨findHandle, third, asked, run⟩
  rcases exists_of_bind run with ⟨findSize, fourth, also, run⟩
  rcases exists_of_bind run with ⟨values, fifth, valued, run⟩
  dsimp only at run
  rcases exists_of_bind run with ⟨calling, sixth, called, run⟩
  rcases exists_of_bind run with ⟨invoking, seventh, invoked, final⟩
  cases final
  have fifthGrows : fifth.Grows tables :=
    (Grows.grows called).trans ((Grows.grows invoked).trans grows)
  have fourthGrows : fourth.Grows tables := (Grows.grows valued).trans fifthGrows
  have thirdGrows : third.Grows tables := (Grows.grows also).trans fourthGrows
  have secondGrows : second.Grows tables := (Grows.grows asked).trans thirdGrows
  have firstGrows : first.Grows tables := (Grows.grows sized).trans secondGrows
  have own := leaves_inquirySlot site.config (function.handleInquiry source.question) _ _ _ handled
    tables firstGrows indexed
  have buffer := leaves_inquirySlot site.config (function.sizeInquiry source.question) _ _ _ sized
    tables secondGrows indexed
  have findsHandle := Prelude.makes_query site.owner (Naming.functionSlot function.name) listed rfl
    _ _ _ asked tables thirdGrows indexed short ⟨loads, own.1⟩
  have findsSize := Prelude.makes_queryHandle site.owner (Naming.parametersSizeSlot function.name)
    (List.mem_append_right known (List.mem_singleton_self (function.handleInquiry source.question)))
    rfl _ _ _ also tables fourthGrows indexed short ⟨own.1, buffer.1⟩
  have each := Leaves.forall₂ (fun value _ => prepares_planValue
    (function.handleInquiry source.question) function (!method.isStatic) value) _ _ _ valued tables
      fifthGrows indexed
  have slots := ((own.2 known).append (buffer.2 _)).filled (findsHandle.append findsSize)
  have inside : function.handleInquiry source.question ∈ known ++
      ([function.handleInquiry source.question] ++ [function.sizeInquiry source.question]) :=
    List.mem_append_right known List.mem_cons_self
  have values := inquires_concat (List.forall₂_map_right_iff.mpr (each.imp
    fun value planned prepared => prepared short own.1 _ inside))
  exact (((slots.append values).idle (idle_of_nil rfl rfl)).idle (idle_of_nil rfl rfl)).idle
    (idle_of_nil rfl rfl)

end ClassSite

/-! ## Types -/

/-- The plan for a class has the slots of the inquiries about the class, and code that makes them. -/
theorem ClassBinding.Planning.inquires {source : Module} {type : TypeDef} {binding : ClassBinding}
    {before after tables : Tables} (planning : binding.Planning config source type before after)
    (grows : after.Grows tables) (indexed : tables.Indexed)
    (short : tables.strings.length ≤ 2 ^ 32) :
    planning.plan.Inquires config tables type.signature [] binding.inquiries binding.inquiries := by
  have own := leaves_inquirySlot config binding.typeInquiry _ _ _ planning.slot tables
    (planning.start_grows grows) indexed
  have findsType : planning.findType.Inquires config tables type.signature []
      [binding.typeInquiry] := Prelude.makes_nativeType type.signature Naming.nativeClassPtr _ _ _
    planning.typed tables (planning.first_grows grows) indexed short own.1
  have known : binding.typeInquiry ∈ [] ++ [binding.typeInquiry] := List.mem_singleton_self _
  have properties := (Leaves.forall₂ (fun member _ => ClassSite.prepares_planProperty
    binding.typeInquiry member) _ _ _ planning.accessors tables (planning.second_grows grows)
      indexed).imp fun member planned prepared => prepared short own.1 _ known
  have functions := (Leaves.forall₂ (fun function _ => ClassSite.prepares_planFunction
    binding.typeInquiry _ function) _ _ _ planning.last tables grows indexed).imp
      fun function planned prepared => prepared short own.1 _ known
  have accessors := (inquires_prelude findsType).append
    (inquires_concat (List.forall₂_map_right_iff.mpr properties))
  have constructed := ClassSite.yieldsIdle_planConstructors _ _ _ planning.constructors
  have redirected := Backing.idle_of_methodPlans planning.others
  have touched : ({ touched := [Method.initializerName] } : TypePlan).Idle := idle_of_nil rfl rfl
  have late := (inquires_concat functions).idle touched
  have members := ((accessors.idle constructed).idle redirected).append
    (late.mono (List.subset_append_left [binding.typeInquiry] _))
  exact (own.2 []).append members

namespace StructBinding

variable {type : TypeDef} {binding : StructBinding}

theorem prepares_fieldCode (source : Inquiry) (member : MemberBinding) :
    (fieldCode config type handle member).Prepares (·.plan) config type.signature handle source
      (member.category.inquiries member.name source.question member.nativeName) := by
  unfold fieldCode
  refine .after fun field => ?_
  refine .bind (leaves_slotsOfInquiries config source.question member.name member.nativeName
    member.category) fun slots => ?_
  refine .bind (Prelude.leaves_inquiries source type.signature member.name member.category)
    fun fill => ?_
  refine .after fun token => .after fun value => ?_
  dsimp only
  split
  all_goals
    exact .after fun write => .pure fun tables fill slots short loads known listed =>
      (slots.2 known).filled (fill short loads slots.1 known listed)

/-- The plan for a struct that is marshalled has the slots of the inquiries about the struct, and code
that makes them. -/
theorem inquires_of_marshalPlan {before after tables : Tables} {plan : TypePlan}
    (run : binding.marshalPlan config type before = .ok (plan, after)) (grows : after.Grows tables)
    (indexed : tables.Indexed) (short : tables.strings.length ≤ 2 ^ 32) :
    plan.Inquires config tables type.signature [] binding.marshalInquiries
      binding.marshalInquiries := by
  unfold marshalPlan at run
  rcases exists_of_bind run with ⟨classPtr, first, found, run⟩
  rcases exists_of_bind run with ⟨size, second, sized, run⟩
  rcases exists_of_bind run with ⟨findType, third, asked, run⟩
  rcases exists_of_bind run with ⟨findSize, fourth, also, run⟩
  rcases exists_of_bind run with ⟨fields, fifth, planned, final⟩
  cases final
  have fourthGrows : fourth.Grows tables := (Grows.grows planned).trans grows
  have thirdGrows : third.Grows tables := (Grows.grows also).trans fourthGrows
  have secondGrows : second.Grows tables := (Grows.grows asked).trans thirdGrows
  have firstGrows : first.Grows tables := (Grows.grows sized).trans secondGrows
  have own := leaves_inquirySlot config binding.typeInquiry _ _ _ found tables firstGrows indexed
  have measured := leaves_inquirySlot config binding.sizeInquiry _ _ _ sized tables secondGrows
    indexed
  have findsType : findType.Inquires config tables type.signature [] [binding.typeInquiry] :=
    Prelude.makes_nativeType type.signature Naming.nativeClassPtr _ _ _ asked tables thirdGrows
      indexed short own.1
  have findsSize := Prelude.makes_queryHandle type.signature Naming.nativeDataSize
    (List.mem_append_right [] (List.mem_singleton_self binding.typeInquiry)) rfl _ _ _ also tables
      fourthGrows indexed short ⟨own.1, measured.1⟩
  have inside : binding.typeInquiry ∈ [] ++ ([binding.typeInquiry] ++ [binding.sizeInquiry]) :=
    List.mem_cons_self
  have each := (Leaves.forall₂ (fun member _ => prepares_fieldCode binding.typeInquiry member) _ _ _
    planned tables grows indexed).imp
      fun member planned prepared => prepared short own.1 _ inside
  have slots := ((own.2 []).append (measured.2 _)).filled (findsType.append findsSize)
  have whole := slots.append (inquires_concat (List.forall₂_map_right_iff.mpr each))
  exact ((whole.idle (idle_of_nil rfl rfl)).idle (idle_of_nil rfl rfl)).idle (idle_of_nil rfl rfl)

end StructBinding

/-- A plan for a binding has the slots of the inquiries about it, and code that makes them. -/
theorem TypeBinding.Plans.inquires {source : Module} {type : TypeDef} {binding : TypeBinding}
    {plan : TypePlan} {after tables : Tables}
    (plans : binding.Plans config source type plan after) (grows : after.Grows tables)
    (indexed : tables.Indexed) (short : tables.strings.length ≤ 2 ^ 32) :
    plan.Inquires config tables type.signature [] binding.inquiries binding.inquiries := by
  cases plans with
  | @ofStruct binding _ _ _ _ made =>
    change plan.Inquires config tables type.signature [] binding.inquiries binding.inquiries
    unfold StructBinding.inquiries
    unfold StructBinding.plan? at made
    split at made
    · next blittable =>
      cases made
      rw [if_pos blittable]
      exact (idle_of_nil rfl rfl).inquires
    · next other =>
      rw [if_neg other]
      split at made
      · cases made
      · rcases exists_of_bind made with ⟨found, last, run, final⟩
        cases final
        exact StructBinding.inquires_of_marshalPlan run grows indexed short
  | ofClass _ made _ =>
    rcases ClassBinding.exists_planning made with ⟨planning, same⟩
    cases same
    exact planning.inquires grows indexed short

end NativeWeave
