import NativeWeave.Proofs.Editing.Added
import NativeWeave.Proofs.Editing.Continuation
import NativeWeave.Proofs.Editing.Edited
import NativeWeave.Proofs.Extraction.Complete
import NativeWeave.Proofs.SoleClass

namespace NativeWeave

/-!
# What the accessors of a woven class name

Of the methods of an annotated class only setters are taken out: those of exposed properties whose
values are changed in place.  So every property of a woven class, exposed or not, goes on with the
accessors that it had, unless one of them was such a setter.
-/

/-- The index of the setter of a property whose value is only changed in place. -/
def MemberBinding.withdrawnSetter? (member : MemberBinding) (type : TypeDef) : Option Nat :=
  match member.origin with
  | .property place =>
    if member.category.suppressesSetter then
      ((type.properties[place]?).bind (·.setter)).map (·.toNat)
    else
      none
  | _ => none

/-- The indices of the setters of the exposed properties whose values are only changed in place. -/
def ClassBinding.withdrawnSetters (binding : ClassBinding) (type : TypeDef) : List Nat :=
  binding.members.filterMap (·.withdrawnSetter? type)

/-- The method with an index is made into an exposed function. -/
def ClassBinding.makesFunction (binding : ClassBinding) (index : Nat) : Bool :=
  binding.functions.any (·.method == index)

namespace TypePlan

/-- The plan takes out the methods with these indices. -/
def Takes (plan : TypePlan) (indices : List Nat) : Prop :=
  plan.removedMethods = indices

theorem takes_nil {plan : TypePlan} (nothing : plan.removedMethods = []) : plan.Takes [] :=
  nothing

theorem Takes.append {first second : TypePlan} {one other : List Nat} (front : first.Takes one)
    (back : second.Takes other) : (first ++ second).Takes (one ++ other) := by
  change first.removedMethods ++ second.removedMethods = _
  rw [front, back]

/-- A plan that takes nothing out changes nothing about what is taken out. -/
theorem Takes.append_nothing {first second : TypePlan} {indices : List Nat}
    (front : first.Takes indices) (back : second.Takes []) : (first ++ second).Takes indices := by
  rw [← List.append_nil indices]
  exact front.append back

theorem takes_concat_map {Item Part : Type} {items : List Item} {parts : List Part}
    (part : Part → TypePlan) {taken : Item → List Nat}
    (each : List.Forall₂ (fun item result => (part result).Takes (taken item)) items parts) :
    (concat (parts.map part)).Takes (items.flatMap taken) := by
  induction each with
  | nil => rfl
  | cons first _ ih => exact first.append ih

theorem takes_concat_nothing {plans : List TypePlan} (each : ∀ plan ∈ plans, plan.Takes []) :
    (concat plans).Takes [] := by
  induction plans with
  | nil => rfl
  | cons plan more ih =>
    rw [List.forall_mem_cons] at each
    exact each.1.append (ih each.2)

end TypePlan

open TypePlan Emit

theorem yieldsTakes_staticSlot {owner kind : Signature} {name : String} :
    (staticSlot owner name kind).Yields fun slot => slot.plan.Takes [] := by
  unfold staticSlot
  exact .after fun token => .pure rfl

theorem yieldsTakes_optionalSlot {wanted : Bool} {owner kind : Signature} {name : String} :
    (optionalSlot wanted owner name kind).Yields fun slot => slot.plan.Takes [] := by
  unfold optionalSlot
  split
  · exact .bind yieldsTakes_staticSlot fun slot takes => .pure takes
  · exact .pure rfl

theorem yieldsTakes_memberSlots {owner : Signature} {base : String} {category : Category} :
    (memberSlots owner base category).Yields fun slots => slots.plan.Takes [] := by
  unfold memberSlots
  refine .bind yieldsTakes_staticSlot fun offset first => ?_
  refine .bind yieldsTakes_optionalSlot fun handle second => ?_
  refine .bind yieldsTakes_optionalSlot fun elementSize third => ?_
  refine .bind yieldsTakes_optionalSlot fun width fourth => ?_
  exact .pure (((first.append second).append third).append fourth)

namespace ClassSite

variable {site : ClassSite} {member : MemberBinding} {property : Property} {slots : MemberSlots}
  {address : NativeAddress} {tokens : List UInt32}

theorem yieldsTakes_planSetter :
    (site.planSetter member property slots address tokens).Yields fun setter =>
      setter.plan.Takes [] := by
  have body : (site.planSetterBody member property slots address tokens).Yields fun body =>
      body.plan.Takes [] := by
    unfold planSetterBody
    refine .after fun code => ?_
    cases property.setter with
    | some place => exact .after fun setter => .pure rfl
    | none =>
      refine .after fun isStored => ?_
      split
      · exact .pure rfl
      · exact .pure rfl
  unfold planSetter
  refine .bind body fun body takes => ?_
  split
  · exact .pure takes
  · exact .after fun token => .pure takes

theorem takes_of_planRemoval {result : TypePlan × List Diagnostic}
    (planned : site.planRemoval member property = .ok result) :
    result.1.Takes (property.setter.map (·.toNat)).toList := by
  unfold planRemoval at planned
  split at planned
  · next declared =>
    cases planned
    rw [declared]
    rfl
  · next place declared =>
    rcases bind_eq_ok_iff.mp planned with ⟨setter, _, planned⟩
    rcases bind_eq_ok_iff.mp planned with ⟨diagnostics, _, final⟩
    cases final
    rw [declared]
    rfl

theorem yieldsTakes_planAccessors {getter : Nat} :
    (site.planAccessors member property getter).Yields fun planned =>
      planned.plan.Takes (if member.category.suppressesSetter then
        (property.setter.map (·.toNat)).toList else []) := by
  unfold planAccessors
  refine .bind yieldsTakes_memberSlots fun slots first => ?_
  have wrapped : (site.wrapperSlot member.name member.category).Yields fun slot =>
      slot.plan.Takes [] := by
    unfold wrapperSlot
    split
    · exact .pure rfl
    · exact .after fun token => .pure rfl
  refine .bind wrapped fun wrapper second => .after fun fill => .after fun base => ?_
  have read : (site.planGetter member getter { slots.value with wrapper := wrapper.value }
      ⟨base, some { slots.value with wrapper := wrapper.value }.offset⟩).Yields fun reading =>
        reading.plan.Takes [] := by
    unfold planGetter
    exact .after fun method => .after fun live => .after fun load => .after fun token => .pure rfl
  refine .bind read fun reading third => ?_
  have start : (slots.plan ++ wrapper.plan ++ ({ prelude := fill } : TypePlan)
      ++ reading.plan).Takes [] := ((first.append second).append_nothing (takes_nil rfl)).append third
  have emptied : ∀ hidden, (if (site.type.findField? hidden).isSome then
      ({ removedFields := [hidden] } : TypePlan) else {}).Takes [] := by
    intro hidden
    split <;> rfl
  dsimp only
  split
  · refine .bind (.lift fun planned => takes_of_planRemoval planned) fun removal fourth => ?_
    rw [pure_bind]
    exact .pure (((start.append_nothing (takes_nil rfl)).append fourth).append_nothing (emptied _))
  · refine .bind yieldsTakes_planSetter fun setter fourth => ?_
    rw [pure_bind]
    exact .pure (((start.append fourth).append_nothing (takes_nil rfl)).append_nothing (emptied _))

theorem yieldsTakes_planProperty : (site.planProperty member).Yields fun planned =>
    planned.plan.Takes (member.withdrawnSetter? site.type).toList := by
  unfold planProperty
  split
  · next place bound =>
    refine .bind (.lift Weave.ofOption_eq_ok) fun property found => .after fun getter => ?_
    have same : (member.withdrawnSetter? site.type).toList = if member.category.suppressesSetter then
        (property.setter.map (·.toNat)).toList else [] := by
      rw [MemberBinding.withdrawnSetter?, bound]
      dsimp only
      rw [found, Option.bind_some, apply_ite Option.toList]
      rfl
    rw [same]
    exact yieldsTakes_planAccessors
  · next other =>
    have none : member.withdrawnSetter? site.type = none := by
      unfold MemberBinding.withdrawnSetter?
      split
      · next place bound => exact absurd bound (other place)
      · rfl
    rw [none]
    exact .pure rfl

theorem yieldsTakes_planConstruction {backing : Backing} {effects : List ConstructionEffect}
    {method : Method} {place : Nat} {locals : List Signature} {code : Code} {baseCall : Nat} :
    (site.planConstruction backing effects method place locals code baseCall).Yields
      fun planned => planned.1.Takes [] := by
  unfold planConstruction
  refine .after fun relocation => ?_
  dsimp only
  split
  · exact .pure rfl
  · split
    · exact .bind .throw fun _ (impossible : False) => impossible.elim
    · refine .after fun emitted => ?_
      split
      · exact .throw
      · exact .pure rfl

theorem yieldsTakes_planConstructor {backing : Backing} {effects : List ConstructionEffect}
    {place : Nat} {method : Method} :
    (site.planConstructor backing effects place method).Yields
      fun planned => planned.1.Takes [] := by
  unfold planConstructor
  split
  · exact .pure rfl
  · refine .after fun code => ?_
    dsimp only
    split
    · exact .pure rfl
    · split
      · exact .pure rfl
      · exact yieldsTakes_planConstruction

theorem takes_foldl_addPlan {parts : List (TypePlan × List Diagnostic)}
    {start : TypePlan × List Diagnostic} (first : start.1.Takes [])
    (each : ∀ part ∈ parts, part.1.Takes []) : (parts.foldl addPlan start).1.Takes [] := by
  induction parts generalizing start with
  | nil => exact first
  | cons part more ih =>
    rw [List.forall_mem_cons] at each
    exact ih (first.append each.1) each.2

theorem yieldsTakes_planConstructors {backing : Backing} {effects : List ConstructionEffect} :
    (site.planConstructors backing effects).Yields fun planned => planned.1.Takes [] := by
  unfold planConstructors
  exact .bind (.mapM fun item _ => yieldsTakes_planConstructor) fun parts each =>
    .pure (takes_foldl_addPlan rfl each)

end ClassSite

namespace Backing

variable {backing : Backing} {type : TypeDef}

theorem takes_of_methodPlan {method : Method} {place : Nat} {result : TypePlan × List Diagnostic}
    (planned : backing.methodPlan type method place = .ok result) : result.1.Takes [] := by
  unfold methodPlan at planned
  split at planned
  · cases planned
    rfl
  · rcases bind_eq_ok_iff.mp planned with ⟨code, _, final⟩
    cases final
    dsimp only
    split <;> rfl

theorem takes_of_methodPlans {plan : TypePlan} {result : TypePlan × List Diagnostic}
    (planned : backing.methodPlans type plan = .ok result) : result.1.Takes [] := by
  unfold methodPlans at planned
  split at planned
  · cases planned
    rfl
  · rcases bind_eq_ok_iff.mp planned with ⟨parts, run, final⟩
    cases final
    refine takes_concat_nothing (List.forall_mem_map.mpr fun part member => ?_)
    rcases exists_of_mem_mapM run member with ⟨⟨method, place⟩, _, step⟩
    exact takes_of_methodPlan step

end Backing

namespace ClassSite

variable {site : ClassSite}

theorem yieldsTakes_planFunction (earlier : TypePlan) (function : FunctionBinding) :
    (site.planFunction earlier function).Yields fun plan => plan.Takes [] := by
  have valued : ∀ handle hasThis value,
      (site.planValue function handle hasThis value).Yields fun planned => planned.plan.Takes [] := by
    intro handle hasThis value
    unfold planValue
    refine .bind yieldsTakes_memberSlots fun slots takes => .after fun fill => ?_
    have filling : ({ prelude := fill } : TypePlan).Takes [] := rfl
    have whole := takes.append_nothing filling
    dsimp only
    split
    · exact .after fun argument => .pure whole
    · exact .after fun argument => .pure whole
  unfold planFunction
  refine .after fun method => ?_
  refine .bind yieldsTakes_staticSlot fun handle first => ?_
  refine .bind yieldsTakes_staticSlot fun size second => ?_
  refine .after fun findHandle => .after fun findSize => ?_
  refine .bind (.mapM fun value _ => valued _ _ value) fun values each => ?_
  refine .after fun callerBody => .after fun invokerBody => .pure ?_
  have slots : (handle.plan ++ size.plan ++ ({ prelude := findHandle ++ findSize } : TypePlan)
      ++ TypePlan.concat (values.map (·.plan))).Takes [] :=
    ((first.append second).append_nothing (takes_nil rfl)).append
      (takes_concat_nothing (List.forall_mem_map.mpr each))
  exact ((slots.append_nothing (takes_nil rfl)).append_nothing (takes_nil rfl)).append_nothing
    (takes_nil rfl)

end ClassSite

/-- The methods that editing a class takes out of it. -/
theorem ClassBinding.Planning.takes {config : Config} {source : Module} {type : TypeDef}
    {binding : ClassBinding} {before after : Tables}
    (planning : binding.Planning config source type before after) :
    planning.plan.Takes (binding.withdrawnSetters type) := by
  have properties := takes_concat_map PropertyPlan.plan
    (Yields.forall₂ (fun member _ => ClassSite.yieldsTakes_planProperty) _ _ _ planning.accessors)
  have constructed : planning.constructed.1.Takes [] :=
    ClassSite.yieldsTakes_planConstructors _ _ _ planning.constructors
  have redirected : planning.redirected.1.Takes [] := Backing.takes_of_methodPlans planning.others
  have functions : (concat planning.functions).Takes [] := takes_concat_nothing
    (Yields.mapM (fun function _ => ClassSite.yieldsTakes_planFunction _ function) _ _ _ planning.last)
  have slot : planning.classPtr.plan.Takes [] := yieldsTakes_staticSlot _ _ _ planning.slot
  have accessors : planning.accessorPlan.Takes
      (binding.members.flatMap fun member => (member.withdrawnSetter? type).toList) :=
    (takes_nil rfl).append properties
  have touching : ({ touched := [Method.initializerName] } : TypePlan).Takes [] := rfl
  have whole := slot.append (((accessors.append constructed).append redirected).append
    (functions.append touching))
  simp only [List.nil_append, List.append_nil] at whole
  rwa [withdrawnSetters, List.filterMap_eq_flatMap_toList]

/-- The exposed functions of a class are the methods that get new names. -/
theorem ClassBinding.renames_of_checked {type : TypeDef} {binding : ClassBinding} {plan : TypePlan}
    (renames : plan.renames = binding.functions.map fun function =>
      (function.method, Naming.implementation function.name))
    (checked : ∀ function ∈ binding.functions, function.Checked type) :
    plan.Renames type binding.makesFunction := by
  intro index method here
  rw [renames]
  constructor
  · rw [List.forall_mem_map]
    rintro function listed rfl
    rcases (checked function listed).1 with ⟨declared, there, named⟩
    cases here.symm.trans there
    rw [named]
  · rw [makesFunction, List.any_eq_true]
    constructor
    · rintro ⟨function, listed, same⟩
      exact ⟨_, List.mem_map_of_mem listed, beq_iff_eq.mp same⟩
    · rintro ⟨edit, member, same⟩
      rcases List.mem_map.mp member with ⟨function, listed, rfl⟩
      exact ⟨function, listed, beq_iff_eq.mpr same⟩

/-- A type that is left as it is goes on in itself. -/
theorem TypeDef.continues_self (type : TypeDef) : type.Continues type [] fun _ => false := by
  have applied : ({} : TypePlan).apply type = .ok type := by
    simp [TypePlan.apply, applyBodies, applyRenames, installPrelude, applyRemovals]
  refine continues_of_apply applied (List.forall_mem_nil _) fun index method _ => ?_
  refine ⟨List.forall_mem_nil _, iff_of_false Bool.false_ne_true ?_⟩
  rintro ⟨_, impossible, _⟩
  exact List.not_mem_nil impossible

/-- The binding by which the class at a place is edited.  It is made of that class, and its name means
it. -/
def Bindings.classAt? (bindings : Bindings) (place : Nat) : Option ClassBinding :=
  bindings.classes.find? fun binding =>
    binding.type == place && bindings.findClass? binding.name == some binding

namespace Scope

variable {scope : Scope} {result : WovenModule} {place : Nat} {type : TypeDef}

/-- The indices of the setters that are taken out of the class at a place. -/
def withdrawnAt (scope : Scope) (place : Nat) (type : TypeDef) : List Nat :=
  ((scope.extract.bindings.classAt? place).map (·.withdrawnSetters type)).getD []

/-- A method of the class at a place is made into an exposed function. -/
def makesFunctionAt (scope : Scope) (place index : Nat) : Bool :=
  (scope.extract.bindings.classAt? place).any (·.makesFunction index)

/-- A class is edited for no other binding. -/
theorem eq_of_classAt?_eq_none (woven : scope.weave = .ok (.woven result))
    (present : scope.module.types[place]? = some type) (kind : type.kind = .classType)
    (none : scope.extract.bindings.classAt? place = none) :
    result.module.types[place]? = some type := by
  rcases (types_of_weave woven).2.2.1 present with ⟨now, there, rfl | ⟨binding, picks, rfl, _⟩⟩
  · exact there
  · cases binding with
    | ofEnum _ => exact picks.elim
    | ofStruct binding =>
      have complete := (lawful_of_mem_extract (Bindings.Picks.mem picks) present).2
      cases kind.symm.trans complete.1
    | ofClass binding =>
      have listed : binding ∈ scope.extract.bindings.classes :=
        List.mem_filterMap.mpr ⟨_, Bindings.Picks.mem picks, rfl⟩
      have missed := List.find?_eq_none.mp none binding listed
      have named : scope.extract.bindings.findClass? binding.name = some binding := picks
      simp [TypeBinding.place, named] at missed

/-- Every class of a woven module goes on in what it has become: the setters of its exposed properties
whose values are only changed in place are taken out, and all other accessors name the methods that go
on for those that they named. -/
theorem continues_of_weave (woven : scope.weave = .ok (.woven result))
    (present : scope.module.types[place]? = some type) (kind : type.kind = .classType) :
    ∃ now, result.module.types[place]? = some now ∧
      type.Continues now (scope.withdrawnAt place type) (scope.makesFunctionAt place) := by
  unfold withdrawnAt makesFunctionAt
  cases found : scope.extract.bindings.classAt? place with
  | none => exact ⟨type, eq_of_classAt?_eq_none woven present kind found, type.continues_self⟩
  | some binding =>
    have picked := List.find?_some found
    rw [Bool.and_eq_true, beq_iff_eq, beq_iff_eq] at picked
    rcases picked with ⟨rfl, bound⟩
    rcases @(types_of_weave woven).2.2.2 (.ofClass binding) type bound trivial present with
      ⟨now, there, plan, after, plans, _, applied⟩
    cases plans with
    | @ofClass _ _ diagnostics before _ _ made _ =>
      have adds := yieldsAdds_classPlan scope.module binding _ _ _ made
      rcases ClassBinding.exists_planning made with ⟨planning, same⟩
      cases same
      have checked := checked_of_mem_extract (Bindings.ofClass_mem_of_findClass? bound).1 present
      have renames := ClassBinding.renames_of_checked
        (adds.renames.trans (binding.additions_renames _ _)) checked.2
      have continues := continues_of_apply applied planning.removed_inside renames
      rw [planning.takes] at continues
      exact ⟨now, there, continues⟩

end Scope

/-! ## A class that is declared twice -/

namespace Badge

def text : Signature :=
  .named ⟨"Tether.Runtime", "Text"⟩

/-- The hidden field of the property. -/
def label : MemberRef :=
  .field (.named ⟨"Game", "Badge"⟩) "<Label>k__BackingField" text

def body (instrs : Fragment) : Body :=
  ({ instrs } : Code).toBody []

def exposed : Property where
  name := "Label"
  type := text
  getter := some 0
  setter := some 1
  attributes := [{ type := ⟨"Tether.Attributes", "NativeProperty"⟩ }]

/-- A class with an exposed text, and with a property that has the same setter. -/
def type : TypeDef where
  name := "Badge"
  namespaceName := "Game"
  flags := TypeDef.abstractFlag
  base := some (.named ⟨"Tether.Runtime", "NativeObject"⟩)
  attributes := [{ type := ⟨"Tether.Attributes", "NativeClass"⟩ }]
  fields := [{ name := "<Label>k__BackingField", type := text }]
  properties := [exposed, { name := "Size", type := .i32, getter := some 2, setter := some 1 }]
  methods := [
    { name := "get_Label", result := text, body := some (body [.loadArg 0, .loadField 0, .ret]) },
    { name := "set_Label", parameters := [{ name := "value", type := text }]
      body := some (body [.loadArg 0, .loadArg 1, .storeField 0, .ret]) },
    { name := "get_Size", result := .i32, body := some (body [.constI32 3, .ret]) }]

def scope : Scope where
  context := { modules := [{ Module.empty "Runtime" with types := [
    { name := "NativeObject", namespaceName := "Tether.Runtime" },
    { name := "NativeLayout", namespaceName := "Tether.Runtime" },
    { name := "Text", namespaceName := "Tether.Runtime" },
    { name := "TextMarshaller", namespaceName := "Tether.Runtime" }] }] }
  module := { Module.empty "Game" with types := [type, type], tables := { members := [label] } }

def member : MemberBinding where
  name := "Label"
  nativeName := "Label"
  type := text
  category := .text
  flags := scope.config.propertyFlags exposed.attributes
  origin := .property 0

/-- The binding of the declaration at an index. -/
def binding (index : Nat) : ClassBinding where
  name := ⟨"Game", "Badge"⟩
  nativeName := "Badge"
  type := index
  base := some ⟨"Tether.Runtime", "NativeObject"⟩
  isAbstract := true
  members := [member]

/-! ### Its bindings -/

theorem derivesFromRoot_type : scope.derivesFromRoot type.qualifiedName = true :=
  Scope.derivesFromRoot_of_base? (by decide)

/-- What is remembered after the type of the property was classified. -/
def asked : Memory :=
  ({} : Memory).withCategory text {} (.ok .text)

theorem classify_text : scope.classify text {} {} = (.ok .text, asked) := by
  rw [Scope.classify, Scope.classifyWith, Scope.classifyAnew]
  rfl

theorem classify_text_asked : scope.classify text {} asked = (.ok .text, asked) := by
  rw [Scope.classify, Scope.classifyWith]
  rfl

/-- What the binding of the property is made from. -/
def declaration : MemberDeclaration where
  name := "Label"
  type := text
  attributes := exposed.attributes
  origin := .property 0
  source := none

variable {memory : Memory} (classified : scope.classify text {} memory = (.ok .text, asked))
include classified

theorem extractProperty_exposed : scope.extractProperty type exposed 0 memory =
    (⟨some member, []⟩, asked) := by
  have shaped : scope.classify text.stripByRef
      (.ofAttribute (scope.config.findAnnotation? exposed.attributes Annotation.nativeProperty))
        memory = (.ok .text, asked) := classified
  have checked : scope.extractChecked type declaration memory = (⟨some member, []⟩, asked) := by
    simp only [Scope.extractChecked, Scope.extractMember, bind, StateT.bind, declaration, shaped]
    rfl
  rw [Scope.extractProperty, if_neg (by decide)]
  exact checked

theorem examine_type (index : Nat) : scope.examine type index memory =
    (⟨some (.ofClass (binding index)), []⟩, asked) := by
  have derived : scope.extractDerived index type memory = (⟨some (binding index), []⟩, asked) := by
    have properties : (type.properties.zipIdx.mapM fun (property, place) =>
        scope.extractProperty type property place) memory =
          ([⟨some member, []⟩, .nothing], asked) := by
      have listed : type.properties.zipIdx =
          [(exposed, 0), ({ name := "Size", type := .i32, getter := some 2, setter := some 1 }, 1)] :=
        rfl
      rw [listed, List.mapM_cons]
      simp only [bind, StateT.bind, extractProperty_exposed classified]
      rfl
    simp only [Scope.extractDerived, bind, StateT.bind, properties]
    rfl
  exact Scope.examine_eq_ofClass (by decide) rfl (by decide) derivesFromRoot_type rfl derived

omit classified

theorem extract_scope : scope.extract = ⟨[.ofClass (binding 0), .ofClass (binding 1)], []⟩ := by
  have types : scope.module.types.zipIdx = [(type, 0), (type, 1)] := rfl
  rw [Scope.extract, Scope.extractWith, types, List.mapM_cons]
  simp only [bind, StateT.bind, examine_type classify_text]
  rw [List.mapM_cons]
  simp only [bind, StateT.bind, examine_type classify_text_asked]
  rfl

/-! ### Its edit -/

/-- The plan of the first declaration. -/
def plan : TypePlan :=
  match (binding 0).plan scope.config scope.module type scope.module.tables with
  | .ok ((plan, _), _) => plan
  | _ => {}

/-- The tables with what the plan refers to. -/
def tables : Tables where
  strings := ["Badge", "Label"]
  members := [
    label,
    .staticField type.signature Naming.nativeClassPtr .intPtr,
    scope.config.layout .nativeType,
    .staticField type.signature "Label_Offset" .i32,
    .field type.signature "Label_Wrapper" text,
    scope.config.layout .propertyOffset,
    scope.config.nativePtr,
    scope.config.checkLiveness,
    .instanceMethod text ".ctor" [.intPtr] .void,
    .instanceMethod type.signature "get_Label" [] text]

/-- The class without the setter. -/
def edited : TypeDef :=
  { type with
    fields := plan.fields
    properties := [{ exposed with setter := none }, { name := "Size", type := .i32, getter := some 1 }]
    methods := [
      { name := "get_Label", result := text
        body := some (body [.loadArg 0, .call 7, .loadArg 0, .loadField 4, .plain .null,
          .plain .equal, .jump .ifFalse 15, .loadArg 0, .loadArg 0, .loadField 6, .loadStatic 3,
          .plain .toNative, .plain .add, .newObject 8, .storeField 4, .loadArg 0, .loadField 4,
          .ret]) },
      { name := "get_Size", result := .i32, body := some (body [.constI32 3, .ret]) },
      TypePlan.newInitializer [.constString 0, .call 2, .storeStatic 1, .loadStatic 1,
        .constString 1, .call 5, .storeStatic 3]] }

theorem plan_binding : (binding 0).plan scope.config scope.module type scope.module.tables =
    .ok ((plan, []), tables) :=
  eq_ok_of_toOption (by decide +kernel)

theorem apply_plan : plan.apply type = .ok edited :=
  eq_ok_of_toOption (by decide +kernel)

theorem verify_edited : ∀ method ∈ edited.methods, method.verify tables = .ok () := by
  simp only [edited, List.forall_mem_cons]
  refine ⟨?_, ?_, ?_, List.forall_mem_nil _⟩ <;> cbv

theorem firstClass :
    scope.FirstClass type edited [type] (binding 0) [binding 1] plan tables where
  fresh := rfl
  types := rfl
  extracted := extract_scope
  same twin listed := by
    cases List.mem_singleton.mp listed
    rfl
  place := rfl
  name := rfl
  rootward base same := by
    cases same
    decide
  supported := rfl
  hashed := ⟨_, rfl⟩
  planned := plan_binding
  applied := apply_plan
  verified := TypePlan.verifyTouched_of_verify verify_edited

end Badge

namespace Scope

/-- The other property of the first declaration loses its setter with the exposed one, and its getter
has moved up. -/
theorem continues_of_weave_badge :
    Badge.type.kind = .classType ∧
    Badge.scope.withdrawnAt 0 Badge.type = [1] ∧
    ∃ result, Badge.scope.weave = .ok (.woven result) ∧
      result.module.types[0]? = some Badge.edited ∧
      Badge.type.Continues Badge.edited [1] (Badge.scope.makesFunctionAt 0) := by
  rcases Badge.firstClass.exists_woven with ⟨result, woven, types, _⟩
  have withdrawn : Badge.scope.withdrawnAt 0 Badge.type = [1] := by
    rw [withdrawnAt, Badge.extract_scope]
    rfl
  rcases @continues_of_weave Badge.scope result 0 Badge.type woven rfl rfl with ⟨now, there, continues⟩
  have same : now = Badge.edited := by
    rw [types] at there
    exact (Option.some.inj there).symm
  rw [same] at continues there
  rw [withdrawn] at continues
  exact ⟨rfl, withdrawn, result, woven, there, continues⟩

/-- The second declaration is bound with the exposed text, too, and keeps the setter nevertheless. -/
theorem exists_not_continues_badge :
    ∃ result, Badge.scope.weave = .ok (.woven result) ∧
      .ofClass (Badge.binding 1) ∈ Badge.scope.extract.bindings ∧
      Badge.scope.module.types[1]? = some Badge.type ∧
      (Badge.binding 1).withdrawnSetters Badge.type = [1] ∧
      ∀ now, result.module.types[1]? = some now →
        ¬ Badge.type.Continues now ((Badge.binding 1).withdrawnSetters Badge.type)
          (Badge.binding 1).makesFunction := by
  rcases Badge.firstClass.exists_woven with ⟨result, woven, types, _⟩
  have bound : .ofClass (Badge.binding 1) ∈ Badge.scope.extract.bindings := by
    rw [Badge.extract_scope]
    exact List.mem_cons_of_mem _ (List.mem_singleton.mpr rfl)
  refine ⟨result, woven, bound, rfl, rfl, fun now there continues => ?_⟩
  rw [types] at there
  cases Option.some.inj there
  have properties : Badge.type.properties =
      [Badge.exposed, { name := "Size", type := .i32, getter := some 2, setter := some 1 }] := rfl
  have follows := continues.properties
  rw [properties] at follows
  rcases follows with _ | ⟨⟨_, _, setter⟩, _⟩
  have lost := (setter.lost 1 rfl).mpr (List.mem_singleton.mpr rfl)
  cases lost

end Scope

end NativeWeave
