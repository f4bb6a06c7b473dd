import NativeWeave.Proofs.Editing.Withdrawal
import NativeWeave.Proofs.Extraction.Complete
import NativeWeave.Proofs.Machine.Accessors

namespace NativeWeave

/-!
# What is set is got

When a property with plain values is set and then got, the value is the one that was set, and no byte
of native memory has changed but those of the value.  This needs accessors that belong to the
property alone: of properties that share their accessors the last one has them.
-/

/-- The accessors of a property are two methods of objects, none of them a constructor, and no other
exposed property has them. -/
structure ClassBinding.OwnsAccessors (binding : ClassBinding) (type : TypeDef)
    (member : MemberBinding) (getter setter : Nat) : Prop where
  apart : getter ≠ setter
  reader : ∃ method, type.methods[getter]? = some method ∧ method.isStatic = false ∧
    method.isConstructor = false
  writer : ∃ method, type.methods[setter]? = some method ∧ method.isStatic = false ∧
    method.isConstructor = false
  alone : ∀ other ∈ binding.members, other.origin ≠ member.origin →
    ¬ other.HasAccessor type getter ∧ ¬ other.HasAccessor type setter

/-- Setting the property of a live object and getting it afterwards gives the value that was set.  The
setter changes no byte outside the place of the value, and the getter changes none at all. -/
def TypeDef.RoundTrips (now : TypeDef) (tables : Tables) (config : Config) (member : MemberBinding) :
    Prop :=
  ∃ place reader writer reading writing, member.origin = .property place ∧
    now.AccessedBy place reader writer ∧ reader.body = some reading ∧ writer.body = some writing ∧
    ∀ machine : Machine, machine.tables = tables → ∀ state object base distance width value,
      machine.Backs config state object base →
        state.Lays now.signature member.name member.category distance width →
          (member.category.needsWidth = true → machine.MarshalsTruths config width) →
            (member.form machine width).Holds value →
              ∃ middle final : MachineState,
                machine.Runs writing [.object object, value] state none middle ∧
                middle.memory.AgreesOn state.memory (fun place =>
                  ¬ (base + distance).Covers (member.form machine width).size place) ∧
                machine.Runs reading [.object object] middle (some value) final ∧
                final.memory = middle.memory

namespace Body

/-- A body that gets what another one sets. -/
theorem Sets.then_gets {reading writing : Body} {tables : Tables} {config : Config}
    {owner : Signature} {member : MemberBinding} (sets : writing.Sets tables config owner member)
    (gets : reading.Gets tables config owner member) {machine : Machine}
    (same : machine.tables = tables) {state : MachineState} {object : Nat}
    {base distance width : Address} {value : Value} (backs : machine.Backs config state object base)
    (lays : state.Lays owner member.name member.category distance width)
    (marshals : member.category.needsWidth = true → machine.MarshalsTruths config width)
    (holds : (member.form machine width).Holds value) :
    ∃ middle final : MachineState, machine.Runs writing [.object object, value] state none middle ∧
      middle.memory.AgreesOn state.memory (fun place =>
        ¬ (base + distance).Covers (member.form machine width).size place) ∧
      machine.Runs reading [.object object] middle (some value) final ∧
      final.memory = middle.memory := by
  rcases sets machine same state object base distance width value backs lays marshals holds with
    ⟨middle, written, agrees, keeps, statics, fields⟩
  have backed : machine.Backs config middle object base :=
    ⟨backs.lives, (fields object _).trans backs.native⟩
  have laid : middle.Lays owner member.name member.category distance width :=
    ⟨statics ▸ lays.offset, statics ▸ lays.width⟩
  rcases gets machine same middle object base distance width value backed laid keeps with
    ⟨final, read, kept⟩
  exact ⟨middle, final, written, agrees, read, kept⟩

end Body

namespace Scope

/-- A property of a woven class whose values are primitives, truth values or structs of the same bytes
on both sides gives back what it was set to, if its accessors are its own. -/
theorem roundTrips_of_weave (scope : Scope) (result : WovenModule)
    (woven : scope.weave = .ok (.woven result)) (addressable : result.module.tables.Addressable)
    (binding : ClassBinding)
    (bound : scope.extract.bindings.findClass? binding.name = some binding) (type : TypeDef)
    (present : scope.module.types[binding.type]? = some type) (member : MemberBinding)
    (listed : member ∈ binding.members) (plain : member.category.isPlain = true)
    (property : Property) (exposes : type.Exposes member property) (getter setter : UInt32)
    (reads : property.getter = some getter) (writes : property.setter = some setter)
    (owns : binding.OwnsAccessors type member getter.toNat setter.toNat) :
    ∃ now, result.module.types[binding.type]? = some now ∧
      now.RoundTrips result.module.tables scope.config member := by
  rcases exists_planning_of_weave woven addressable.members bound present with
    ⟨before, after, now, planning, there, applied, within, _, _, _⟩
  have declared := (Bindings.ofClass_mem_of_findClass? bound).1
  rcases planning.accessor (pairwise_origins declared present) listed with
    ⟨start, finish, planned, run, finishGrows, gives⟩
  have secondGrows : planning.second.Grows result.module.tables :=
    (Emit.Grows.grows planning.constructors).trans ((Emit.Grows.grows planning.last).trans within)
  rcases ClassSite.leaves_planProperty_bodies plain exposes reads writes owns.apart _ _ _ run _
      (finishGrows.trans secondGrows) addressable.members addressable with
    ⟨reading, writing, getterGives, setterGives, gets, sets⟩
  rcases owns.reader with ⟨reader, readerHere, readerInstanced, readerPlain⟩
  rcases owns.writer with ⟨writer, writerHere, writerInstanced, writerPlain⟩
  have readerGiven := gives _ reader readerHere readerPlain
    (fun other inside apart => (owns.alone other inside apart).1) reading getterGives
  have writerGiven := gives _ writer writerHere writerPlain
    (fun other inside apart => (owns.alone other inside apart).2) writing setterGives
  rcases exposes with ⟨place, origin, here⟩
  have accessed := TypePlan.accessedBy_of_apply applied here reads writes readerHere writerHere
    readerInstanced writerInstanced readerGiven.stays writerGiven.stays
  rw [readerGiven.body, writerGiven.body] at accessed
  have owner : now.signature = type.signature :=
    congrArg Signature.named (TypePlan.sameOutside_of_apply applied).qualifiedName
  refine ⟨now, there, place, _, _, reading, writing, origin, accessed, rfl, rfl, ?_⟩
  rw [owner]
  exact fun machine same state object base distance width value backs lays marshals holds =>
    sets.then_gets gets same backs lays marshals holds

end Scope

/-! ## Two classes

A machine that knows no more than that objects are alive runs accessors whose values are numbers. -/

/-- A machine on which every object is alive, and which answers no other call. -/
def Machine.bare (tables : Tables) (config : Config) : Machine where
  tables := tables
  shape _ := .primitive .i32
  fits _ := Shape.size_primitive_le .i32
  initial _ := .null
  conforms _ _ := true
  actual member _ := member
  allocate _ state := (.null, state)
  answer member _ state := if member = config.checkLiveness then .returns none state else .fails

/-- The state in which the memory of one object begins at an address and is empty, and static fields
hold numbers. -/
def MachineState.withObject (config : Config) (base : Address) (statics : MemberRef → Address) :
    MachineState where
  memory _ := 0
  cells place := if place = .field 0 config.nativePtr then .integer base else .null
  statics member := .integer (statics member)
  frames := 0
  extent := 0

theorem Machine.backs_bare (tables : Tables) (config : Config) (base : Address)
    (statics : MemberRef → Address) :
    (Machine.bare tables config).Backs config (.withObject config base statics) 0 base where
  lives _ := if_pos rfl
  native := if_pos rfl

namespace Meter

theorem ownsAccessors_member : binding.OwnsAccessors type member 0 1 where
  apart := by decide
  reader := ⟨_, rfl, by decide, by decide⟩
  writer := ⟨_, rfl, by decide, by decide⟩
  alone other inside apart := by
    cases List.mem_singleton.mp inside
    exact absurd rfl apart

/-- The state in which the value of the property lies behind another one. -/
def state : MachineState :=
  .withObject scope.config 4096 fun _ => 4

end Meter

/-- A level of seven that is set to an object is got back from it. -/
theorem Scope.roundTrips_of_weave_meter :
    ∃ result, Meter.scope.weave = .ok (.woven result) ∧ result.module.tables.Addressable ∧
      Meter.scope.extract.bindings.findClass? Meter.binding.name = some Meter.binding ∧
      Meter.scope.module.types[Meter.binding.type]? = some Meter.type ∧
      Meter.member ∈ Meter.binding.members ∧ Meter.member.category.isPlain = true ∧
      Meter.type.Exposes Meter.member Meter.exposed ∧ Meter.exposed.getter = some 0 ∧
      Meter.exposed.setter = some 1 ∧ Meter.binding.OwnsAccessors Meter.type Meter.member 0 1 ∧
      ∃ reader writer reading writing, Meter.edited.AccessedBy 0 reader writer ∧
        reader.body = some reading ∧ writer.body = some writing ∧
        ∃ middle final : MachineState,
          (Machine.bare Meter.tables Meter.scope.config).Runs writing [.object 0, .integer 7]
            Meter.state none middle ∧
          (Machine.bare Meter.tables Meter.scope.config).Runs reading [.object 0] middle
            (some (.integer 7)) final := by
  rcases Meter.soleClass.exists_woven with ⟨result, woven, types, tables⟩
  have addressable : result.module.tables.Addressable := by
    rw [tables]
    exact ⟨by rw [Tables.Indexed]; decide, by decide⟩
  have bound : Meter.scope.extract.bindings.findClass? Meter.binding.name = some Meter.binding := by
    rw [Meter.extract_scope]
    rfl
  have there : result.module.types[Meter.binding.type]? = some Meter.edited := by
    rw [types]
    rfl
  have listed : Meter.member ∈ Meter.binding.members := List.mem_singleton_self _
  have exposes : Meter.type.Exposes Meter.member Meter.exposed := ⟨0, rfl, rfl⟩
  rcases roundTrips_of_weave Meter.scope result woven addressable Meter.binding bound Meter.type rfl
      Meter.member listed rfl Meter.exposed exposes 0 1 rfl rfl Meter.ownsAccessors_member with
    ⟨now, same, place, reader, writer, reading, writing, origin, accessed, read, written, trips⟩
  cases there.symm.trans same
  cases origin
  rw [tables] at trips
  have small : NativeKind.i32.Holds (.integer 7) := ⟨by decide, by decide⟩
  rcases trips (.bare Meter.tables Meter.scope.config) rfl Meter.state 0 4096 4 0 (.integer 7)
      (Machine.backs_bare _ _ _ _) ⟨rfl, by rintro ⟨⟩⟩ (by rintro ⟨⟩) small with
    ⟨middle, final, set, _, got, _⟩
  exact ⟨result, woven, addressable, bound, rfl, listed, rfl, exposes, rfl, rfl,
    Meter.ownsAccessors_member, reader, writer, reading, writing, accessed, read, written, middle,
    final, set, got⟩

namespace Gauge

/-- A property that is read by the first method and written by the second one. -/
def property (name : String) : Property where
  name := name
  type := .i32
  getter := some 0
  setter := some 1
  attributes := Meter.exposed.attributes

/-- A class with two properties that share their accessors. -/
def type : TypeDef where
  name := "Gauge"
  namespaceName := "Game"
  flags := TypeDef.abstractFlag
  base := some (.named ⟨"Tether.Runtime", "NativeObject"⟩)
  attributes := [{ type := ⟨"Tether.Attributes", "NativeClass"⟩ }]
  properties := [property "Level", property "Limit"]
  methods := [
    { name := "get_Level", result := .i32, body := some (Meter.body [.constI32 0, .ret]) },
    { name := "set_Level", parameters := [{ name := "value", type := .i32 }]
      body := some (Meter.body [.ret]) }]

def scope : Scope where
  context := Meter.scope.context
  module := { Module.empty "Game" with types := [type] }

def member (name : String) (place : Nat) : MemberBinding where
  name := name
  nativeName := name
  type := .i32
  category := .scalar .i32
  flags := scope.config.propertyFlags Meter.exposed.attributes
  origin := .property place

def binding : ClassBinding where
  name := ⟨"Game", "Gauge"⟩
  nativeName := "Gauge"
  type := 0
  base := some ⟨"Tether.Runtime", "NativeObject"⟩
  isAbstract := true
  members := [member "Level" 0, member "Limit" 1]

theorem derivesFromRoot_type : scope.derivesFromRoot type.qualifiedName = true :=
  Scope.derivesFromRoot_of_base? (by decide)

/-- What the binding of a property is made from. -/
def declaration (name : String) (place : Nat) : MemberDeclaration where
  name := name
  type := .i32
  attributes := Meter.exposed.attributes
  origin := .property place
  source := none

theorem extractProperty_property (name : String) (place : Nat) {memory : Memory}
    (answered : scope.classify .i32 {} memory = (.ok (.scalar .i32), Meter.asked))
    (lawful : (member name place).violations type = []) :
    scope.extractProperty type (property name) place memory =
      (⟨some (member name place), []⟩, Meter.asked) := by
  have shaped : scope.classify Signature.i32.stripByRef
      (.ofAttribute (scope.config.findAnnotation? Meter.exposed.attributes
        Annotation.nativeProperty)) memory = (.ok (.scalar .i32), Meter.asked) := answered
  have checked : scope.extractChecked type (declaration name place) memory =
      (⟨some (member name place), []⟩, Meter.asked) := by
    simp only [Scope.extractChecked, Scope.extractMember, bind, StateT.bind, declaration, shaped]
    change ((⟨some (member name place), (member name place).violations type⟩ :
      Extracted MemberBinding), Meter.asked) = _
    rw [lawful]
  have annotated : scope.config.isAnnotated Meter.exposed.attributes Annotation.nativeProperty =
      true := by decide
  rw [Scope.extractProperty, property, annotated, if_neg (by decide)]
  exact checked

/-- The type of the properties is classified once. -/
theorem extractProperties_type : (type.properties.zipIdx.mapM fun (property, place) =>
    scope.extractProperty type property place) {} =
      ([⟨some (member "Level" 0), []⟩, ⟨some (member "Limit" 1), []⟩], Meter.asked) := by
  have anew : scope.classify .i32 {} {} = (.ok (.scalar .i32), Meter.asked) := by
    rw [Scope.classify, Scope.classifyWith, Scope.classifyAnew]
    rfl
  have again : scope.classify .i32 {} Meter.asked = (.ok (.scalar .i32), Meter.asked) := by
    rw [Scope.classify, Scope.classifyWith]
    rfl
  have listed : type.properties.zipIdx = [(property "Level", 0), (property "Limit", 1)] := rfl
  rw [listed, List.mapM_cons]
  simp only [bind, StateT.bind, List.mapM_cons, extractProperty_property "Level" 0 anew rfl,
    extractProperty_property "Limit" 1 again rfl]
  rfl

theorem extract_scope : scope.extract = ⟨[.ofClass binding], []⟩ := by
  have derived : scope.extractDerived 0 type {} = (⟨some binding, []⟩, Meter.asked) := by
    simp only [Scope.extractDerived, bind, StateT.bind, extractProperties_type]
    rfl
  exact Scope.extract_eq_singleton rfl (Scope.examine_eq_ofClass (by decide) rfl (by decide)
    derivesFromRoot_type rfl derived)

def plan : TypePlan :=
  match binding.plan scope.config scope.module type scope.module.tables with
  | .ok ((plan, _), _) => plan
  | _ => {}

def tables : Tables where
  strings := ["Gauge", "Level", "Limit"]
  members := [
    .staticField type.signature Naming.nativeClassPtr .intPtr,
    scope.config.layout .nativeType,
    .staticField type.signature "Level_Offset" .i32,
    scope.config.layout .propertyOffset,
    scope.config.nativePtr,
    scope.config.checkLiveness,
    .instanceMethod type.signature "get_Level" [] .i32,
    .instanceMethod type.signature "set_Level" [.i32] .void,
    .staticField type.signature "Limit_Offset" .i32]

/-- The address of the value of the second property. -/
def address : Fragment :=
  [.loadArg 0, .loadField 4, .loadStatic 8, .plain .toNative, .plain .add]

/-- The code of the setter, up to its return. -/
def setting : Fragment :=
  [.loadArg 0, .call 5] ++ address ++ [.loadArg 1, .indirect .store .i32]

/-- The class with accessors for its second property. -/
def edited : TypeDef :=
  { type with
    fields := plan.fields
    methods := [
      { name := "get_Level", result := .i32
        body := some (Meter.body ([.loadArg 0, .call 5] ++ address
          ++ [.indirect .load .i32, .ret])) },
      { name := "set_Level", parameters := [{ name := "value", type := .i32 }]
        body := some (Meter.body (setting ++ [.ret])) },
      TypePlan.newInitializer [.constString 0, .call 1, .storeStatic 0, .loadStatic 0,
        .constString 1, .call 3, .storeStatic 2, .loadStatic 0, .constString 2, .call 3,
        .storeStatic 8]] }

theorem plan_binding : binding.plan scope.config scope.module type scope.module.tables =
    .ok ((plan, []), tables) :=
  eq_ok_of_toOption (by decide +kernel)

theorem apply_plan : plan.apply type = .ok edited :=
  eq_ok_of_toOption (by decide +kernel)

theorem verify_edited : ∀ method ∈ edited.methods, method.verify tables = .ok () := by
  simp only [edited, List.forall_mem_cons]
  refine ⟨?_, ?_, ?_, List.forall_mem_nil _⟩ <;> cbv

theorem soleClass : scope.SoleClass type edited binding plan tables where
  fresh := rfl
  types := rfl
  extracted := extract_scope
  place := rfl
  name := rfl
  rootward base same := by
    cases same
    decide
  supported := rfl
  hashed := ⟨_, rfl⟩
  planned := plan_binding
  applied := apply_plan
  verified := TypePlan.verifyTouched_of_verify verify_edited

/-- The state in which the value of the second property lies behind that of the first one. -/
def state : MachineState :=
  .withObject scope.config 4096 fun member =>
    if member = .staticField type.signature "Limit_Offset" .i32 then 4 else 0

theorem signature_edited : edited.signature = type.signature := by
  rw [TypeDef.signature, TypeDef.qualifiedName]
  rfl

theorem lays_state : state.Lays type.signature "Level" (.scalar .i32) 0 0 where
  offset := congrArg Value.integer (if_neg (by decide))
  width impossible := nomatch impossible

/-- What has become of the setter writes a one to the place of the second property. -/
theorem passes_setting :
    (Machine.bare tables scope.config).Passes state.frames setting []
      (state.enter [.object 0, .integer 1] []) []
      { state.enter [.object 0, .integer 1] [] with
        memory := state.memory.write 4100 [1, 0, 0, 0] } :=
  .cons ⟨0, rfl⟩ (.cons ⟨0, rfl⟩ (.cons ⟨0, rfl⟩ (.cons ⟨0, rfl⟩ (.cons ⟨0, rfl⟩ (.cons ⟨0, rfl⟩
    (.cons ⟨0, rfl⟩ (.cons ⟨0, rfl⟩ (.cons ⟨0, rfl⟩ .nil))))))))

end Gauge

/-- A property does not give back what it was set to, and other bytes are changed, if its accessors
are those of another property, too: the class has two properties with one getter, which takes no
parameter, and one setter, which takes one. -/
theorem Scope.not_roundTrips_gauge :
    ∃ result, Gauge.scope.weave = .ok (.woven result) ∧ result.module.tables.Addressable ∧
      Gauge.scope.extract.bindings.findClass? Gauge.binding.name = some Gauge.binding ∧
      Gauge.scope.module.types[Gauge.binding.type]? = some Gauge.type ∧
      Gauge.member "Level" 0 ∈ Gauge.binding.members ∧
      (Gauge.member "Level" 0).category.isPlain = true ∧
      Gauge.type.Exposes (Gauge.member "Level" 0) (Gauge.property "Level") ∧
      (Gauge.property "Level").getter = some 0 ∧ (Gauge.property "Level").setter = some 1 ∧
      (∃ getter, Gauge.type.methods[0]? = some getter ∧ getter.isStatic = false ∧
        getter.parameters = []) ∧
      (∃ setter, Gauge.type.methods[1]? = some setter ∧ setter.isStatic = false ∧
        setter.parameterTypes = [.i32]) ∧
      ∀ now, result.module.types[Gauge.binding.type]? = some now →
        ¬ now.RoundTrips result.module.tables Gauge.scope.config (Gauge.member "Level" 0) := by
  rcases Gauge.soleClass.exists_woven with ⟨result, woven, types, tables⟩
  have addressable : result.module.tables.Addressable := by
    rw [tables]
    exact ⟨by rw [Tables.Indexed]; decide, by decide⟩
  have bound : Gauge.scope.extract.bindings.findClass? Gauge.binding.name = some Gauge.binding := by
    rw [Gauge.extract_scope]
    rfl
  refine ⟨result, woven, addressable, bound, rfl, List.mem_cons_self, rfl, ⟨0, rfl, rfl⟩, rfl, rfl,
    ⟨_, rfl, by decide, rfl⟩, ⟨_, rfl, by decide, rfl⟩, fun now there => ?_⟩
  rw [types] at there
  cases there
  rintro ⟨place, reader, writer, reading, writing, origin, accessed, _, written, trips⟩
  cases origin
  rcases accessed with ⟨property, getter, setter, here, _, writes, _, second⟩
  cases here
  cases writes
  have found : writer.body = some (Meter.body (Gauge.setting ++ [.ret])) := by
    rw [← Option.some.inj second]
  cases found.symm.trans written
  rw [Gauge.signature_edited] at trips
  have small : NativeKind.i32.Holds (.integer 1) := ⟨by decide, by decide⟩
  rcases trips (.bare Gauge.tables Gauge.scope.config) tables.symm Gauge.state 0 4096 0 0 (.integer 1)
      (Machine.backs_bare _ _ _ _) Gauge.lays_state (by rintro ⟨⟩) small with
    ⟨middle, _, set, agrees, _, _⟩
  rw [(set.unique (Machine.runs_of_passes Gauge.passes_setting)).2] at agrees
  have outside : ¬ (4096 + 0 : Address).Covers 4 4100 := by decide
  exact absurd (agrees 4100 outside) (by decide)

end NativeWeave
