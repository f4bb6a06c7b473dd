import NativeWeave.Proofs.Editing.Survival
import NativeWeave.Proofs.Extraction.Answers
import NativeWeave.Proofs.Machine.Property

namespace NativeWeave

/-!
# How many elements arrays have

An annotation says how many elements an exposed array has.  The number is read as a wide integer, kept
as an unsigned word, and stored in the getter as a signed one.  No number is refused that fits into an
unsigned word, and so those that need its first bit turn into negative ones on the last of these steps.
-/

/-! ## Numbers -/

/-- An unsigned word as a signed one. -/
theorem toInt_toInt32 (dim : UInt32) :
    dim.toInt32.toInt = if dim.toNat < 2 ^ 31 then (dim.toNat : Int) else dim.toNat - 2 ^ 32 := by
  change dim.toBitVec.toInt = _
  rw [BitVec.toInt_eq_toNat_cond]
  change (if 2 * dim.toNat < 2 ^ 32 then (dim.toNat : Int) else dim.toNat - (2 ^ 32 : Nat)) = _
  split <;> split <;> omega

/-- A number that fits is the dimension. -/
theorem toNat_of_arrayDim? {value : Int64} {dim : UInt32} (fits : arrayDim? value = some dim) :
    (dim.toNat : Int) = value.toInt := by
  unfold arrayDim? at fits
  split at fits
  · cases fits
    rw [UInt32.toNat_ofNat']
    omega
  · cases fits

/-! ## Types -/

theorem Config.isRuntime_of_ne {config : Config} {name : QualifiedName} {one : RuntimeType}
    (is : config.isRuntime name one = true) (other : RuntimeType) (apart : one.name ≠ other.name) :
    config.isRuntime name other = false := by
  unfold isRuntime isRuntimeName at is ⊢
  rw [Bool.and_eq_true, beq_iff_eq, beq_iff_eq] at is
  rw [is.2, beq_false_of_ne apart, Bool.and_false]

namespace Scope

variable {scope : Scope}

/-- A fixed array has a category that says how many elements of which type it has: as many as the
shape of the member says, and not none. -/
def Sizes (scope : Scope) (type : Signature) (shape : MemberShape) (category : Category) : Prop :=
  scope.isFixedArray type = true → ∃ base inner element dim,
    type = .generic base [element] ∧ category = .array inner element dim ∧
      shape.arrayDim = some dim ∧ 0 < dim

/-- The outline of a fixed array has an element and a dimension. -/
theorem exists_array_of_outline {type : Signature} {shape : MemberShape} {outline : Outline}
    (found : scope.outline type shape = .ok outline) (fixed : scope.isFixedArray type = true) :
    ∃ base element dim, type = .generic base [element] ∧ outline = .array element dim ∧
      shape.arrayDim = some dim ∧ 0 < dim := by
  unfold Scope.outline at found
  rw [fixed, Bool.not_true, Bool.and_false, if_neg Bool.false_ne_true] at found
  split at found
  · cases fixed
  · cases fixed
  · next base element =>
    have runtime : scope.config.isRuntime base .fixedArray = true := fixed
    have weak := Config.isRuntime_of_ne runtime .weakRef (by decide)
    have subclass := Config.isRuntime_of_ne runtime .subclassOf (by decide)
    unfold genericOutline at found
    simp only [weak, subclass, runtime, if_true, Bool.false_eq_true, if_false] at found
    split at found
    · next dim kept =>
      cases found
      rcases Option.filter_eq_some_iff.mp kept with ⟨given, positive⟩
      exact ⟨base, element, dim, rfl, rfl, given, of_decide_eq_true positive⟩
    · cases found
  · cases found

theorem outlined_sizes : scope.Outlined scope.Sizes where
  settled found fixed := by
    rcases exists_array_of_outline found fixed with ⟨_, _, _, _, impossible, _⟩
    cases impossible
  struct found _ _ fixed := by
    rcases exists_array_of_outline found fixed with ⟨_, _, _, _, impossible, _⟩
    cases impossible
  array found inner _ fixed := by
    rcases exists_array_of_outline found fixed with
      ⟨base, element, dim, same, outline, given, positive⟩
    cases outline
    exact ⟨base, inner, _, _, same, rfl, given, positive⟩
  list found _ _ fixed := by
    rcases exists_array_of_outline found fixed with ⟨_, _, _, _, impossible, _⟩
    cases impossible

end Scope


/-! ## Code -/

/-- The code makes one object: a fixed array over native memory.  Its constructor takes a handle, an
address, the number of elements and the size of an element, and the number is a constant. -/
def Body.MakesArray (body : Body) (tables : Tables) (config : Config) (element : Signature)
    (count : Int32) : Prop :=
  ∃ code front size token back, body.toCode = .ok code ∧
    code.instrs = front ++ [.constI32 count, Instr.loadStatic size, Instr.newObject token] ++ back ∧
    tables.member? token = some (.instanceMethod (config.runtimeGeneric .fixedArray element)
      Method.constructorName [.intPtr, .intPtr, .i32, .i32] .void) ∧
    Opcode.member .newObject ∉ (front ++ back).map Instruction.opcode

open Emit TypePlan

namespace Fragment

/-- What a getter does before it makes an array: it ends up with a handle and an address. -/
def beforeArray (live wrapper handle native offset : UInt32) : Fragment :=
  [.loadArg 0, .call live, .loadArg 0, .loadField wrapper, .plain .null, .plain .equal,
    .jump .ifFalse 18, .loadArg 0, .loadStatic handle, .loadArg 0, .loadField native,
    .loadStatic offset, .plain .toNative, .plain .add]

/-- What a getter does with the array that it has made. -/
def behindArray (wrapper : UInt32) : Fragment :=
  [.storeField wrapper, .loadArg 0, .loadField wrapper, .ret]

/-- The code of a getter that makes an array at the first reading. -/
def arrayGetter (live wrapper handle native offset size create : UInt32) (count : Int32) : Fragment :=
  beforeArray live wrapper handle native offset
    ++ [.constI32 count, .loadStatic size, .newObject create] ++ behindArray wrapper

variable {live wrapper handle native offset size create : UInt32} {count : Int32}

/-- How much space the code takes is up to its opcodes. -/
theorem storable_arrayGetter :
    Code.Storable { instrs := arrayGetter live wrapper handle native offset size create count } := by
  refine Code.storable_of_targetsInside ?_ ?_
  · intro instr member target leads
    have targets : (arrayGetter live wrapper handle native offset size create count).filterMap
        Instruction.target? = [18] := rfl
    have listed := List.mem_filterMap.mpr ⟨instr, member, leads⟩
    rw [targets] at listed
    cases List.mem_singleton.mp listed
    exact Nat.le_of_ble_eq_true rfl
  · have opcodes : (arrayGetter live wrapper handle native offset size create count).map
        Instruction.opcode = (arrayGetter 0 0 0 0 0 0 0 0).map Instruction.opcode := rfl
    rw [Code.byteSize_eq_sum]
    change (List.map ((fun opcode => 1 + opcode.operandSize) ∘ Instruction.opcode) _).sum < _
    rw [← List.map_map, opcodes]
    decide

theorem newObject_notMem_arrayGetter : (Opcode.member .newObject) ∉
    (beforeArray live wrapper handle native offset ++ behindArray wrapper).map Instruction.opcode := by
  have opcodes : (beforeArray live wrapper handle native offset ++ behindArray wrapper).map
      Instruction.opcode = (beforeArray 0 0 0 0 0 ++ behindArray 0).map Instruction.opcode := rfl
  rw [opcodes]
  decide

end Fragment

/-- Reading an array makes it at the first time. -/
theorem Category.leaves_load_array {config : Config} {type element : Signature} {inner : Category}
    {dim : UInt32} (slots : MemberSlots) (source : ValueSource) :
    ((Category.array inner element dim).load config type slots ⟨source, some slots.offset⟩).Leaves
      fun tables load => ∃ wrapper handle size create,
        (∀ native live, source = .thisField native →
          Fragment.concat [[.loadArg 0, .call live], load, [.ret]] =
            Fragment.arrayGetter live wrapper handle native slots.offset size create dim.toInt32) ∧
        tables.member? create = some (.instanceMethod (config.runtimeGeneric .fixedArray element)
          Method.constructorName [.intPtr, .intPtr, .i32, .i32] .void) := by
  unfold load
  simp only [needsWrapperField, if_true]
  cases slots.wrapper with
  | none => exact leaves_inconsistent _
  | some wrapper =>
    unfold newWrapper fromNative MemberSlots.requireHandle MemberSlots.requireElementSize
      MemberSlots.require newObject
    cases slots.handle with
    | none => exact leaves_inconsistent _
    | some handle =>
      cases slots.elementSize with
      | none => exact leaves_inconsistent _
      | some size =>
        simp only [bind_assoc, pure_bind]
        refine .bind (leaves_member _) fun create => .pure fun tables means => ?_
        refine ⟨wrapper, handle, size, create, ?_, means⟩
        rintro native live rfl
        rfl

namespace ClassSite

variable {site : ClassSite} {member : MemberBinding} {property : Property} {index : Nat}

/-- The getter of an array gets code that makes the array at the first reading. -/
theorem leaves_planGetter_array {inner : Category} {element : Signature} {dim : UInt32}
    (array : member.category = .array inner element dim) (slots : MemberSlots)
    (source : ValueSource) :
    (site.planGetter member index slots ⟨source, some slots.offset⟩).Leaves fun tables reading =>
      ∃ name body, reading.plan = .replaceBody index name body ∧
        ((∃ native, source = .thisField native) →
          body.MakesArray tables site.config element dim.toInt32) := by
  have checked : (liveness site.config).Leaves fun _ code =>
      ∃ live, code = [.loadArg 0, .call live] := by
    unfold liveness Emit.call
    simp only [bind_assoc, pure_bind]
    exact .after fun live => .pure fun _ => ⟨live, rfl⟩
  unfold planGetter
  rw [array]
  refine .bind (leaves_method index) fun getter => .bind checked fun live => ?_
  refine .bind (Category.leaves_load_array slots source) fun load => .after fun token => ?_
  refine .pure fun tables loads lives _ => ⟨getter.name, _, rfl, ?_⟩
  rintro ⟨native, here⟩
  rcases lives with ⟨live, rfl⟩
  rcases loads with ⟨wrapper, handle, size, create, joined, means⟩
  rw [joined native live here]
  rcases @Code.exists_toCode_toBody ⟨Fragment.arrayGetter live wrapper handle native slots.offset size
      create dim.toInt32, []⟩ Fragment.storable_arrayGetter [] with ⟨code, read, same⟩
  exact ⟨code, _, size, create, _, read, same, means, Fragment.newObject_notMem_arrayGetter⟩

/-- What the getter of a property gets is what becomes of it, if it is not the setter. -/
theorem leaves_planAccessors_getter {holds : Tables → Body → Prop}
    (apart : ∀ setter, property.setter = some setter → setter.toNat ≠ index)
    (each : ∀ (slots : MemberSlots) (source : ValueSource),
      (site.planGetter member index slots ⟨source, some slots.offset⟩).Leaves
        fun tables reading => ∃ name body, reading.plan = .replaceBody index name body ∧
          ((∃ native, source = .thisField native) → holds tables body)) :
    (site.planAccessors member property index).Leaves fun tables planned =>
      ∃ body, planned.plan.Gives index (some body) ∧ holds tables body := by
  have slotted : (memberSlots site.owner member.name member.category).Leaves fun _ slots =>
      slots.plan.Gives index none := .ofYields fun _ => yieldsGives_memberSlots index
  have wrapped : (site.wrapperSlot member.name member.category).Leaves fun _ wrapper =>
      wrapper.plan.Gives index none := .ofYields fun _ => yieldsGives_wrapperSlot index
  unfold planAccessors
  refine .bind slotted fun slots => .bind wrapped fun wrapper => .after fun fill => ?_
  refine .bind (Emit.leaves_thisNative site.config) fun native => ?_
  refine .bind (each { slots.value with wrapper := wrapper.value } native) fun reading => ?_
  have gives : ∀ {name body} (setting removal : TypePlan), slots.plan.Gives index none →
      wrapper.plan.Gives index none → reading.plan = .replaceBody index name body →
      setting.Gives index none → removal.Gives index none → ∀ hidden,
        (slots.plan ++ wrapper.plan ++ ({ prelude := fill } : TypePlan) ++ reading.plan ++ setting
          ++ removal ++ (if (site.type.findField? hidden).isSome then
            ({ removedFields := [hidden] } : TypePlan) else {})).Gives index (some body) := by
    intro name body setting removal first second reads set removed hidden
    have filled : ({ prelude := fill } : TypePlan).Gives index none := gives_of_nil rfl rfl
    have read := ((first.append second).append filled).append (gives_replaceBody index name body)
    rw [if_pos rfl] at read
    rw [reads]
    exact ((read.append set).append removed).append (gives_removedFields _ [hidden])
  dsimp only
  split
  · refine .bind (.lift fun planned _ => gives_of_planRemoval planned apart) fun removal => ?_
    rw [pure_bind]
    refine .pure fun tables removed read found bare slotted => ?_
    rcases read with ⟨name, body, reads, holds⟩
    rcases found with ⟨token, same, _⟩
    exact ⟨body, gives _ _ slotted bare reads gives_empty removed _, holds ⟨token, same⟩⟩
  · refine .bind (.ofYields fun _ => yieldsGives_planSetter apart) fun setter => ?_
    rw [pure_bind]
    refine .pure fun tables set read found bare slotted => ?_
    rcases read with ⟨name, body, reads, holds⟩
    rcases found with ⟨token, same, _⟩
    exact ⟨body, gives _ _ slotted bare reads set gives_empty _, holds ⟨token, same⟩⟩

theorem leaves_planProperty_array {inner : Category} {element : Signature} {dim : UInt32}
    (array : member.category = .array inner element dim) (exposes : site.type.Exposes member property)
    {getter : UInt32} (reads : property.getter = some getter)
    (apart : ∀ setter, property.setter = some setter → setter.toNat ≠ getter.toNat) :
    (site.planProperty member).Leaves fun tables planned => ∃ body,
      planned.plan.Gives getter.toNat (some body) ∧
        body.MakesArray tables site.config element dim.toInt32 :=
  leaves_planProperty_of_planAccessors exposes reads
    (leaves_planAccessors_getter apart (leaves_planGetter_array array))

end ClassSite

/-! ## Classes -/

/-- The getter of a property is no constructor and not its setter as well, and no other exposed
property has it as an accessor. -/
structure ClassBinding.OwnsGetter (binding : ClassBinding) (type : TypeDef) (place : Nat)
    (property : Property) (getter : UInt32) : Prop where
  reads : property.getter = some getter
  plain : ∀ method, type.methods[getter.toNat]? = some method → method.isConstructor = false
  apart : ∀ setter, property.setter = some setter → setter.toNat ≠ getter.toNat
  alone : ∀ other ∈ binding.members, other.origin ≠ .property place →
    ¬ other.HasAccessor type getter.toNat

namespace Scope

/-- The annotation of an exposed array of a woven class says how many elements it has: at least one,
and fewer than there are unsigned words.  The getter makes an array with that number of elements
exactly if signed words can hold the number. -/
theorem exists_makesArray_of_weave (scope : Scope) (result : WovenModule)
    (woven : scope.weave = .ok (.woven result)) (indexed : result.module.tables.Indexed)
    (binding : ClassBinding)
    (bound : scope.extract.bindings.findClass? binding.name = some binding) (type : TypeDef)
    (present : scope.module.types[binding.type]? = some type) (place : Nat) (property : Property)
    (here : type.properties[place]? = some property)
    (exposed : scope.config.isAnnotated property.attributes Annotation.nativeProperty = true)
    (fixed : scope.isFixedArray property.type.stripByRef = true) (getter : UInt32)
    (owns : binding.OwnsGetter type place property getter) :
    ∃ attr value base element count,
      scope.config.findAnnotation? property.attributes Annotation.nativeProperty =
        some attr ∧
      (attr.named? Annotation.arrayDimArgument).bind (·.asInt?) = some value ∧
      0 < value.toInt ∧ value.toInt < 2 ^ 32 ∧
      property.type.stripByRef = .generic base [element] ∧
      (∃ now reader body, result.module.types[binding.type]? = some now ∧ now.ReadBy place reader ∧
        reader.body = some body ∧
        body.MakesArray result.module.tables scope.config element count) ∧
      (0 < count.toInt ∧ count.toInt = value.toInt ↔ value.toInt < 2 ^ 31) := by
  rcases exists_planning_of_weave woven indexed bound present with
    ⟨before, after, now, planning, there, applied, within, _, _, _⟩
  have declared := (Bindings.ofClass_mem_of_findClass? bound).1
  have item : (property, place) ∈ scope.annotatedProperties type :=
    List.mem_filter.mpr ⟨List.mk_mem_zipIdx_iff_getElem?.mpr here, exposed⟩
  rcases (exists_of_mem_forall₂ (complete_of_mem_extract declared present).2.1).1 _ item with
    ⟨member, listed, reader, found, instanced, category, override, source, renders⟩
  have origin : member.origin = .property place := by rw [renders]; rfl
  have reflects := outlined_sizes.answering.reflects_of_mem_extract Memory.Fitting.empty declared present
  rcases reflects.properties binding rfl member listed with ⟨own, index, stands, same, sizes⟩
  cases origin.symm.trans same
  cases here.symm.trans stands
  rcases sizes fixed with ⟨base, inner, element, dim, shaped, array, shape, positive⟩
  rcases planning.accessor (pairwise_origins declared present) listed with
    ⟨start, finish, planned, run, finishGrows, gives⟩
  have grows := finishGrows.trans (planning.second_grows within)
  rcases ClassSite.leaves_planProperty_array array ⟨place, origin, here⟩ owns.reads owns.apart _ _ _
      run _ grows indexed with ⟨body, given, makes⟩
  rw [getter?, owns.reads, Option.bind_some] at found
  have given := gives _ reader found (owns.plain reader found)
    (fun other inside apart => owns.alone other inside (origin ▸ apart)) body given
  have read := TypePlan.readBy_of_apply applied here owns.reads found instanced given.stays
  rw [given.body] at read
  cases annotated : scope.config.findAnnotation? property.attributes Annotation.nativeProperty with
  | none =>
    rw [shapeOf, annotated] at shape
    cases shape
  | some attr =>
    rw [shapeOf, annotated] at shape
    rcases Option.bind_eq_some_iff.mp shape with ⟨value, named, fits⟩
    have size := toNat_of_arrayDim? fits
    have bounded := dim.toNat_lt
    have more : 0 < dim.toNat := positive
    refine ⟨attr, value, base, element, _, rfl, named, by omega, by omega, shaped,
      ⟨now, _, body, there, read, rfl, makes⟩, ?_⟩
    rw [toInt_toInt32]
    split <;> omega

end Scope


/-! ## An array without a last element -/

namespace Rack

def cells : Signature :=
  .generic ⟨"Tether.Runtime", "FixedArray"⟩ [.i32]

/-- The annotation asks for one element more than signed words can count. -/
def dimension : Attribute where
  type := ⟨"Tether.Attributes", "NativeProperty"⟩
  named := [("ArrayDim", .int 2147483648)]

def exposed : Property where
  name := "Cells"
  type := cells
  getter := some 0
  attributes := [dimension]

/-- A class with an exposed array. -/
def type : TypeDef where
  name := "Rack"
  namespaceName := "Game"
  flags := TypeDef.abstractFlag
  base := some (.named ⟨"Tether.Runtime", "NativeObject"⟩)
  attributes := [{ type := ⟨"Tether.Attributes", "NativeClass"⟩ }]
  properties := [exposed]
  methods := [{ name := "get_Cells", result := cells, body := some (Meter.body [.plain .null, .ret]) }]

def scope : Scope where
  context := { modules := [{ Module.empty "Runtime" with types := [
    { name := "NativeObject", namespaceName := "Tether.Runtime" },
    { name := "NativeLayout", namespaceName := "Tether.Runtime" },
    { name := "FixedArray", namespaceName := "Tether.Runtime" }] }] }
  module := { Module.empty "Game" with types := [type] }

def category : Category :=
  .array (.scalar .i32) .i32 2147483648

def member : MemberBinding where
  name := "Cells"
  nativeName := "Cells"
  type := cells
  category := category
  flags := scope.config.propertyFlags exposed.attributes
  origin := .property 0

def binding : ClassBinding where
  name := ⟨"Game", "Rack"⟩
  nativeName := "Rack"
  type := 0
  base := some ⟨"Tether.Runtime", "NativeObject"⟩
  isAbstract := true
  members := [member]

theorem derivesFromRoot_type : scope.derivesFromRoot type.qualifiedName = true :=
  Scope.derivesFromRoot_of_base? (by decide)

/-- What is remembered after the type of the property was classified. -/
def asked : Memory :=
  (({} : Memory).withCategory .i32 {} (.ok (.scalar .i32))).withCategory cells
    { arrayDim := some 2147483648 } (.ok category)

/-- What the binding of the property is made from. -/
def declaration : MemberDeclaration where
  name := "Cells"
  type := cells
  attributes := exposed.attributes
  origin := .property 0
  source := none

theorem extractProperty_exposed : scope.extractProperty type exposed 0 {} =
    (⟨some member, []⟩, asked) := by
  have element : scope.classifyWith [] .i32 {} {} =
      (.ok (.scalar .i32), ({} : Memory).withCategory .i32 {} (.ok (.scalar .i32))) := by
    rw [Scope.classifyWith, Scope.classifyAnew]
    rfl
  have classified : scope.classify cells { arrayDim := some 2147483648 } {} =
      (.ok category, asked) := by
    have anew : scope.classifyAnew [] cells { arrayDim := some 2147483648 } {} = (.ok category,
        ({} : Memory).withCategory .i32 {} (.ok (.scalar .i32))) := by
      rw [Scope.classifyAnew]
      change (do
        return Scope.containerOf cells (.array · .i32 2147483648) (← scope.classifyWith [] .i32 {}) :
          Remembering _) {} = _
      simp only [bind, StateT.bind, element]
      rfl
    rw [Scope.classify, Scope.classifyWith]
    change (do
      let answer ← scope.classifyAnew [] cells { arrayDim := some 2147483648 }
      modify (·.withCategory cells { arrayDim := some 2147483648 } answer)
      return answer : Remembering _) {} = _
    simp only [bind, StateT.bind, anew]
    rfl
  have shaped : scope.classify cells.stripByRef
      (.ofAttribute (scope.config.findAnnotation? exposed.attributes Annotation.nativeProperty)) {} =
        (.ok category, asked) := classified
  have checked : scope.extractChecked type declaration {} = (⟨some member, []⟩, asked) := by
    simp only [Scope.extractChecked, Scope.extractMember, bind, StateT.bind, declaration, shaped]
    rfl
  rw [Scope.extractProperty, if_neg (by decide)]
  exact checked

theorem extractProperties_rack : (type.properties.zipIdx.mapM fun (property, place) =>
    scope.extractProperty type property place) {} = ([⟨some member, []⟩], asked) :=
  Scope.mapM_zipIdx_singleton rfl extractProperty_exposed

theorem extract_scope : scope.extract = ⟨[.ofClass binding], []⟩ := by
  have derived : scope.extractDerived 0 type {} = (⟨some binding, []⟩, asked) := by
    simp only [Scope.extractDerived, bind, StateT.bind, extractProperties_rack]
    rfl
  exact Scope.extract_eq_singleton rfl (Scope.examine_eq_ofClass (by decide) rfl (by decide)
    derivesFromRoot_type rfl derived)

def plan : TypePlan :=
  match binding.plan scope.config scope.module type scope.module.tables with
  | .ok ((plan, _), _) => plan
  | _ => {}

def tables : Tables where
  strings := ["Rack", "Cells"]
  members := [
    .staticField type.signature Naming.nativeClassPtr .intPtr,
    scope.config.layout .nativeType,
    .staticField type.signature "Cells_Offset" .i32,
    .staticField type.signature "Cells_NativeProperty" .intPtr,
    .staticField type.signature "Cells_ElementSize" .i32,
    .field type.signature "Cells_Wrapper" cells,
    scope.config.layout .propertyOffset,
    scope.config.layout .propertyHandle,
    scope.config.layout .arrayElementSize,
    scope.config.nativePtr,
    scope.config.checkLiveness,
    .instanceMethod cells ".ctor" [.intPtr, .intPtr, .i32, .i32] .void,
    .instanceMethod type.signature "get_Cells" [] cells]

/-- The class with a getter that makes an array of less than no elements. -/
def edited : TypeDef :=
  { type with
    fields := plan.fields
    methods := [
      { name := "get_Cells", result := cells
        body := some (Meter.body (Fragment.arrayGetter 10 5 3 9 2 4 11 (-2147483648))) },
      TypePlan.newInitializer [.constString 0, .call 1, .storeStatic 0, .loadStatic 0,
        .constString 1, .call 6, .storeStatic 2, .loadStatic 0, .constString 1, .call 7,
        .storeStatic 3, .loadStatic 0, .constString 1, .call 8, .storeStatic 4]] }

theorem plan_binding : binding.plan scope.config scope.module type scope.module.tables =
    .ok ((plan, []), tables) :=
  eq_ok_of_toOption (by decide +kernel)

theorem apply_plan : plan.apply type = .ok edited :=
  eq_ok_of_toOption (by decide +kernel)

theorem verify_edited : ∀ method ∈ edited.methods, method.verify tables = .ok () := by
  simp only [edited, List.forall_mem_cons]
  refine ⟨?_, ?_, List.forall_mem_nil _⟩ <;> cbv

theorem soleClass : scope.SoleClass type edited binding plan tables where
  fresh := rfl
  types := rfl
  extracted := extract_scope
  place := rfl
  name := rfl
  rootward base same := by
    cases same
    decide
  supported := rfl
  hashed := ⟨_, rfl⟩
  planned := plan_binding
  applied := apply_plan
  verified := TypePlan.verifyTouched_of_verify verify_edited

theorem ownsGetter_exposed : binding.OwnsGetter type 0 exposed 0 where
  reads := rfl
  plain method here := by
    cases here
    decide
  apart _ impossible := nomatch impossible
  alone other inside apart := by
    cases List.mem_singleton.mp inside
    exact absurd rfl apart

end Rack

/-- One element more than signed words can count is asked for, and less than none are made. -/
theorem Scope.exists_makesArray_of_weave_rack :
    ∃ result, Rack.scope.weave = .ok (.woven result) ∧ result.module.tables.Indexed ∧
      Rack.scope.extract.bindings.findClass? Rack.binding.name = some Rack.binding ∧
      Rack.scope.module.types[Rack.binding.type]? = some Rack.type ∧
      Rack.type.properties[0]? = some Rack.exposed ∧
      Rack.scope.config.isAnnotated Rack.exposed.attributes Annotation.nativeProperty = true ∧
      Rack.scope.isFixedArray Rack.exposed.type.stripByRef = true ∧
      Rack.binding.OwnsGetter Rack.type 0 Rack.exposed 0 ∧
      (Rack.dimension.named? Annotation.arrayDimArgument).bind (·.asInt?) = some 2147483648 ∧
      ∃ reader body element count, Rack.edited.ReadBy 0 reader ∧ reader.body = some body ∧
        body.MakesArray Rack.tables Rack.scope.config element count ∧
        ¬ (0 < count.toInt ∧ count.toInt = 2147483648) := by
  rcases Rack.soleClass.exists_woven with ⟨result, woven, types, tables⟩
  have indexed : result.module.tables.Indexed := by
    rw [tables, Tables.Indexed]
    decide
  have bound : Rack.scope.extract.bindings.findClass? Rack.binding.name = some Rack.binding := by
    rw [Rack.extract_scope]
    rfl
  have exposed : Rack.scope.config.isAnnotated Rack.exposed.attributes
      Annotation.nativeProperty = true := by decide
  have there : result.module.types[Rack.binding.type]? = some Rack.edited := by
    rw [types]
    rfl
  rcases exists_makesArray_of_weave Rack.scope result woven indexed Rack.binding bound Rack.type rfl
      0 Rack.exposed rfl exposed rfl 0 Rack.ownsGetter_exposed with
    ⟨attr, value, base, element, count, found, named, positive, small, shaped,
      ⟨now, reader, body, same, read, bodied, makes⟩, exact⟩
  cases there.symm.trans same
  cases found
  have asked : (Rack.dimension.named? Annotation.arrayDimArgument).bind (·.asInt?) =
      some 2147483648 := rfl
  cases asked.symm.trans named
  rw [tables] at makes
  refine ⟨result, woven, indexed, bound, rfl, rfl, exposed, rfl, Rack.ownsGetter_exposed, asked,
    reader, body, element, count, read, bodied, makes, fun keeps => ?_⟩
  exact absurd (exact.mp keeps) (by decide +kernel)

end NativeWeave
