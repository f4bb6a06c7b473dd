import NativeWeave.Proofs.Extraction.Complete
import NativeWeave.Proofs.Extraction.Answers
import NativeWeave.Proofs.Machine.Content

namespace NativeWeave

/-!
# Code that marshals structs

A struct that is marshalled gets two methods, which go through its members in order.  For each of them
there is code that reads it and code that writes it.  A woven module finds just these methods under
their names, for a struct that has such methods already is not bound.
-/

/-! ## Plans that add methods only -/

namespace TypePlan

/-- The plan adds these methods, and leaves those that there are as they are. -/
structure AddsOnly (plan : TypePlan) (methods : List Method) : Prop where
  methods : plan.methods = methods
  bodies : plan.bodies = []
  renames : plan.renames = []
  removed : plan.removedMethods = []

variable {plan first second : TypePlan} {methods others : List Method} {type now : TypeDef}

theorem AddsOnly.append (front : first.AddsOnly methods) (back : second.AddsOnly others) :
    (first ++ second).AddsOnly (methods ++ others) where
  methods := congrArg₂ (· ++ ·) front.methods back.methods
  bodies := congrArg₂ (· ++ ·) front.bodies back.bodies
  renames := congrArg₂ (· ++ ·) front.renames back.renames
  removed := congrArg₂ (· ++ ·) front.removed back.removed

theorem addsOnly_concat {plans : List TypePlan} (each : ∀ plan ∈ plans, plan.AddsOnly []) :
    (concat plans).AddsOnly [] := by
  induction plans with
  | nil => exact ⟨rfl, rfl, rfl, rfl⟩
  | cons plan more ih =>
    rw [List.forall_mem_cons] at each
    exact each.1.append (ih each.2)

/-- A search does not find what it did not find before and does not look for. -/
theorem find?_set_of_false {items : List Method} {chosen : Method → Bool} {index : Nat}
    {method : Method} (old : ∀ method ∈ items[index]?, chosen method = false)
    (new : chosen method = false) : (items.set index method).find? chosen = items.find? chosen := by
  induction items generalizing index with
  | nil => rfl
  | cons item more ih =>
    cases index with
    | zero =>
      have first : chosen item = false := old item rfl
      rw [List.set_cons_zero, List.find?_cons, List.find?_cons, new, first]
    | succ index =>
      rw [List.set_cons_succ, List.find?_cons, List.find?_cons, ih old]

/-- A search for methods of instances does not see the initializer. -/
theorem find?_of_installPrelude {prelude : Fragment} {chosen : Method → Bool}
    (instances : ∀ method : Method, method.isStatic = true → chosen method = false)
    (installed : installPrelude prelude type = .ok now) :
    now.methods.find? chosen = type.methods.find? chosen := by
  cases installs_of_installPrelude installed with
  | idle => rfl
  | added =>
    have hidden : [newInitializer prelude].find? chosen = none := by
      rw [List.find?_singleton, instances _ (isStatic_newInitializer prelude)]
      rfl
    change (type.methods ++ _).find? chosen = _
    rw [List.find?_append, hidden, Option.or_none]
  | extended _ place initializes =>
    rw [Method.isTypeInitializer, Bool.and_eq_true] at initializes
    refine find?_set_of_false (fun method here => ?_) (instances _ initializes.2)
    cases place.symm.trans here
    exact instances _ initializes.2

/-- Methods of instances are those of the type and those that are added. -/
theorem AddsOnly.find?_of_apply (adds : plan.AddsOnly methods) (applied : plan.apply type = .ok now)
    {chosen : Method → Bool}
    (instances : ∀ method : Method, method.isStatic = true → chosen method = false) :
    now.methods.find? chosen = (type.methods.find? chosen).or (methods.find? chosen) := by
  rcases exists_stages_of_apply applied with
    ⟨bodied, initialized, rest, ⟨bodies, installed, removed⟩, rfl⟩
  rw [adds.bodies] at bodies
  rw [adds.renames, adds.methods] at installed
  rw [adds.removed] at removed
  cases bodies
  rw [applyRemovals, List.eraseDups_nil, List.mergeSort_nil] at removed
  cases removed
  rw [← List.find?_append]
  exact find?_of_installPrelude instances installed

end TypePlan

namespace Method

variable {method : Method} {name : String}

theorem isMarshaller_eq_false
    (other : method.name = name → method.isStatic = false → method.parameterTypes ≠ [.intPtr]) :
    method.isMarshaller name = false := by
  refine decide_eq_false fun ⟨named, same⟩ => ?_
  have instanced : (!method.isStatic) = true := congrArg MethodSignature.hasThis same
  rw [Bool.not_eq_true'] at instanced
  exact other named instanced (congrArg MethodSignature.parameters same)

theorem isMarshaller_eq_true (named : method.name = name) (instanced : method.isStatic = false)
    (parameters : method.parameterTypes = [.intPtr]) (result : method.result = .void) :
    method.isMarshaller name = true := by
  refine decide_eq_true ⟨named, ?_⟩
  rw [signature, instanced, parameters, result]
  rfl

theorem isMarshaller_of_isStatic (static : method.isStatic = true) :
    method.isMarshaller name = false := by
  refine isMarshaller_eq_false fun _ instanced => ?_
  rw [static] at instanced
  cases instanced

end Method

/-! ## Code for members -/

/-- The place of a member, whose struct begins where the first parameter says. -/
abbrev MemberSlots.place (slots : MemberSlots) : NativeAddress :=
  ⟨.argument 1, some slots.offset⟩

/-- The code pushes the value of a member from its place: a plain value is read, and a struct is
constructed. -/
structure Fragment.Pushes (fragment : Fragment) (tables : Tables) (config : Config)
    (member : MemberBinding) (slots : MemberSlots) : Prop where
  plain : member.category.isPlain = true → tables.Addressable → ∀ machine : Machine,
    machine.tables = tables → ∀ frame state start width,
      machine.Locates frame state slots.place start →
        (∀ token ∈ slots.width, machine.HoldsStatic state token (.integer width)) →
          fragment.Reads machine config frame state (member.form machine width) start
  struct : ∀ nativeName owner, member.category = .struct .generic nativeName owner →
    ∃ token, fragment = slots.place.push ++ [.newObject token] ∧ tables.member? token =
      some (.instanceMethod (.named owner) Method.constructorName [.intPtr] .void)

/-- The code writes the value of a member from a field of the receiver to its place: a plain value is
written, and a struct writes itself. -/
structure Fragment.Stores (fragment : Fragment) (tables : Tables) (config : Config)
    (member : MemberBinding) (slots : MemberSlots) (field : UInt32) : Prop where
  plain : member.category.isPlain = true → tables.Addressable → ∀ machine : Machine,
    machine.tables = tables → ∀ frame state start width value,
      machine.Locates frame state slots.place start →
        (∀ token ∈ slots.width, machine.HoldsStatic state token (.integer width)) →
          (member.category.needsWidth = true → machine.MarshalsTruths config width) →
            machine.Finds frame state (.thisField field) value →
              (member.form machine width).Holds value →
                fragment.Writes machine config frame state (member.form machine width) start value
  struct : ∀ nativeName owner, member.category = .struct .generic nativeName owner →
    ∃ token, fragment = [.loadArg 0, .loadFieldAddress field] ++ slots.place.push ++ [.call token] ∧
      tables.member? token =
        some (.instanceMethod (.named owner) Naming.toNative [.intPtr] .void)

/-- The code for a member reads it into its field and writes it from there. -/
def FieldCode.Means (code : FieldCode) (tables : Tables) (config : Config) (binding : StructBinding)
    (member : MemberBinding) : Prop :=
  ∃ slots token value,
    slots.Names tables (.named binding.name) member.name member.category ∧
    tables.member? token = some (binding.field member) ∧
    code.read = Fragment.concat [[.loadArg 0], value, [.storeField token]] ∧
    value.Pushes tables config member slots ∧ code.write.Stores tables config member slots token

/-- The member exposes a field of the type, and has its name and its type. -/
def MemberBinding.Mirrors (member : MemberBinding) (type : TypeDef) : Prop :=
  ∃ index field, member.origin = .field index ∧ type.fields[index]? = some field ∧
    field.name = member.name ∧ field.type = member.type

open Emit TypePlan

namespace Category

variable {config : Config} {type : Signature} {slots : MemberSlots} {address : NativeAddress}
  {source : ValueSource} {nativeName : String} {owner : QualifiedName}

theorem isArray_of_isPlain {category : Category} (plain : category.isPlain = true) :
    category.isArray = false := by
  cases category <;> first | rfl | cases plain

theorem leaves_constructing : ((struct .generic nativeName owner).fromNative config type slots
    address).Leaves fun tables fragment => ∃ token,
      fragment = address.push ++ [.newObject token] ∧ tables.member? token =
        some (.instanceMethod type Method.constructorName [.intPtr] .void) := by
  unfold fromNative newObject
  simp only [bind_assoc, pure_bind]
  exact .bind (leaves_member _) fun token => .pure fun tables means => ⟨token, rfl, means⟩

theorem leaves_delegating : ((struct .generic nativeName owner).toNative config type slots address
    source).Leaves fun tables fragment => ∃ token,
      fragment = source.pushAddress ++ address.push ++ [.call token] ∧ tables.member? token =
        some (.instanceMethod type Naming.toNative [.intPtr] .void) := by
  unfold toNative
  refine .bind (leaves_callOf _) fun call => .pure fun tables called => ?_
  rcases called with ⟨token, rfl, means⟩
  exact ⟨token, rfl, means⟩

end Category

namespace StructBinding

variable {scope : Scope} {config : Config} {type : TypeDef} {binding : StructBinding}
  {member : MemberBinding} {slots : MemberSlots}

theorem leaves_pushing (explained : member.Explained scope) :
    (member.category.fromNative config member.valueType slots slots.place).Leaves
      fun tables fragment => fragment.Pushes tables config member slots := by
  intro before after fragment run tables grows indexed
  refine ⟨fun plain => leaves_reading plain _ _ _ run tables grows indexed, ?_⟩
  intro nativeName owner generic
  rw [MemberBinding.Explained, generic] at explained
  rw [generic, explained.1] at run
  exact Category.leaves_constructing _ _ _ run tables grows indexed

theorem leaves_storing (explained : member.Explained scope) {field : UInt32} :
    (member.category.toNative config member.valueType slots slots.place (.thisField field)).Leaves
      fun tables fragment => fragment.Stores tables config member slots field := by
  intro before after fragment run tables grows indexed
  refine ⟨fun plain => leaves_writing plain _ _ _ run tables grows indexed, ?_⟩
  intro nativeName owner generic
  rw [MemberBinding.Explained, generic] at explained
  rw [generic, explained.1] at run
  exact Category.leaves_delegating _ _ _ run tables grows indexed

/-- There is nothing to say about code that writes fixed arrays. -/
theorem stores_of_isArray (array : member.category.isArray = true) {tables : Tables}
    {fragment : Fragment} {field : UInt32} : fragment.Stores tables config member slots field := by
  constructor
  · intro plain
    rw [Category.isArray_of_isPlain plain] at array
    cases array
  · intro nativeName owner generic
    rw [generic] at array
    cases array

/-- The code for a field of the type means what it is meant to. -/
theorem leaves_fieldCode (named : type.qualifiedName = binding.name) (mirrors : member.Mirrors type)
    (explained : member.Explained scope) (classPtr : UInt32) :
    (fieldCode config type classPtr member).Leaves fun tables code =>
      code.Means tables config binding member := by
  have owner : type.signature = .named binding.name := congrArg Signature.named named
  have exposed : (liftM (exposedField type member) : Emit Field).Leaves fun _ field =>
      field.name = member.name ∧ field.type = member.type := by
    rcases mirrors with ⟨index, field, origin, here, same⟩
    refine .lift fun found _ => ?_
    rw [exposedField, origin] at found
    cases here.symm.trans (Weave.ofOption_eq_ok found)
    exact same
  unfold fieldCode
  rw [owner]
  refine .bind exposed fun field => .bind (ClassSite.leaves_memberSlots _ _ _) fun slots => ?_
  refine .after fun fill => .bind (leaves_member _) fun token => ?_
  refine .bind (leaves_pushing explained) fun value => ?_
  dsimp only
  split
  · next array =>
    refine .after fun write => .pure fun tables pushes means names same => ?_
    rw [same.1, same.2] at means
    exact ⟨slots.value, token, value, names, means, rfl, pushes, stores_of_isArray array⟩
  · refine .bind (leaves_storing explained) fun write => ?_
    refine .pure fun tables stores pushes means names same => ?_
    rw [same.1, same.2] at means
    exact ⟨slots.value, token, value, names, means, rfl, pushes, stores⟩

/-! ## Methods -/

theorem yieldsAddsOnly_staticSlot {owner kind : Signature} {name : String} :
    (staticSlot owner name kind).Yields (·.plan.AddsOnly []) := by
  unfold staticSlot
  exact .after fun token => .pure ⟨rfl, rfl, rfl, rfl⟩

theorem yieldsAddsOnly_optionalSlot {wanted : Bool} {owner kind : Signature} {name : String} :
    (optionalSlot wanted owner name kind).Yields (·.plan.AddsOnly []) := by
  unfold optionalSlot
  split
  · exact .bind yieldsAddsOnly_staticSlot fun slot adds => .pure adds
  · exact .pure ⟨rfl, rfl, rfl, rfl⟩

theorem yieldsAddsOnly_fieldCode (classPtr : UInt32) (member : MemberBinding) :
    (fieldCode config type classPtr member).Yields (·.plan.AddsOnly []) := by
  have slotted : (memberSlots type.signature member.name member.category).Yields
      (·.plan.AddsOnly []) := by
    unfold memberSlots
    refine .bind yieldsAddsOnly_staticSlot fun offset first => ?_
    refine .bind yieldsAddsOnly_optionalSlot fun handle second => ?_
    refine .bind yieldsAddsOnly_optionalSlot fun elementSize third => ?_
    refine .bind yieldsAddsOnly_optionalSlot fun width fourth => ?_
    exact .pure (((first.append second).append third).append fourth)
  unfold fieldCode
  refine .after fun field => .bind slotted fun slots adds => ?_
  refine .after fun fill => .after fun token => .after fun value => ?_
  have filled : (slots.plan ++ ({ prelude := fill } : TypePlan)).AddsOnly [] :=
    adds.append ⟨rfl, rfl, rfl, rfl⟩
  dsimp only
  split
  · exact .after fun write => .pure filled
  · exact .after fun write => .pure filled

/-- The body that goes through code for members and returns. -/
def marshalBody (fragments : List Fragment) : Body :=
  ({ instrs := Fragment.concat (fragments ++ [[.ret]]) } : Code).toBody []

/-- The constructor that reads a struct from native memory. -/
def reader (codes : List FieldCode) : Method where
  name := Method.constructorName
  flags := Method.specialNameFlag
  parameters := [{ name := "buffer", type := .intPtr }]
  body := some (marshalBody (codes.map (·.read)))

/-- The method that writes a struct there. -/
def writer (codes : List FieldCode) : Method where
  name := Naming.toNative
  parameters := [{ name := "buffer", type := .intPtr }]
  body := some (marshalBody (codes.map (·.write)))

theorem find?_reader (codes : List FieldCode) :
    [reader codes, writer codes].find? (·.isMarshaller Method.constructorName) =
      some (reader codes) := by
  have instanced : (reader codes).isStatic = false := by
    change hasFlag Method.specialNameFlag Method.staticFlag = false
    decide
  have first : (reader codes).isMarshaller Method.constructorName = true :=
    Method.isMarshaller_eq_true rfl instanced rfl rfl
  rw [List.find?_cons, first]

theorem find?_writer (codes : List FieldCode) :
    [reader codes, writer codes].find? (·.isMarshaller Naming.toNative) = some (writer codes) := by
  have apart : Method.constructorName ≠ Naming.toNative := by decide
  have first : (reader codes).isMarshaller Naming.toNative = false :=
    Method.isMarshaller_eq_false fun name _ _ => apart name
  have instanced : (writer codes).isStatic = false := by
    change hasFlag 0 Method.staticFlag = false
    decide
  have second : (writer codes).isMarshaller Naming.toNative = true :=
    Method.isMarshaller_eq_true rfl instanced rfl rfl
  rw [List.find?_cons, first, List.find?_cons, second]

/-- Slots, the code for them and code for the members make a plan that adds two methods. -/
theorem addsOnly_marshalling {slot size : TypePlan} {prelude : Fragment} {codes : List FieldCode}
    (first : slot.AddsOnly []) (second : size.AddsOnly [])
    (each : ∀ code ∈ codes, code.plan.AddsOnly []) :
    (slot ++ size ++ ({ prelude } : TypePlan) ++ TypePlan.concat (codes.map (·.plan))
      ++ addMethod (reader codes) ++ addMethod (writer codes)
      ++ ({ touched := [Method.initializerName] } : TypePlan)).AddsOnly
        [reader codes, writer codes] := by
  have found : ({ prelude } : TypePlan).AddsOnly [] := ⟨rfl, rfl, rfl, rfl⟩
  have members := addsOnly_concat (List.forall_mem_map.mpr each)
  have start := ((first.append second).append found).append members
  have reading : (addMethod (reader codes)).AddsOnly [reader codes] := ⟨rfl, rfl, rfl, rfl⟩
  have writing : (addMethod (writer codes)).AddsOnly [writer codes] := ⟨rfl, rfl, rfl, rfl⟩
  have touching : ({ touched := [Method.initializerName] } : TypePlan).AddsOnly [] :=
    ⟨rfl, rfl, rfl, rfl⟩
  exact ((start.append reading).append writing).append touching

/-- A plan for a struct takes no method out. -/
theorem yieldsKept_plan? (binding : StructBinding) : (binding.plan? config type).Yields fun plan? =>
    ∀ plan ∈ plan?, plan.removedMethods = [] := by
  have marshals : (binding.marshalPlan config type).Yields (·.removedMethods = []) := by
    unfold marshalPlan
    refine .bind yieldsAddsOnly_staticSlot fun classPtr first => ?_
    refine .bind yieldsAddsOnly_staticSlot fun size second => ?_
    refine .after fun findType => .after fun findSize => ?_
    refine .bind (.mapM fun member _ => yieldsAddsOnly_fieldCode classPtr.value member)
      fun codes each => .pure ?_
    exact (addsOnly_marshalling first second each).removed
  unfold plan?
  split
  · refine .pure fun plan same => ?_
    cases same
    rfl
  · split
    · exact .pure fun plan impossible => nomatch impossible
    · refine .bind marshals fun found kept => .pure fun plan same => ?_
      cases same
      exact kept

/-- What is planned for a struct adds two methods that are made of code for its members. -/
theorem leaves_marshalPlan (named : type.qualifiedName = binding.name)
    (mirrors : ∀ member ∈ binding.members, member.Mirrors type)
    (explained : ∀ member ∈ binding.members, member.Explained scope) :
    (binding.marshalPlan config type).Leaves fun tables plan => ∃ codes : List FieldCode,
      List.Forall₂ (fun member code => code.Means tables config binding member) binding.members
        codes ∧ plan.AddsOnly [reader codes, writer codes] := by
  have slot : ∀ name kind, (staticSlot type.signature name kind).Leaves fun _ slot =>
      slot.plan.AddsOnly [] := fun _ _ => .ofYields fun _ => yieldsAddsOnly_staticSlot
  have codes : ∀ classPtr, (binding.members.mapM (fieldCode config type classPtr)).Leaves
      fun tables codes => List.Forall₂ (fun member code => code.Means tables config binding member)
        binding.members codes ∧ ∀ code ∈ codes, code.plan.AddsOnly [] := by
    intro classPtr
    refine .and (.forall₂ fun member listed =>
      leaves_fieldCode named (mirrors member listed) (explained member listed) classPtr) ?_
    exact .ofYields fun _ => .mapM fun member _ => yieldsAddsOnly_fieldCode classPtr member
  unfold marshalPlan
  refine .bind (slot _ _) fun classPtr => .bind (slot _ _) fun size => ?_
  refine .after fun findType => .after fun findSize => .bind (codes classPtr.value) fun codes => ?_
  refine .pure fun tables each second first => ⟨codes, each.1, ?_⟩
  exact addsOnly_marshalling first second each.2

end StructBinding

/-- The methods of a struct that marshal it are made of code for its members. -/
def Module.Marshals (module : Module) (config : Config) (binding : StructBinding) : Prop :=
  ∃ codes : List FieldCode,
    List.Forall₂ (fun member code => code.Means module.tables config binding member)
      binding.members codes ∧
    module.structCode? binding Method.constructorName =
      some (StructBinding.marshalBody (codes.map (·.read))) ∧
    module.structCode? binding Naming.toNative =
      some (StructBinding.marshalBody (codes.map (·.write)))

namespace Scope

variable {scope : Scope} {result : WovenModule} {binding : StructBinding}

/-- Members of a struct mirror its fields. -/
theorem mirrors_of_complete {type : TypeDef}
    (complete : TypeBinding.Complete scope type (.ofStruct binding)) :
    ∀ member ∈ binding.members, member.Mirrors type := by
  intro member listed
  rcases (exists_of_mem_forall₂ complete.2.2.1).2 member listed with
    ⟨⟨field, index⟩, inside, _, category, hashOverride, source, rfl⟩
  have here := List.mk_mem_zipIdx_iff_getElem?.mp (List.mem_filter.mp inside).1
  exact ⟨index, field, rfl, here, rfl, rfl⟩

/-- In a woven module there are such methods for every struct that is marshalled. -/
theorem marshals_of_weave (woven : scope.weave = .ok (.woven result))
    (indexed : result.module.tables.Indexed)
    (marshalled : binding.IsMarshalled scope.config scope.extract.bindings) :
    result.module.Marshals scope.config binding := by
  have listed := marshalled.picked.mem
  rcases scope.exists_declares_of_mem_extract _ listed with ⟨_, type, present, rfl, name⟩
  rcases (types_of_weave woven).2.2.2 marshalled.picked (.inr marshalled.ordinary) present with
    ⟨now, there, plan, after, plans, within, applied⟩
  rcases lawful_of_mem_extract listed present with ⟨lawful, complete⟩
  cases plans with
  | ofStruct grown made =>
    unfold StructBinding.plan? at made
    rw [marshalled.generic, marshalled.ordinary] at made
    rcases exists_of_bind made with ⟨planned, middle, run, final⟩
    cases final
    have explained := explained_of_mem_extract listed
    rcases StructBinding.leaves_marshalPlan name.symm (mirrors_of_complete complete) explained _ _ _
        run _ within indexed with ⟨codes, each, adds⟩
    have found : ∀ name, (∀ method ∈ type.methods, method.isMarshaller name = false) →
        result.module.structCode? binding name = ([StructBinding.reader codes,
          StructBinding.writer codes].find? (·.isMarshaller name)).bind (·.body) := by
      intro name missing
      have searched := adds.find?_of_apply applied
        fun method static => @Method.isMarshaller_of_isStatic method name static
      rw [List.find?_eq_none.mpr fun method own => ne_true_of_eq_false (missing method own),
        Option.none_or] at searched
      change result.module.types[binding.type]? = _ at there
      rw [Module.structCode?, there, ← searched]
      rfl
    have free := lawful.marshals marshalled.generic
    have reading := found Method.constructorName fun method own => by
      refine Method.isMarshaller_eq_false fun name instanced parameters => ?_
      refine (free method own).2 ?_ parameters
      rw [Method.isConstructor, name, instanced]
      rfl
    have writing := found Naming.toNative fun method own =>
      Method.isMarshaller_eq_false fun name _ _ => (free method own).1 name
    rw [StructBinding.find?_reader] at reading
    rw [StructBinding.find?_writer] at writing
    exact ⟨codes, each, reading, writing⟩

end Scope

end NativeWeave
