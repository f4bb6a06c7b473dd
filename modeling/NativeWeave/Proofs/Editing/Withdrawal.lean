import NativeWeave.Proofs.Editing.Constructors
import NativeWeave.Proofs.Editing.Elimination
import NativeWeave.Proofs.Editing.Owners
import NativeWeave.Proofs.Editing.Renaming
import NativeWeave.Proofs.SoleClass

namespace NativeWeave

/-!
# Fields that woven classes do without

The value of an exposed property moves to the native side, and the field in which it was kept goes
away.  The methods of the class go on as they were, with calls of the accessors in place of loads and
stores; where no accessor can take the place of an instruction, the module is refused.  The field is
looked up by its name alone, while its uses are looked up as those of a field of objects.  So all this
holds of classes in which no static field has the name of such a field.
-/

/-- The fields in which exposed properties keep their values are fields of objects. -/
def ClassBinding.KeepsInObjects (binding : ClassBinding) (type : TypeDef) : Prop :=
  ∀ member ∈ binding.members, ∀ property, type.Exposes member property →
    ∀ field ∈ type.fields, field.name = Naming.backingField member.name → field.isStatic = false

/-- No accessor can take the place of the instruction: it takes the address of a hidden field, or it
stores to that of properties which are not set as a whole any more. -/
inductive ClassBinding.Strands (binding : ClassBinding) (source : Tables) (type : TypeDef) :
    Instr → Prop
  | address {token : UInt32} (hidden : binding.Hides source type token) :
      Strands binding source type (.loadFieldAddress token)
  | store {token : UInt32} (hidden : binding.Hides source type token)
      (suppressed : ∀ member ∈ binding.members, ∀ property, type.Exposes member property →
        type.IsHiddenField source member.name token → member.category.suppressesSetter = true) :
      Strands binding source type (.storeField token)

namespace ClassBinding

variable {binding : ClassBinding} {source tables : Tables} {type : TypeDef} {instr other : Instr}

/-- A stranded instruction cannot be redirected. -/
theorem Redirects.not_strands (redirects : binding.Redirects source tables type instr other) :
    ¬ binding.Strands source type instr := by
  intro strands
  cases strands with
  | @address token hidden =>
    cases redirects with
    | other spares => exact spares token rfl hidden
  | @store token hidden suppressed =>
    cases redirects with
    | store listed exposes own means given =>
      have none := means.suppressed (suppressed _ listed _ exposes own)
      cases none.symm.trans given
    | other spares => exact spares token rfl hidden

end ClassBinding

namespace ClassBinding.Planning

variable {config : Config} {source : Module} {type now : TypeDef} {binding : ClassBinding}
  {before after tables : Tables}

/-- Where a class is planned without mistakes, every instruction can be redirected, in its
constructors as well. -/
theorem redirects (planning : binding.Planning config source type before after)
    (serves : planning.backing.Serves source.tables tables type binding)
    (clean : Diagnostic.hasErrors planning.diagnostics = false) {index : Nat} {method : Method}
    (here : type.methods[index]? = some method) (accessor : ¬ binding.IsAccessor type index)
    {body : Body} (bodied : method.body = some body) {code : Code} (read : body.toCode = .ok code) :
    ∀ instr ∈ code.instrs, ∃ other, binding.Redirects source.tables tables type instr other := by
  have kept : (∀ instr ∈ code.instrs, planning.backing.touched? instr = none) →
      ∀ instr ∈ code.instrs, ∃ other, binding.Redirects source.tables tables type instr other :=
    fun untouched instr member => ⟨instr, .other fun token uses =>
      serves.knows.not_of_touched? (untouched instr member) uses⟩
  cases constructs : method.isConstructor with
  | true =>
    rcases planning.constructor clean here constructs accessor with
      ⟨_, _, part, _, _, own, fine, _⟩
    rcases ClassSite.constructed_of_planConstructor own fine bodied with
      ⟨_, _, again, _, ⟨_, _, untouched⟩ | ⟨_, _, _, _, _, _, _, _, edits⟩⟩
    · cases read.symm.trans again
      exact kept untouched
    · cases read.symm.trans again
      exact fun instr member => ⟨_, serves.redirects (edits.redirected instr member)⟩
  | false =>
    rcases planning.method clean here constructs accessor with ⟨part, planned, fine, _⟩
    rcases Backing.redirected_of_methodPlan planned fine with
      ⟨_, untouched⟩ | ⟨_, _, found, again, _, redirected⟩
    · exact kept (untouched body bodied code read)
    · cases bodied.symm.trans found
      cases read.symm.trans again
      exact fun instr member => ⟨_, serves.redirects (redirected instr member)⟩

end ClassBinding.Planning

namespace Scope

variable {scope : Scope} {result : WovenModule} {binding : ClassBinding} {type : TypeDef}

/-- In a woven module a token means a hidden field only if it meant it before. -/
theorem hides_of_weave (woven : scope.weave = .ok (.woven result))
    (bound : scope.extract.bindings.findClass? binding.name = some binding)
    (present : scope.module.types[binding.type]? = some type) {token : UInt32}
    (hides : binding.Hides result.module.tables type token) :
    binding.Hides scope.module.tables type token := by
  rcases hides with ⟨member, listed, property, exposes, kind, found⟩
  have declared := (Bindings.ofClass_mem_of_findClass? bound).1
  have named : type.qualifiedName = binding.name := qualifiedName_of_mem_extract declared present
  have owned : type.signature.typeName? = some binding.name := congrArg some named
  exact ⟨member, listed, property, exposes, kind, member?_of_weave woven bound owned found⟩

/-- What becomes of a class with exposed properties when its module is woven. -/
structure Withdraws (scope : Scope) (woven : Module) (binding : ClassBinding) (type now : TypeDef) :
    Prop where
  /-- A method that is no constructor and no accessor has its loads and stores of hidden fields
  exchanged for calls.  In front of that, the initializer of the class fills the slots. -/
  methods : ∃ prelude : Fragment, prelude.Populates scope.config woven.tables type ∧
    ∀ index method, type.methods[index]? = some method → method.isConstructor = false →
      ¬ binding.IsAccessor type index →
        (¬ binding.Initializes type index →
          binding.Keeps scope.module.tables woven.tables type now [] index method) ∧
        (binding.Initializes type index →
          binding.Keeps scope.module.tables woven.tables type now prelude index method)
  /-- A field that is gone was one of objects, and nothing in the class uses it any more. -/
  fields : ∀ field ∈ type.fields, field.name ∉ now.fieldNames → field.isStatic = false ∧
    ∀ token kind, woven.tables.member? token = some (.field type.signature field.name kind) →
      ∀ method ∈ now.methods, ∀ body ∈ method.body, body.Spares (· = token)

/-- The hidden fields of the exposed properties of a class are given up, and what the methods do with
them is done by the accessors. -/
theorem withdraws_of_weave (woven : scope.weave = .ok (.woven result))
    (indexed : result.module.tables.Indexed)
    (bound : scope.extract.bindings.findClass? binding.name = some binding)
    (present : scope.module.types[binding.type]? = some type) (objects : binding.KeepsInObjects type) :
    ∃ now, result.module.types[binding.type]? = some now ∧
      scope.Withdraws result.module binding type now := by
  rcases exists_planning_of_weave woven indexed bound present with
    ⟨before, after, now, planning, there, applied, within, clean, serves, adds⟩
  have declared := (Bindings.ofClass_mem_of_findClass? bound).1
  have checked := checked_of_mem_extract declared present
  have knows : planning.backing.Knows (binding.Hides result.module.tables type) :=
    fun token hides => serves.knows token (hides_of_weave woven bound present hides)
  have prelude := (planning.spares within indexed knows clean).prelude
  have straight : ∀ instr ∈ planning.plan.prelude, instr.target? = none :=
    fun instr member => (prelude instr member).leadsNowhere
  have renames : planning.plan.renames = binding.functions.map fun function =>
      (function.method, Naming.implementation function.name) := by
    rw [adds.renames, ClassBinding.additions_renames]
  refine ⟨now, there, ⟨planning.plan.prelude, prelude, fun index method here other accessor => ?_⟩,
    fun field member gone => ?_⟩
  · exact planning.keeps serves clean checked renames straight applied here other accessor
  · have removed : field.name ∈ (binding.additions scope.config type).removed := by
      rw [adds.fieldNames_of_apply applied] at gone
      by_contra kept
      refine gone (List.mem_filter.mpr ⟨?_, by simpa using kept⟩)
      exact List.mem_append_left _ (List.mem_map_of_mem member)
    rcases ClassBinding.exists_of_mem_removed removed with
      ⟨exposed, listed, property, exposes, named⟩
    refine ⟨objects exposed listed property exposes field member named, ?_⟩
    intro token kind means method inside body bodied code read instr listedInstr other uses same
    subst same
    have spared := planning.spared within indexed knows clean applied method inside body bodied
    exact spared code read instr listedInstr other uses
      ⟨exposed, listed, property, exposes, kind, named ▸ means⟩

/-- A module with a class that has an instruction for which no accessor can stand in is refused, unless
weaving fails. -/
theorem rejected_of_strands (fresh : scope.module.isWoven = false)
    (indexed : ∀ result, scope.weave = .ok (.woven result) → result.module.tables.Indexed)
    (bound : scope.extract.bindings.findClass? binding.name = some binding)
    (present : scope.module.types[binding.type]? = some type) {index : Nat} {method : Method}
    (here : type.methods[index]? = some method) (accessor : ¬ binding.IsAccessor type index)
    {body : Body} (bodied : method.body = some body) {code : Code} (read : body.toCode = .ok code)
    {instr : Instr} (member : instr ∈ code.instrs)
    (strands : binding.Strands scope.module.tables type instr) {outcome : WeaveOutcome}
    (weaves : scope.weave = .ok outcome) : ∃ diagnostics, outcome = .rejected diagnostics := by
  cases outcome with
  | rejected diagnostics => exact ⟨diagnostics, rfl⟩
  | woven result =>
    rcases exists_planning_of_weave weaves (indexed result weaves) bound present with
      ⟨_, _, _, planning, _, _, _, clean, serves, _⟩
    rcases planning.redirects serves clean here accessor bodied read instr member with
      ⟨other, redirects⟩
    exact absurd strands redirects.not_strands
  | noBindings =>
    have declared := (Bindings.ofClass_mem_of_findClass? bound).1
    unfold weave at weaves
    rw [if_neg (by rw [fresh]; decide)] at weaves
    dsimp only at weaves
    split at weaves
    · cases weaves
    · split at weaves
      · next empty =>
        rw [List.isEmpty_iff] at empty
        rw [empty] at declared
        cases declared
      · rcases bind_eq_ok_iff.mp weaves with ⟨progress, _, final⟩
        dsimp only at final
        split at final
        · cases final
        · rcases bind_eq_ok_iff.mp final with ⟨report, _, final⟩
          cases final

/-- When a class that keeps its exposed properties in objects is woven, their hidden fields are given
up and its methods go on with the accessors; and a class with an instruction for which no accessor can
stand in is refused. -/
theorem weave_withdraws (scope : Scope) (binding : ClassBinding) (type : TypeDef)
    (fresh : scope.module.isWoven = false)
    (indexed : ∀ result, scope.weave = .ok (.woven result) → result.module.tables.Indexed)
    (bound : scope.extract.bindings.findClass? binding.name = some binding)
    (present : scope.module.types[binding.type]? = some type)
    (objects : binding.KeepsInObjects type) :
    (∀ result, scope.weave = .ok (.woven result) →
      ∃ now, result.module.types[binding.type]? = some now ∧
        scope.Withdraws result.module binding type now) ∧
    ∀ index method body code, type.methods[index]? = some method → ¬ binding.IsAccessor type index →
      method.body = some body → body.toCode = .ok code →
        (∃ instr ∈ code.instrs, binding.Strands scope.module.tables type instr) →
          ∀ outcome, scope.weave = .ok outcome → ∃ diagnostics, outcome = .rejected diagnostics := by
  refine ⟨fun result woven =>
    withdraws_of_weave woven (indexed result woven) bound present objects, ?_⟩
  rintro index method body code here accessor bodied read ⟨instr, member, strands⟩ outcome weaves
  exact rejected_of_strands fresh indexed bound present here accessor bodied read member strands
    weaves

end Scope

/-! ## A class with one property -/

namespace Meter

/-- The hidden field of the property, which is the first member that instructions refer to. -/
def level : MemberRef :=
  .field (.named ⟨"Game", "Meter"⟩) "<Level>k__BackingField" .i32

def body (instrs : Fragment) : Body :=
  ({ instrs } : Code).toBody []

def exposed : Property where
  name := "Level"
  type := .i32
  getter := some 0
  setter := some 1
  attributes := [{ type := ⟨"Tether.Attributes", "NativeProperty"⟩ }]

/-- A class with an exposed property, and with a method that stores to the hidden field of it. -/
def type : TypeDef where
  name := "Meter"
  namespaceName := "Game"
  flags := TypeDef.abstractFlag
  base := some (.named ⟨"Tether.Runtime", "NativeObject"⟩)
  attributes := [{ type := ⟨"Tether.Attributes", "NativeClass"⟩ }]
  fields := [{ name := "<Level>k__BackingField", type := .i32 }]
  properties := [exposed]
  methods := [
    { name := "get_Level", result := .i32, body := some (body [.loadArg 0, .loadField 0, .ret]) },
    { name := "set_Level", parameters := [{ name := "value", type := .i32 }]
      body := some (body [.loadArg 0, .loadArg 1, .storeField 0, .ret]) },
    { name := "Drain", body := some (body [.loadArg 0, .constI32 0, .storeField 0, .ret]) }]

def scope : Scope where
  context := { modules := [{ Module.empty "Runtime" with types := [
    { name := "NativeObject", namespaceName := "Tether.Runtime" },
    { name := "NativeLayout", namespaceName := "Tether.Runtime" }] }] }
  module := { Module.empty "Game" with types := [type], tables := { members := [level] } }

def member : MemberBinding where
  name := "Level"
  nativeName := "Level"
  type := .i32
  category := .scalar .i32
  flags := scope.config.propertyFlags exposed.attributes
  origin := .property 0

def binding : ClassBinding where
  name := ⟨"Game", "Meter"⟩
  nativeName := "Meter"
  type := 0
  base := some ⟨"Tether.Runtime", "NativeObject"⟩
  isAbstract := true
  members := [member]

/-! ### Its binding -/

theorem derivesFromRoot_type : scope.derivesFromRoot type.qualifiedName = true :=
  Scope.derivesFromRoot_of_base? (by decide)

/-- What is remembered after the type of the property was classified. -/
def asked : Memory :=
  ({} : Memory).withCategory .i32 {} (.ok (.scalar .i32))

/-- What the binding of the property is made from. -/
def declaration : MemberDeclaration where
  name := "Level"
  type := .i32
  attributes := exposed.attributes
  origin := .property 0
  source := none

theorem extractProperty_exposed : scope.extractProperty type exposed 0 {} =
    (⟨some member, []⟩, asked) := by
  have classified : scope.classify .i32 {} {} = (.ok (.scalar .i32), asked) := by
    rw [Scope.classify, Scope.classifyWith, Scope.classifyAnew]
    rfl
  have shaped : scope.classify Signature.i32.stripByRef
      (.ofAttribute (scope.config.findAnnotation? exposed.attributes Annotation.nativeProperty)) {} =
        (.ok (.scalar .i32), asked) := classified
  have checked : scope.extractChecked type declaration {} = (⟨some member, []⟩, asked) := by
    simp only [Scope.extractChecked, Scope.extractMember, bind, StateT.bind, declaration, shaped]
    rfl
  rw [Scope.extractProperty, if_neg (by decide)]
  exact checked

theorem extract_scope : scope.extract = ⟨[.ofClass binding], []⟩ := by
  have derived : scope.extractDerived 0 type {} = (⟨some binding, []⟩, asked) := by
    have properties : (type.properties.zipIdx.mapM fun (property, place) =>
        scope.extractProperty type property place) {} = ([⟨some member, []⟩], asked) :=
      Scope.mapM_zipIdx_singleton rfl extractProperty_exposed
    simp only [Scope.extractDerived, bind, StateT.bind, properties]
    rfl
  exact Scope.extract_eq_singleton rfl (Scope.examine_eq_ofClass (by decide) rfl (by decide)
    derivesFromRoot_type rfl derived)

/-! ### Its edit -/

/-- The plan of the class. -/
def plan : TypePlan :=
  match binding.plan scope.config scope.module type scope.module.tables with
  | .ok ((plan, _), _) => plan
  | _ => {}

/-- The tables with what the plan refers to. -/
def tables : Tables where
  strings := ["Meter", "Level"]
  members := [
    level,
    .staticField type.signature Naming.nativeClassPtr .intPtr,
    scope.config.layout .nativeType,
    .staticField type.signature "Level_Offset" .i32,
    scope.config.layout .propertyOffset,
    scope.config.nativePtr,
    scope.config.checkLiveness,
    .instanceMethod type.signature "get_Level" [] .i32,
    .instanceMethod type.signature "set_Level" [.i32] .void]

/-- The address of the value in native memory. -/
def address : Fragment :=
  [.loadArg 0, .loadField 5, .loadStatic 3, .plain .toNative, .plain .add]

/-- The class with calls of the accessors in place of uses of the hidden field. -/
def edited : TypeDef :=
  { type with
    fields := plan.fields
    methods := [
      { name := "get_Level", result := .i32
        body := some (body ([.loadArg 0, .call 6] ++ address ++ [.indirect .load .i32, .ret])) },
      { name := "set_Level", parameters := [{ name := "value", type := .i32 }]
        body := some (body ([.loadArg 0, .call 6] ++ address
          ++ [.loadArg 1, .indirect .store .i32, .ret])) },
      { name := "Drain", body := some (body [.loadArg 0, .constI32 0, .call 8, .ret]) },
      TypePlan.newInitializer [.constString 0, .call 2, .storeStatic 1, .loadStatic 1,
        .constString 1, .call 4, .storeStatic 3]] }

theorem plan_binding : binding.plan scope.config scope.module type scope.module.tables =
    .ok ((plan, []), tables) :=
  eq_ok_of_toOption (by decide +kernel)

theorem apply_plan : plan.apply type = .ok edited :=
  eq_ok_of_toOption (by decide +kernel)

theorem verify_edited : ∀ method ∈ edited.methods, method.verify tables = .ok () := by
  simp only [edited, List.forall_mem_cons]
  refine ⟨?_, ?_, ?_, ?_, List.forall_mem_nil _⟩ <;> cbv

theorem soleClass : scope.SoleClass type edited binding plan tables where
  fresh := rfl
  types := rfl
  extracted := extract_scope
  place := rfl
  name := rfl
  rootward base same := by
    cases same
    decide
  supported := rfl
  hashed := ⟨_, rfl⟩
  planned := plan_binding
  applied := apply_plan
  verified := TypePlan.verifyTouched_of_verify verify_edited

/-- The hidden field is one of objects. -/
theorem keepsInObjects_binding : binding.KeepsInObjects type := by
  intro exposed _ property _ field inside _
  cases List.mem_singleton.mp inside
  decide

end Meter

/-- The method that stored to the hidden field calls the setter, and the field is gone. -/
theorem Scope.weave_withdraws_meter :
    Meter.scope.module.isWoven = false ∧
    (∀ result, Meter.scope.weave = .ok (.woven result) → result.module.tables.Indexed) ∧
    Meter.scope.extract.bindings.findClass? Meter.binding.name = some Meter.binding ∧
    Meter.scope.module.types[Meter.binding.type]? = some Meter.type ∧
    Meter.binding.KeepsInObjects Meter.type ∧
    ∃ result, Meter.scope.weave = .ok (.woven result) ∧
      result.module.types[Meter.binding.type]? = some Meter.edited ∧
      Meter.scope.Withdraws result.module Meter.binding Meter.type Meter.edited ∧
      "<Level>k__BackingField" ∉ Meter.edited.fieldNames := by
  rcases Meter.soleClass.exists_woven with ⟨result, woven, types, tables⟩
  have indexed : ∀ result, Meter.scope.weave = .ok (.woven result) →
      result.module.tables.Indexed := by
    intro other again
    cases woven.symm.trans again
    rw [tables, Tables.Indexed]
    decide
  have bound : Meter.scope.extract.bindings.findClass? Meter.binding.name = some Meter.binding := by
    rw [Meter.extract_scope]
    rfl
  have there : result.module.types[Meter.binding.type]? = some Meter.edited := by
    rw [types]
    rfl
  rcases (weave_withdraws Meter.scope Meter.binding Meter.type rfl indexed bound rfl
    Meter.keepsInObjects_binding).1 result woven with ⟨now, same, withdraws⟩
  cases there.symm.trans same
  exact ⟨rfl, indexed, bound, rfl, Meter.keepsInObjects_binding, result, woven, there, withdraws,
    by decide +kernel⟩

end NativeWeave
