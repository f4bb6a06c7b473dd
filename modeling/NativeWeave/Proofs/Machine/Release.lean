import NativeWeave.Proofs.Category.Hashing
import NativeWeave.Proofs.Editing.Initializers
import NativeWeave.Proofs.Machine.Call
import NativeWeave.Proofs.Marshalling.Destruction

namespace NativeWeave

/-!
# What a call releases

Texts and lists own native memory once they lie in an argument buffer.  What has become of an exposed
function destroys them after the call, each of them once, and nothing else.  A struct that is
marshalled field by field owns what its fields own, and nothing destroys that: what is said about
functions here is said about those to which no such struct is handed over.
-/

/-! ## Owning native memory -/

/-- A value of the category owns native memory once it is marshalled. -/
inductive Scope.Owns (scope : Scope) : Category → Prop
  | string : Owns scope .string
  | text : Owns scope .text
  | list (inner : Category) (element : Signature) : Owns scope (.list inner element)
  /-- A struct that is marshalled field by field owns what one of its fields owns. -/
  | field {nativeName : String} {owner : QualifiedName} {field : Field} {category : Category}
      (exposed : (field, .ok category) ∈ scope.exposed owner) (owns : Owns scope category) :
      Owns scope (.struct .generic nativeName owner)

/-- Values of the category are structs that are marshalled field by field. -/
def Category.isGeneric : Category → Bool
  | struct .generic _ _ => true
  | _ => false

/-- Apart from structs, the values that own native memory are those that are released. -/
theorem Scope.owns_iff {scope : Scope} {category : Category}
    (apart : category.isGeneric = true → ¬ scope.Owns category) :
    scope.Owns category ↔ category.needsCleanup = true := by
  constructor
  · intro owns
    cases owns with
    | field exposed owns => exact absurd (.field exposed owns) (apart rfl)
    | _ => rfl
  · intro owning
    cases category with
    | string => exact .string
    | text => exact .text
    | list inner element => exact .list inner element
    | _ => cases owning

/-- What is done about a value after the call: if it owns native memory, the instance in its slot is
destroyed, and otherwise nothing is done. -/
def CallValue.Released (value : CallValue) (owns : Prop) (config : Config) (tables : Tables)
    (code : Fragment) : Prop :=
  owns ∧ value.binding.category.Destruction config value.slots (value.place FunctionSite.buffer)
    tables code ∨ ¬ owns ∧ code = []

/-- The code calls native code and reads back what comes out of it.  Then it does what is to be done
about the values, and at the end it returns what it has read.  Nothing else in it destroys anything. -/
def Fragment.Releases (code : Fragment) (config : Config) (tables : Tables)
    (released : List Fragment) : Prop :=
  ∃ early token back late, tables.member? token = some config.invokeNativeFunction ∧
    code = early ++ .call token :: (back ++ released.flatten ++ late ++ [.ret]) ∧
    tables.Spares early ∧ tables.Spares back ∧ (late = [] ∨ late = [.loadLocal 1])

def Body.Releases (body : Body) (config : Config) (tables : Tables) (released : List Fragment) :
    Prop :=
  ∃ code, body.toCode = .ok code ∧ Fragment.Releases code.instrs config tables released

open Emit Tables

theorem CallValue.Released.still {value : CallValue} {owns : Prop} {config : Config}
    {tables : Tables} {code : Fragment} (released : value.Released owns config tables code) :
    ∀ instr ∈ code, instr.target? = none := by
  rcases released with ⟨_, destruction⟩ | ⟨_, rfl⟩
  · exact destruction.still
  · exact List.forall_mem_nil _

/-- What is done about several values has no jumps. -/
theorem CallValue.still_of_released {owns : CallValue → Prop} {config : Config} {tables : Tables}
    {values : List CallValue} {each : List Fragment}
    (released : List.Forall₂ (fun value code => value.Released (owns value) config tables code)
      values each) : ∀ instr ∈ each.flatten, instr.target? = none := by
  refine List.forall_mem_flatten.mpr fun code listed => ?_
  rcases (exists_of_mem_forall₂ released).2 code listed with ⟨_, _, released⟩
  exact released.still

/-- There is nothing about code without jumps that cannot be stored. -/
theorem Code.storable_of_still {code : Code} (still : ∀ instr ∈ code.instrs, instr.target? = none) :
    code.Storable := by
  intro index instr here target leads
  cases (still instr (List.mem_of_getElem? here)).symm.trans leads

namespace Fragment.Releases

variable {code : Fragment} {config : Config} {tables : Tables} {released : List Fragment}

theorem still (releases : code.Releases config tables released)
    (parts : ∀ instr ∈ released.flatten, instr.target? = none) :
    ∀ instr ∈ code, instr.target? = none := by
  rcases releases with ⟨early, token, back, late, _, rfl, before, after, last⟩
  have ends : ∀ instr ∈ late, instr.target? = none := by
    rcases last with rfl | rfl
    · exact List.forall_mem_nil _
    · exact List.forall_mem_singleton.mpr rfl
  simp only [List.forall_mem_append, List.forall_mem_cons]
  exact ⟨before.still, rfl, ⟨⟨after.still, parts⟩, ends⟩, rfl, List.forall_mem_nil _⟩

/-- Code that destroys nothing may stand in front. -/
theorem behind (releases : code.Releases config tables released) {prelude : Fragment}
    (spares : tables.Spares prelude) : Releases (prelude ++ code) config tables released := by
  rcases releases with ⟨early, token, back, late, means, rfl, before, after, last⟩
  exact ⟨prelude ++ early, token, back, late, means, (List.append_assoc _ _ _).symm,
    spares.append before, after, last⟩

/-- Code without jumps is read from the body that it is stored in. -/
theorem stored (releases : code.Releases config tables released)
    (parts : ∀ instr ∈ released.flatten, instr.target? = none) {stored : Code}
    (same : stored.instrs = code) (locals : List Signature) :
    (stored.toBody locals).Releases config tables released := by
  have storable : stored.Storable := Code.storable_of_still (same ▸ releases.still parts)
  rcases Code.exists_toCode_toBody storable locals with ⟨read, found, kept⟩
  exact ⟨read, found, by rwa [kept, same]⟩

/-- Code that is put together from parts. -/
theorem concat {front back parts : List Fragment} {token : UInt32} {late : Fragment}
    (means : tables.member? token = some config.invokeNativeFunction)
    (before : ∀ fragment ∈ front, tables.Spares fragment)
    (after : ∀ fragment ∈ back, tables.Spares fragment)
    (last : late = [] ∨ late = [.loadLocal 1]) (same : released.flatten = parts.flatten)
    (still : ∀ instr ∈ released.flatten, instr.target? = none) :
    Releases (Fragment.concat (front ++ [.call token] ::
      (back ++ [Fragment.concat parts, late, [.ret]]))) config tables released := by
  have joined : Fragment.concat parts = released.flatten := by
    rw [same] at still ⊢
    exact Fragment.concat_eq_flatten still
  have whole : (front ++ [.call token] :: (back ++ [Fragment.concat parts, late, [.ret]])).flatten =
      front.flatten ++ .call token :: (back.flatten ++ released.flatten ++ late ++ [.ret]) := by
    simp [joined]
  have releases : Releases (front ++ [.call token] ::
      (back ++ [Fragment.concat parts, late, [.ret]])).flatten config tables released :=
    ⟨front.flatten, token, back.flatten, late, means, whole, spares_flatten before,
      spares_flatten after, last⟩
  rwa [Fragment.concat_eq_flatten (releases.still still)]

end Fragment.Releases

/-! ## The parts of the caller -/

/-- What is made for some items of a list, with nothing for the others. -/
theorem exists_forall₂_of_filter {α β : Type} {related : α → List β → Prop} {chosen : α → Bool}
    {items : List α} {parts : List (List β)}
    (all : List.Forall₂ related (items.filter chosen) parts) :
    ∃ each, each.flatten = parts.flatten ∧ List.Forall₂ (fun item part =>
      chosen item = true ∧ related item part ∨ ¬ chosen item = true ∧ part = []) items each := by
  induction items generalizing parts with
  | nil =>
    cases all
    exact ⟨[], rfl, .nil⟩
  | cons item more ih =>
    by_cases picked : chosen item = true
    · rw [List.filter_cons_of_pos picked] at all
      cases all with
      | cons holds rest =>
        rcases ih rest with ⟨each, same, others⟩
        exact ⟨_ :: each, by rw [List.flatten_cons, List.flatten_cons, same],
          .cons (.inl ⟨picked, holds⟩) others⟩
    · rw [List.filter_cons_of_neg picked] at all
      rcases ih all with ⟨each, same, others⟩
      exact ⟨[] :: each, by rw [List.flatten_cons, List.nil_append, same],
        .cons (.inr ⟨picked, rfl⟩) others⟩

namespace FunctionSite

variable {site : FunctionSite} {value : CallValue} {argument : UInt16}

theorem leaves_forAll_spares {Item : Type} {items : List Item} {emit : Item → Emit Fragment}
    [∀ item, (emit item).Grows] (each : ∀ item, (emit item).Leaves Tables.Spares) :
    (forAll items emit).Leaves Tables.Spares := by
  refine (leaves_forAll fun item _ => each item).mono fun tables code made => ?_
  rcases made with ⟨fragments, rfl, all⟩
  refine spares_concat fun fragment listed => ?_
  rcases (exists_of_mem_forall₂ all).2 fragment listed with ⟨_, _, spares⟩
  exact spares

theorem leaves_liveness_spares (config : Config) : (liveness config).Leaves Tables.Spares := by
  have other : config.checkLiveness.name ≠ "DestructInstance" :=
    show "CheckLiveness" ≠ "DestructInstance" by decide
  exact .bind (leaves_call_spares other) fun call => .pure fun tables spares => spares.cons rfl

theorem leaves_passArgument_spares : (site.passArgument value argument).Leaves Tables.Spares := by
  unfold passArgument
  split
  · exact .after fun token => .after fun source => Category.leaves_toNative_spares
  · exact .after fun source => Category.leaves_toNative_spares

theorem leaves_receiver_spares : site.receiver.Leaves Tables.Spares := by
  unfold receiver
  split
  · exact .after fun source => .pure fun tables => spares_push source
  · have other : site.config.getDefaultObject.name ≠ "DestructInstance" :=
      show "GetDefaultObject" ≠ "DestructInstance" by decide
    exact .bind (leaves_call_spares other) fun call => .pure fun tables spares => spares.cons rfl

theorem leaves_callee_spares : site.callee.Leaves Tables.Spares := by
  unfold callee
  split
  · have other : site.config.resolveFunctionOnInstance.name ≠ "DestructInstance" :=
      show "ResolveFunctionOnInstance" ≠ "DestructInstance" by decide
    refine .bind (leaves_member _) fun resolve => .bind (leaves_text _) fun name => .pure ?_
    rintro tables ⟨text, rfl, _⟩ means
    exact (spares_call means other).cons rfl |>.cons rfl
  · exact .pure fun tables => spares_of_isQuiet rfl

theorem leaves_returnArgument_spares :
    (site.returnArgument value argument).Leaves Tables.Spares := by
  unfold returnArgument
  refine .after fun token => .bind Category.leaves_fromNative_spares fun read => .pure ?_
  intro tables spares
  refine spares_concat ?_
  simp only [List.forall_mem_cons]
  exact ⟨spares_of_isQuiet rfl, spares, spares_of_isQuiet rfl, List.forall_mem_nil _⟩

theorem leaves_keepResult_spares : site.keepResult.Leaves Tables.Spares := by
  unfold keepResult
  split
  · exact .pure fun tables => spares_nil
  · refine .bind Category.leaves_fromNative_spares fun read => .pure fun tables spares => ?_
    refine spares_concat ?_
    simp only [List.forall_mem_cons]
    exact ⟨spares, spares_of_isQuiet rfl, List.forall_mem_nil _⟩

/-- The values are released that are said to own native memory. -/
theorem leaves_callerBody_releases (site : FunctionSite) : site.callerBody.Leaves fun tables body =>
    ∃ each, List.Forall₂ (fun value code => value.Released
        (value.binding.category.needsCleanup = true) site.config tables code) site.values each ∧
      body.Releases site.config tables each := by
  have nothing : (pure [] : Emit Fragment).Leaves Tables.Spares := .pure fun _ => spares_nil
  unfold callerBody
  split
  case' isTrue => refine .bind (leaves_liveness_spares site.config) fun live => ?_
  case' isFalse => refine .bind nothing fun live => ?_
  all_goals
    refine .bind (leaves_forAll_spares fun item => leaves_passArgument_spares) fun passed => ?_
    refine .bind leaves_receiver_spares fun receiver => ?_
    refine .bind leaves_callee_spares fun callee => ?_
    refine .bind (leaves_callOf site.config.invokeNativeFunction) fun invoke => ?_
    refine .bind (leaves_forAll_spares fun item => leaves_returnArgument_spares) fun returned => ?_
    refine .bind leaves_keepResult_spares fun kept => ?_
    refine .bind (leaves_forAll fun value listed => Category.leaves_cleanup_destroys
      (List.mem_filter.mp listed).2) fun released => .pure ?_
    rintro tables ⟨parts, rfl, all⟩ keeps returns ⟨token, rfl, means⟩ calls receives passes lives
    rcases exists_forall₂_of_filter all with ⟨each, same, released⟩
    have still := CallValue.still_of_released released
    have before : ∀ fragment ∈ [live, site.allocate, passed, receiver, callee, [.loadLocal 0]],
        tables.Spares fragment := by
      simp only [List.forall_mem_cons]
      exact ⟨lives, spares_of_isQuiet rfl, passes, receives, calls, spares_of_isQuiet rfl,
        List.forall_mem_nil _⟩
    have after : ∀ fragment ∈ [returned, kept], tables.Spares fragment :=
      List.forall_mem_cons.mpr ⟨returns, List.forall_mem_singleton.mpr keeps⟩
    have last : (site.result?.map fun _ => Instr.loadLocal 1).toList = [] ∨
        (site.result?.map fun _ => Instr.loadLocal 1).toList = [.loadLocal 1] := by
      cases site.result? with
      | none => exact .inl rfl
      | some value => exact .inr rfl
    have releases := Fragment.Releases.concat means before after last same still
    exact ⟨each, released, releases.stored still rfl _⟩

end FunctionSite

/-! ## Planned functions -/

/-- The plan of a function adds a caller that releases the values that are said to own memory. -/
def ClassSite.PlansRelease (site : ClassSite) (function : FunctionBinding) (tables : Tables)
    (plan : TypePlan) : Prop :=
  ∃ call : FunctionSite, ∃ body each, site.type.methods[function.method]? = some call.method ∧
    call.caller body ∈ plan.methods ∧
    List.Forall₂ (fun member value => CallValue.Plans value tables site.owner function.name
      (if !call.method.isStatic then 1 else 0) member) function.values call.values ∧
    List.Forall₂ (fun value code => value.Released (value.binding.category.needsCleanup = true)
      site.config tables code) call.values each ∧
    body.Releases site.config tables each

theorem ClassSite.leaves_planFunction_releases {site : ClassSite} {function : FunctionBinding}
    (earlier : TypePlan) : (site.planFunction earlier function).Leaves fun tables plan =>
      site.PlansRelease function tables plan := by
  unfold planFunction
  refine .bind (.lift fun found _ => Weave.ofOption_eq_ok found) fun method => ?_
  refine .after fun handle => .after fun size => .after fun findHandle => .after fun findSize => ?_
  refine .bind (.forall₂ fun value _ => leaves_planValue) fun values => ?_
  refine .bind (FunctionSite.leaves_callerBody_releases _) fun body => .after fun invoker => .pure ?_
  rintro tables ⟨each, released, releases⟩ plans found
  refine ⟨_, body, each, found, ?_, List.forall₂_map_right_iff.mpr plans, released, releases⟩
  exact List.mem_append_left _ (List.mem_append_right _ (List.mem_singleton_self _))

/-! ## Initializers -/

theorem Question.PushedBy.spares {question : Question} {tables : Tables} {owner : Signature}
    {known : List Inquiry} {pushes : Fragment}
    (pushed : question.PushedBy tables owner known pushes) : tables.Spares pushes := by
  cases pushed <;> exact spares_of_isQuiet rfl

/-- Code that makes inquiries destroys nothing. -/
theorem Fragment.Inquires.spares {config : Config} {tables : Tables} {owner : Signature}
    {known asked : List Inquiry} {fragment : Fragment}
    (inquires : fragment.Inquires config tables owner known asked) : tables.Spares fragment := by
  have other : ∀ query, (config.layout query).name ≠ "DestructInstance" := by
    intro query
    cases query <;> exact of_decide_eq_true rfl
  induction inquires with
  | nil => exact spares_nil
  | cons first _ ih =>
    refine .append ?_ ih
    cases first with
    | intro pushes pushed asks keeps =>
      have front : tables.Spares pushes := pushed.spares
      exact front.append ((spares_call asks (other _)).append (spares_of_isQuiet rfl))

/-- Code without jumps may have other such code in front afterwards, and stays as it is. -/
theorem TypePlan.Prepends.exists_instrs {prelude : Fragment} {body : Body} {later? : Option Body}
    (prepends : Prepends prelude (some body) later?) {code : Code} (read : body.toCode = .ok code)
    (still : ∀ instr ∈ code.instrs, instr.target? = none)
    (ahead : ∀ instr ∈ prelude, instr.target? = none) :
    ∃ later now, later? = some later ∧ later.locals = body.locals ∧ later.toCode = .ok now ∧
      (now.instrs = code.instrs ∨ now.instrs = prelude ++ code.instrs) := by
  rcases prepends with ⟨_, rfl⟩ | ⟨_, later, prepended, rfl⟩
  · exact ⟨body, code, rfl, rfl, read, .inl rfl⟩
  · rcases bind_eq_ok_iff.mp prepended with ⟨loaded, same, prepended⟩
    cases read.symm.trans (eq_ok_of_mapError same)
    have storable := (Code.storable_of_toCode read).behind ahead
    rw [Code.insert?_zero] at prepended
    cases prepended
    rcases Code.exists_toCode_toBody storable body.locals with ⟨now, found, kept⟩
    refine ⟨_, now, rfl, rfl, found, .inr (kept.trans ?_)⟩
    exact congrArg (prelude ++ ·) (Fragment.shift_eq still prelude.length)

/-- Code that destroys nothing may be put in front of a body. -/
theorem Body.Releases.of_prepends {body : Body} {later? : Option Body} {config : Config}
    {tables : Tables} {released : List Fragment} {prelude : Fragment}
    (releases : body.Releases config tables released)
    (parts : ∀ instr ∈ released.flatten, instr.target? = none) (spares : tables.Spares prelude)
    (prepends : TypePlan.Prepends prelude (some body) later?) :
    ∃ later, later? = some later ∧ later.Releases config tables released := by
  rcases releases with ⟨code, read, releases⟩
  rcases prepends.exists_instrs read (releases.still parts) spares.still with
    ⟨later, now, same, _, found, kept | kept⟩
  · exact ⟨later, same, now, found, kept ▸ releases⟩
  · exact ⟨later, same, now, found, kept ▸ releases.behind spares⟩

/-! ## Woven classes -/

/-- What has become of the method destroys, after the native call, each native instance that lies in
the argument buffer of the function once, and destroys nothing else. -/
def TypeDef.Releases (now : TypeDef) (scope : Scope) (tables : Tables) (function : FunctionBinding)
    (method : Method) : Prop :=
  ∃ caller ∈ now.methods, ∃ body values each, caller.name = method.name ∧
    caller.signature = method.signature ∧ caller.body = some body ∧
    List.Forall₂ (fun member value => CallValue.Plans value tables now.signature function.name
      (if !method.isStatic then 1 else 0) member) function.values values ∧
    List.Forall₂ (fun value code => value.Released (scope.Owns value.binding.category) scope.config
      tables code) values each ∧
    body.Releases scope.config tables each

/-- An exposed function of a woven class releases what it hands over, if it hands over no struct that
is marshalled field by field and owns native memory. -/
theorem Scope.releases_of_weave (scope : Scope) (result : WovenModule)
    (woven : scope.weave = .ok (.woven result)) (indexed : result.module.tables.Indexed)
    (strings : result.module.tables.strings.length ≤ 2 ^ 32) (binding : ClassBinding)
    (bound : scope.extract.bindings.findClass? binding.name = some binding) (type : TypeDef)
    (present : scope.module.types[binding.type]? = some type) (function : FunctionBinding)
    (listed : function ∈ binding.functions) (method : Method)
    (here : type.methods[function.method]? = some method)
    (apart : ∀ value ∈ function.values, value.category.isGeneric = true →
      ¬ scope.Owns value.category) :
    ∃ now, result.module.types[binding.type]? = some now ∧
      now.Releases scope result.module.tables function method := by
  rcases exists_planning_of_weave woven indexed bound present with
    ⟨before, after, now, planning, there, applied, within, _, _, _⟩
  have each := Leaves.forall₂ (fun function _ => ClassSite.leaves_planFunction_releases _) _ _ _
    planning.last _ within indexed
  rcases (exists_of_mem_forall₂ each).1 function listed with
    ⟨plan, planned, site, body, parts, found, added, plans, released, releases⟩
  cases here.symm.trans found
  have owner : now.signature = type.signature :=
    congrArg Signature.named (TypePlan.sameOutside_of_apply applied).qualifiedName
  have still := CallValue.still_of_released released
  have owns : ∀ value ∈ site.values, scope.Owns value.binding.category ↔
      value.binding.category.needsCleanup = true := by
    intro value inside
    rcases (exists_of_mem_forall₂ plans).2 value inside with ⟨member, belongs, plan⟩
    rw [plan.binding]
    exact Scope.owns_iff (apart member belongs)
  have owned : List.Forall₂ (fun value code => value.Released (scope.Owns value.binding.category)
      scope.config result.module.tables code) site.values parts := by
    refine ((List.forall₂_and_left _ _).mpr ⟨owns, released⟩).imp ?_
    rintro value code ⟨same, done⟩
    rwa [CallValue.Released, same]
  have spares := (planning.inquires within indexed strings).prelude.spares
  rw [ClassSite.owner, ← owner] at plans
  rcases TypePlan.exists_of_apply_of_added applied planning.removed_inside
    (planning.mem_methods planned added) with ⟨later?, stays, same | ⟨_, prepends⟩⟩
  · exact ⟨now, there, _, stays, body, site.values, parts, rfl, site.signature_caller body, same,
      plans, owned, releases⟩
  · rcases releases.of_prepends still spares prepends with ⟨later, same, releases⟩
    exact ⟨now, there, _, stays, later, site.values, parts, rfl, site.signature_caller body, same,
      plans, owned, releases⟩

/-! ## A method that takes a text -/

namespace Herald

def parameter (name : String) (type : Signature) : Parameter where
  name := name
  type := type

def say : Method where
  name := "Say"
  flags := Method.staticFlag
  parameters := [parameter "text" .string, parameter "count" .i32]
  attributes := [Relay.marking]
  body := some (Meter.body [.ret])

/-- A class with an exposed method that takes a text and a number. -/
def type : TypeDef where
  name := "Herald"
  namespaceName := "Game"
  flags := TypeDef.abstractFlag
  base := some (.named ⟨"Tether.Runtime", "NativeObject"⟩)
  attributes := [Arena.marking Annotation.nativeClass []]
  methods := [say]

def scope : Scope where
  context := { modules := [{ Module.empty "Runtime" with types := [
    { name := "NativeObject", namespaceName := "Tether.Runtime" },
    { name := "NativeLayout", namespaceName := "Tether.Runtime" },
    { name := "StringMarshaller", namespaceName := "Tether.Runtime" }] }] }
  module := { Module.empty "Game" with types := [type] }

def value (name : String) (type : Signature) (category : Category) (place : Nat) :
    MemberBinding where
  name := name
  nativeName := name
  type := type
  category := category
  flags := (scope.config.propertyFlags []).insertAll [.parameter]
  origin := .parameter place

def text : MemberBinding :=
  value "text" .string .string 0

def count : MemberBinding :=
  value "count" .i32 (.scalar .i32) 1

def function : FunctionBinding where
  name := "Say"
  nativeName := "Say"
  method := 0
  flags := FunctionFlags.ofAttribute Relay.marking true
  parameters := [text, count]

def binding : ClassBinding where
  name := ⟨"Game", "Herald"⟩
  nativeName := "Herald"
  type := 0
  base := some ⟨"Tether.Runtime", "NativeObject"⟩
  isAbstract := true
  functions := [function]

/-! ### Its binding -/

/-- What is remembered after the type of the first parameter was classified. -/
def heard : Memory :=
  ({} : Memory).withCategory .string {} (.ok .string)

def asked : Memory :=
  heard.withCategory .i32 {} (.ok (.scalar .i32))

theorem extractParameter_parameter {type : Signature} {category : Category} {memory later : Memory}
    (name : String) (place : Nat)
    (shaped : scope.classify type.stripByRef {} memory = (.ok category, later))
    (plain : type.isByRef = false) (single : category.isArray = false)
    (unhashed : scope.hashOverride? Herald.type.qualifiedName category later = (none, later)) :
    scope.extractParameter Herald.type say (parameter name type) place memory =
      (⟨some (value name type category place), []⟩, later) := by
  have classified : scope.classify (parameter name type).type.stripByRef
      (.ofAttribute (scope.config.findAnnotation? [] Annotation.nativeProperty)) memory =
        (.ok category, later) := shaped
  have passed : (parameter name type).isOut = false := by
    change hasFlag 0 Parameter.outFlag = false
    decide
  have directed : Scope.directionOf (parameter name type) = [.parameter] := by
    rw [Scope.directionOf, passed, if_neg Bool.false_ne_true, parameter, plain,
      if_neg Bool.false_ne_true]
  simp only [Scope.extractParameter, Scope.extractValue, Scope.extractMember, bind, StateT.bind,
    parameter] at classified ⊢
  rw [parameter] at directed
  simp only [classified, directed, StateT.bind, unhashed, pure, StateT.pure]
  dsimp only [bind]
  rw [Scope.memberBinding, single, if_neg Bool.false_ne_true]
  rfl

theorem extractParameters_say : (say.parameters.zipIdx.mapM fun (parameter, place) =>
    scope.extractParameter type say parameter place) {} =
      ([⟨some text, []⟩, ⟨some count, []⟩], asked) := by
  have string : scope.classify .string {} {} = (.ok .string, heard) := by
    rw [Scope.classify, Scope.classifyWith, Scope.classifyAnew]
    rfl
  have scalar : scope.classify .i32 {} heard = (.ok (.scalar .i32), asked) := by
    rw [Scope.classify, Scope.classifyWith, Scope.classifyAnew]
    rfl
  have first : scope.extractParameter type say (parameter "text" .string) 0 {} =
      (⟨some text, []⟩, heard) := extractParameter_parameter "text" 0 string rfl rfl rfl
  have second : scope.extractParameter type say (parameter "count" .i32) 1 heard =
      (⟨some count, []⟩, asked) := extractParameter_parameter "count" 1 scalar rfl rfl rfl
  have listed : say.parameters.zipIdx = [(parameter "text" .string, 0), (parameter "count" .i32, 1)] :=
    rfl
  rw [listed, List.mapM_cons]
  simp only [bind, StateT.bind, List.mapM_cons, first, second]
  rfl

theorem extractFunction_say :
    scope.extractFunction type say 0 {} = (⟨some function, []⟩, asked) := by
  have found : scope.config.findAnnotation? say.attributes Annotation.nativeFunction =
      some Relay.marking := by decide
  have nothing : scope.extractResult type say asked = (.nothing, asked) := rfl
  have silent : Scope.functionFindings type say (.ofAttribute Relay.marking say.isStatic) = [] := by
    decide +kernel
  have labelled : Rule.checkCategoryLabel type say.name
      ((FunctionFlags.ofAttribute Relay.marking say.isStatic).has .callable)
      (Relay.marking.text? Annotation.categoryArgument) (say.source.or type.source) = [] := by
    decide +kernel
  simp only [Scope.extractFunction, found, Scope.extractAnnotated, bind, StateT.bind,
    extractParameters_say, nothing, silent, FunctionBinding.violations, Rule.all, List.flatMap_cons,
    Rule.checkFunction, labelled]
  rw [if_neg (by exact Bool.false_ne_true)]
  rfl

theorem derivesFromRoot_type : scope.derivesFromRoot type.qualifiedName = true :=
  Scope.derivesFromRoot_of_base? (by decide)

theorem extract_scope : scope.extract = ⟨[.ofClass binding], []⟩ := by
  have functions : (type.methods.zipIdx.mapM fun (method, place) =>
      scope.extractFunction type method place) {} = ([⟨some function, []⟩], asked) :=
    Scope.mapM_zipIdx_singleton rfl extractFunction_say
  have derived : scope.extractDerived 0 type {} = (⟨some binding, []⟩, asked) := by
    have properties : type.properties.zipIdx = [] := rfl
    simp only [Scope.extractDerived, bind, StateT.bind, properties, List.mapM_nil, pure,
      StateT.pure, functions]
    rfl
  exact Scope.extract_eq_singleton rfl (Scope.examine_eq_ofClass (by decide) rfl (by decide)
    derivesFromRoot_type rfl derived)

/-! ### Its edit -/

def plan : TypePlan :=
  match binding.plan scope.config scope.module type scope.module.tables with
  | .ok ((plan, _), _) => plan
  | _ => {}

/-- A method that moves texts. -/
def mover (name : String) (parameters : List Signature) (result : Signature) : MemberRef :=
  .staticMethod (scope.config.runtimeSignature .stringMarshaller) name parameters result

def tables : Tables where
  strings := ["Herald", "Say", "text", "count"]
  members := [
    .staticField type.signature Naming.nativeClassPtr .intPtr,
    scope.config.layout .nativeType,
    .staticField type.signature "Say_NativeFunction" .intPtr,
    .staticField type.signature "Say_ParamsSize" .i32,
    scope.config.layout .functionHandle,
    scope.config.layout .functionArgumentsSize,
    .staticField type.signature "Say_text_Offset" .i32,
    .staticField type.signature "Say_text_NativeProperty" .intPtr,
    scope.config.layout .propertyOffset,
    scope.config.layout .propertyHandle,
    .staticField type.signature "Say_count_Offset" .i32,
    mover "ToNative" [.intPtr, .intPtr, .string] .void,
    scope.config.getDefaultObject,
    scope.config.invokeNativeFunction,
    mover "DestructInstance" [.intPtr, .intPtr] .void,
    mover "FromNative" [.intPtr, .intPtr] .string,
    function.implementation type.signature say]

/-- What has become of the method, up to its return. -/
def calling : Fragment :=
  .concat [
    [.loadStatic 3, .plain .localAlloc, .storeLocal 0],
    [.loadLocal 0, .constI32 0, .loadStatic 3, .plain .initBlock],
    .loadStatic 7 :: Relay.place (.loadLocal 0) 6, [.loadArg 0, .call 11],
    Relay.place (.loadLocal 0) 10, [.loadArg 1, .indirect .store .i32],
    [.loadStatic 0, .call 12, .loadStatic 2, .loadLocal 0, .call 13],
    .loadStatic 7 :: Relay.place (.loadLocal 0) 6, [.call 14]]

/-- The code of the invoker, up to its return. -/
def invoking : Fragment :=
  .concat [
    .loadStatic 7 :: Relay.place (.loadArg 0) 6, [.call 15, .storeLocal 0],
    Relay.place (.loadArg 0) 10, [.indirect .load .i32, .storeLocal 1],
    [.loadLocal 0, .loadLocal 1, .call 16]]

/-- The class with the method in its two new roles, and with the invoker. -/
def edited : TypeDef :=
  { type with
    fields := plan.fields
    methods := [
      { say with name := "Say_Implementation", attributes := [] },
      { say with body := some (({ instrs := calling ++ [.ret] } : Code).toBody [.intPtr]) },
      { name := "Invoke_Say", flags := Method.generatedFlag ||| Method.staticFlag
        parameters := [
          { name := "buffer", type := .intPtr }, { name := "returnBuffer", type := .intPtr }]
        body := some (({ instrs := invoking ++ [.ret] } : Code).toBody [.string, .i32]) },
      TypePlan.newInitializer [.constString 0, .call 1, .storeStatic 0, .loadStatic 0,
        .constString 1, .call 4, .storeStatic 2, .loadStatic 2, .call 5, .storeStatic 3,
        .loadStatic 2, .constString 2, .call 8, .storeStatic 6,
        .loadStatic 2, .constString 2, .call 9, .storeStatic 7,
        .loadStatic 2, .constString 3, .call 8, .storeStatic 10]] }

theorem plan_binding : binding.plan scope.config scope.module type scope.module.tables =
    .ok ((plan, []), tables) :=
  eq_ok_of_toOption (by decide +kernel)

theorem apply_plan : plan.apply type = .ok edited :=
  eq_ok_of_toOption (by decide +kernel)

theorem verify_edited : ∀ method ∈ edited.methods, method.verify tables = .ok () := by
  simp only [edited, List.forall_mem_cons]
  refine ⟨?_, ?_, ?_, ?_, List.forall_mem_nil _⟩ <;> cbv

theorem soleClass : scope.SoleClass type edited binding plan tables where
  fresh := rfl
  types := rfl
  extracted := extract_scope
  place := rfl
  name := rfl
  rootward base same := by
    cases same
    decide
  supported := rfl
  hashed := ⟨_, rfl⟩
  planned := plan_binding
  applied := apply_plan
  verified := TypePlan.verifyTouched_of_verify verify_edited

theorem findClass?_binding :
    scope.extract.bindings.findClass? binding.name = some binding := by
  rw [extract_scope]
  rfl

end Herald

/-- The text that the method is handed is destroyed after the native call. -/
theorem Scope.releases_of_weave_herald :
    ∃ result, Herald.scope.weave = .ok (.woven result) ∧ result.module.tables.Indexed ∧
      result.module.tables.strings.length ≤ 2 ^ 32 ∧
      Herald.scope.extract.bindings.findClass? Herald.binding.name = some Herald.binding ∧
      Herald.scope.module.types[Herald.binding.type]? = some Herald.type ∧
      Herald.function ∈ Herald.binding.functions ∧
      Herald.type.methods[Herald.function.method]? = some Herald.say ∧
      (∀ value ∈ Herald.function.values, value.category.isGeneric = true →
        ¬ Herald.scope.Owns value.category) ∧
      ∃ now, result.module.types[Herald.binding.type]? = some now ∧
        ∃ caller ∈ now.methods, ∃ body code token, caller.name = "Say" ∧ caller.body = some body ∧
          body.toCode = .ok code ∧ .call token ∈ code.instrs ∧
          result.module.tables.member? token =
            some (Herald.mover "DestructInstance" [.intPtr, .intPtr] .void) := by
  rcases Herald.soleClass.exists_woven with ⟨result, woven, _, tables⟩
  have indexed : result.module.tables.Indexed := by
    rw [tables, Indexed]
    decide
  have strings : result.module.tables.strings.length ≤ 2 ^ 32 := by
    rw [tables]
    decide
  have listed : Herald.function ∈ Herald.binding.functions := List.mem_singleton_self _
  have apart : ∀ value ∈ Herald.function.values, value.category.isGeneric = true →
      ¬ Herald.scope.Owns value.category := by
    change ∀ value ∈ [Herald.text, Herald.count], _
    rw [List.forall_mem_cons, List.forall_mem_singleton]
    exact ⟨by rintro ⟨⟩, by rintro ⟨⟩⟩
  rcases Scope.releases_of_weave Herald.scope result woven indexed strings Herald.binding
      Herald.findClass?_binding Herald.type rfl Herald.function listed Herald.say rfl apart with
    ⟨now, there, caller, inside, body, values, each, name, _, same, plans, released, code, read,
      releases⟩
  refine ⟨result, woven, indexed, strings, Herald.findClass?_binding, rfl, listed, rfl, apart, now,
    there, caller, inside, body, code, ?_⟩
  cases plans with
  | cons first rest =>
    cases released with
    | cons done others =>
      rw [CallValue.Released, first.binding] at done
      rcases done with ⟨_, token, destructor, handle, destroys, means, _, rfl⟩ | ⟨spared, _⟩
      · cases destroys
        refine ⟨token, name, same, read, ?_, means⟩
        rcases releases with ⟨early, invoke, back, late, _, whole, _⟩
        rw [whole]
        simp
      · exact absurd .string spared

end NativeWeave
