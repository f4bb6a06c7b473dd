import Mathlib
import NativeWeave.Proofs.Editing.Added
import NativeWeave.Proofs.Editing.Distinct
import NativeWeave.Proofs.Editing.Withdrawal
import NativeWeave.Proofs.Extraction.Direction
import NativeWeave.Proofs.Machine.Caller

namespace NativeWeave

/-!
# Calls go through

A class with exposed functions is woven so that a call of such a function goes to native code and from
there, by way of the invoker, to the code that the function had.  The caller gets the same from it as if
it had called that code.
-/

/-! ## Directions -/

/-- Parameters that only come out are passed by reference, and the annotations of parameters set no
flags for the direction. -/
def Method.DirectedByTypes (config : Config) (method : Method) : Prop :=
  ∀ parameter ∈ method.parameters, (parameter.isOut = true → parameter.type.isByRef = true) ∧
    ∀ flag ∈ [PropertyFlag.outParameter, .returnParameter, .referenceParameter],
      (config.propertyFlags parameter.attributes).has flag = false

namespace Scope

variable {scope : Scope} {owner : TypeDef} {method : Method} {function : FunctionBinding}
  {parameter : Parameter} {value : MemberBinding} {place : Nat}

/-- The binding of a parameter is as its type says. -/
theorem BindsParameter.directed (binds : scope.BindsParameter owner method (parameter, place) value)
    (directed : method.DirectedByTypes scope.config) (listed : parameter ∈ method.parameters) :
    value.isByRef = value.type.isByRef ∧ (value.type.isByRef = false → value.isInput = true) := by
  rcases directed parameter listed with ⟨out, flags⟩
  simp only [List.forall_mem_cons, List.not_mem_nil, false_implies, implies_true, ← Bool.not_eq_true,
    Config.has_propertyFlags, not_exists, not_and] at flags
  rcases flags with ⟨noOut, noReturn, noReference, _⟩
  have respects : scope.config.Respects parameter :=
    ⟨fun _ attr given => ⟨noOut attr given, noReference attr given⟩,
      fun _ attr given => ⟨noOut attr given, noReturn attr given⟩⟩
  rcases Direction.mk.inj ((binds.direction_eq_iff out).mpr respects) with ⟨byRef, input⟩
  rw [binds.type]
  refine ⟨byRef, fun byValue => ?_⟩
  rw [input, Bool.not_eq_true', ← Bool.not_eq_true]
  intro comesOut
  rw [out comesOut] at byValue
  cases byValue

end Scope

/-! ## Numbers of arguments -/

/-- The number of the argument that a value is, with so many others in front of the parameters. -/
def MemberOrigin.argument? (shift : Nat) : MemberOrigin → Option Nat
  | .parameter index => some (shift + index)
  | _ => none

/-- The parameters are numbered in order, and what is returned is none of them. -/
structure FunctionBinding.Numbered (function : FunctionBinding) : Prop where
  parameters : ∀ item ∈ function.parameters.zipIdx, item.1.origin = .parameter item.2
  result : ∀ value ∈ function.result, value.origin = .result

namespace FunctionBinding.Numbered

variable {function : FunctionBinding}

/-- The arguments are the parameters, in order. -/
theorem arguments (numbered : function.Numbered) (shift : Nat) :
    (function.values.filterMap fun value => (value.origin.argument? shift).map (value, ·)) =
      function.parameters.zipIdx shift := by
  have last : (function.result.toList.filterMap fun value =>
      (value.origin.argument? shift).map (value, ·)) = [] := by
    refine List.filterMap_eq_nil_iff.mpr fun value listed => ?_
    rw [numbered.result value (Option.mem_toList.mp listed)]
    rfl
  have first : (function.parameters.zipIdx.map Prod.fst).filterMap
      (fun value => (value.origin.argument? shift).map (value, ·)) =
        function.parameters.zipIdx.map fun item => (item.1, shift + item.2) := by
    rw [List.filterMap_map, ← List.filterMap_eq_map]
    refine List.filterMap_congr fun item listed => ?_
    dsimp only [Function.comp]
    rw [numbered.parameters item listed]
    rfl
  rw [List.zipIdx_map_fst] at first
  rw [values, List.filterMap_append, last, List.append_nil, first]
  exact List.zipIdx_eq_map_add.symm

/-- The first value that is no argument is what is returned. -/
theorem find?_values (numbered : function.Numbered) (shift : Nat) :
    (function.values.find? fun value => (value.origin.argument? shift).isNone) =
      function.result := by
  have first : (function.parameters.find? fun value => (value.origin.argument? shift).isNone) =
      none := by
    refine List.find?_eq_none.mpr fun value listed => ?_
    rcases List.mem_iff_getElem?.mp listed with ⟨index, here⟩
    rw [numbered.parameters _ (List.mk_mem_zipIdx_iff_getElem?.mpr here)]
    exact Bool.false_ne_true
  rw [values, List.find?_append, first, Option.none_or]
  cases given : function.result with
  | none => rfl
  | some value =>
    have origin := numbered.result value given
    rw [Option.toList_some, List.find?_singleton, origin]
    rfl

end FunctionBinding.Numbered

/-- The value is what is planned for a binding: it has the number of its argument, and its slots are
static fields of the class. -/
structure CallValue.Plans (value : CallValue) (tables : Tables) (owner : Signature) (function : String)
    (shift : Nat) (member : MemberBinding) : Prop where
  binding : value.binding = member
  argument : value.argument.map (·.toNat) = member.origin.argument? shift
  names : value.slots.Names tables owner (Naming.parameterSlots function member.name)
    member.category

open Emit

theorem ClassSite.toNat_of_argumentIndex {index : Nat} {hasThis : Bool} {argument : UInt16}
    (numbered : argumentIndex index hasThis = .ok argument) :
    argument.toNat = (if hasThis then 1 else 0) + index := by
  unfold argumentIndex at numbered
  dsimp only at numbered
  rw [Nat.add_comm] at numbered
  by_cases short : (if hasThis then 1 else 0) + index < 65536
  · rw [if_pos short] at numbered
    cases numbered
    exact UInt16.toNat_ofNat_of_lt' short
  · rw [if_neg short] at numbered
    cases numbered

theorem ClassSite.leaves_planValue {site : ClassSite} {function : FunctionBinding} {handle : UInt32}
    {hasThis : Bool} {value : MemberBinding} :
    (site.planValue function handle hasThis value).Leaves fun tables planned =>
      planned.value.Plans tables site.owner function.name (if hasThis then 1 else 0) value := by
  unfold planValue
  cases origin : value.origin with
  | parameter index =>
    refine .bind (leaves_memberSlots _ _ _) fun slots => .after fun fill => ?_
    have numbers : (liftM (argumentIndex index hasThis) : Emit UInt16).Leaves fun _ argument =>
        argument.toNat = (if hasThis then 1 else 0) + index :=
      .lift fun found _ => toNat_of_argumentIndex found
    dsimp only
    rw [map_eq_pure_bind, bind_assoc]
    refine .bind numbers fun argument => ?_
    rw [pure_bind]
    refine .pure fun tables number names => ⟨rfl, ?_, names⟩
    rw [origin]
    exact congrArg some number
  | _ =>
    refine .bind (leaves_memberSlots _ _ _) fun slots => .after fun fill => ?_
    dsimp only
    rw [pure_bind]
    refine .pure fun tables names => ⟨rfl, ?_, names⟩
    rw [origin]
    rfl

/-- The tokens of a planned function mean what they should. -/
theorem FunctionSite.means_of_plans {site : FunctionSite} {tables : Tables}
    (numbered : site.function.Numbered)
    (plans : List.Forall₂ (fun binding value => CallValue.Plans value tables site.site.owner
      site.function.name site.shift binding) site.function.values site.values)
    (classPtr : tables.member? site.site.classPtr =
      some (.staticField site.site.owner Naming.nativeClassPtr .intPtr))
    (handle : tables.member? site.handle =
      some (.staticField site.site.owner (Naming.functionSlot site.function.name) .intPtr))
    (size : tables.member? site.size =
      some (.staticField site.site.owner (Naming.parametersSizeSlot site.function.name) .i32)) :
    site.Means tables := by
  have same : site.values.map (fun value => (value.binding, value.argument.map (·.toNat))) =
      site.function.values.map fun binding => (binding, binding.origin.argument? site.shift) := by
    rw [← List.forall₂_eq_eq_eq, List.forall₂_map_left_iff, List.forall₂_map_right_iff]
    refine plans.flip.imp fun value binding plan => ?_
    rw [plan.binding, plan.argument]
  refine ⟨?_, ?_, fun value listed => ?_, classPtr, handle, size⟩
  · have paired := congrArg (List.filterMap fun item => item.2.map (item.1, ·)) same
    rw [List.filterMap_map, List.filterMap_map] at paired
    rw [arguments, List.map_filterMap, ← numbered.arguments site.shift]
    refine Eq.trans (List.filterMap_congr fun value _ => ?_) paired
    dsimp only [Function.comp]
    rw [Option.map_map, Option.map_map]
    rfl
  · have paired := congrArg (fun items => (items.find? (·.2.isNone)).map Prod.fst) same
    simp only [List.find?_map, Option.map_map] at paired
    have asked : site.result? = site.values.find? ((·.2.isNone) ∘ fun value : CallValue =>
        (value.binding, value.argument.map (·.toNat))) := by
      refine congrArg (site.values.find? ·) (funext fun value => ?_)
      exact Option.isNone_map.symm
    rw [asked, ← numbered.find?_values site.shift]
    exact paired.trans (congrFun Option.map_id _)
  · rcases (exists_of_mem_forall₂ plans).2 value listed with ⟨binding, _, plan⟩
    rw [plan.binding]
    exact plan.names

/-! ## Planned functions -/

/-- The function is the binding of a method with plain values, which is not validated. -/
structure FunctionBinding.Passable (function : FunctionBinding) (method : Method) : Prop where
  values : ∀ value ∈ function.values, value.category.isPlain = true
  directed : function.Directed
  unchecked : function.hasValidation = false
  numbered : function.Numbered
  count : method.parameters.length = function.parameters.length
  returns : method.result.isVoid = function.result.isNone

/-- The values of a binding are numbered as the parameters are. -/
theorem Scope.BindsFunction.numbered {scope : Scope} {owner : TypeDef} {method : Method} {index : Nat}
    {function : FunctionBinding} (binds : scope.BindsFunction owner (method, index) function) :
    function.Numbered := by
  refine ⟨?_, fun value given => ?_⟩
  · rintro ⟨parameter, place⟩ listed
    have here := List.mk_mem_zipIdx_iff_getElem?.mp listed
    have origins : function.parameters.map (·.origin) =
        method.parameters.zipIdx.map fun item => MemberOrigin.parameter item.2 := by
      rw [← List.forall₂_eq_eq_eq, List.forall₂_map_left_iff, List.forall₂_map_right_iff]
      exact binds.parameters.flip.imp fun _ _ bound => BindsParameter.origin bound
    have same := congrArg (·[place]?) origins
    rw [List.getElem?_map, here, List.getElem?_map, List.getElem?_zipIdx] at same
    cases declared : method.parameters[place]? with
    | none =>
      rw [declared] at same
      cases same
    | some given =>
      rw [declared] at same
      have origin := Option.some.inj same
      rwa [Nat.zero_add] at origin
  · have result := binds.result
    unfold BindsResult at result
    split at result
    · cases result.symm.trans given
    · rcases result with ⟨other, same, _, ⟨_, _, _, rfl⟩, rfl⟩
      cases same.symm.trans given
      rfl

theorem Scope.BindsFunction.passable {scope : Scope} {owner : TypeDef} {method : Method} {index : Nat}
    {function : FunctionBinding} (binds : scope.BindsFunction owner (method, index) function)
    (values : ∀ value ∈ function.values, value.category.isPlain = true)
    (directed : method.DirectedByTypes scope.config) (unchecked : function.hasValidation = false) :
    function.Passable method := by
  have all := exists_of_mem_forall₂ binds.parameters
  have directions : ∀ parameter ∈ function.parameters,
      parameter.isByRef = parameter.type.isByRef ∧
        (parameter.type.isByRef = false → parameter.isInput = true) := by
    intro parameter listed
    rcases all.2 parameter listed with ⟨⟨declared, place⟩, inside, bound⟩
    exact bound.directed directed (List.fst_mem_of_mem_zipIdx inside)
  have result := binds.result
  unfold BindsResult at result
  refine ⟨values, ⟨fun parameter listed => (directions parameter listed).1,
    fun parameter listed => (directions parameter listed).2⟩, unchecked, binds.numbered, ?_, ?_⟩
  · have length := binds.parameters.length_eq
    rwa [List.length_zipIdx] at length
  · split at result
    · next void => rw [void, result, Option.isNone_none]
    · next something =>
      rcases result with ⟨other, same, _⟩
      rw [same, Option.isNone_some]
      exact Bool.not_eq_true _ ▸ something

/-- The plan of a function adds a caller and an invoker that do what calls ask of them. -/
def ClassSite.Routes (site : ClassSite) (function : FunctionBinding) (method : Method)
    (tables : Tables) (plan : TypePlan) : Prop :=
  ∃ call : FunctionSite, call.site = site ∧ call.function = function ∧ call.method = method ∧
    (tables.member? site.classPtr = some (.staticField site.owner Naming.nativeClassPtr .intPtr) →
      call.Means tables) ∧
    ∃ calling invoking, call.caller calling ∈ plan.methods ∧ call.invoker invoking ∈ plan.methods ∧
      ∀ machine : Machine, machine.tables = tables → ∀ crossing, call.Carries machine crossing →
        crossing.InvokedBy machine call.config call.site.owner invoking ∧
        (tables.strings.length ≤ 2 ^ 32 →
          crossing.Served machine call.config call.site.owner invoking →
            crossing.CalledBy machine calling)

theorem ClassSite.leaves_planFunction_routes {site : ClassSite} {function : FunctionBinding}
    {method : Method} (earlier : TypePlan)
    (found : site.type.methods[function.method]? = some method) (passable : function.Passable method) :
    (site.planFunction earlier function).Leaves (site.Routes function method) := by
  intro before after plan run tables grows indexed
  unfold planFunction at run
  rcases exists_of_bind run with ⟨other, start, looked, run⟩
  rcases eq_of_lift looked with ⟨here, rfl⟩
  cases found.symm.trans (Weave.ofOption_eq_ok here)
  rcases exists_of_bind run with ⟨handle, first, handled, run⟩
  rcases exists_of_bind run with ⟨size, second, sized, run⟩
  rcases exists_of_bind run with ⟨findHandle, third, asked, run⟩
  rcases exists_of_bind run with ⟨findSize, fourth, also, run⟩
  rcases exists_of_bind run with ⟨values, fifth, valued, run⟩
  dsimp only at run
  rcases exists_of_bind run with ⟨calling, sixth, called, run⟩
  rcases exists_of_bind run with ⟨invoking, seventh, invoked, final⟩
  cases final
  -- What the tables mean at a stage is what they mean at the end.
  have sixthGrows : sixth.Grows tables := (Grows.grows invoked).trans grows
  have fifthGrows : fifth.Grows tables := (Grows.grows called).trans sixthGrows
  have secondGrows : second.Grows tables := (Grows.grows asked).trans
    ((Grows.grows also).trans ((Grows.grows valued).trans fifthGrows))
  have firstGrows : first.Grows tables := (Grows.grows sized).trans secondGrows
  let call : FunctionSite :=
    ⟨site, function, method, handle.value, size.value, values.map (·.value)⟩
  have plans : List.Forall₂ (fun binding value => CallValue.Plans value tables site.owner
      function.name call.shift binding) function.values call.values := by
    rw [List.forall₂_map_right_iff]
    exact Leaves.forall₂ (fun value _ => leaves_planValue) _ _ _ valued tables fifthGrows indexed
  have plain : call.Plain := by
    refine ⟨fun value listed => ?_, passable.directed, passable.unchecked, passable.count,
      passable.returns⟩
    rcases (exists_of_mem_forall₂ plans).2 value listed with ⟨binding, inside, plan⟩
    rw [plan.binding]
    exact passable.values binding inside
  refine ⟨call, rfl, rfl, rfl, fun classPtr => ?_, calling, invoking, ?_, ?_, ?_⟩
  · exact call.means_of_plans passable.numbered plans classPtr
      (leaves_staticSlot _ _ _ _ _ _ handled tables firstGrows indexed)
      (leaves_staticSlot _ _ _ _ _ _ sized tables secondGrows indexed)
  · exact List.mem_append_left _ (List.mem_append_right _ (List.mem_singleton_self _))
  · exact List.mem_append_right _ (List.mem_singleton_self _)
  · intro machine same crossing carries
    have invokes := FunctionSite.leaves_invokerBody plain _ _ _ invoked tables grows indexed machine
      same crossing carries
    refine ⟨invokes, fun short served => ?_⟩
    exact FunctionSite.leaves_callerBody plain _ _ _ called tables sixthGrows indexed short machine
      same crossing carries invoking served invokes

theorem FunctionSite.signature_caller (call : FunctionSite) (body : Body) :
    (call.caller body).signature = call.method.signature := by
  rw [Method.signature, ClassSite.isStatic_caller]
  rfl

theorem FunctionSite.signature_invoker (call : FunctionSite) (body : Body) :
    (call.invoker body).signature = ⟨!call.method.isStatic, [.intPtr, .intPtr], .void⟩ := by
  have static : (call.invoker body).isStatic = call.method.isStatic := by
    change hasFlag (Method.generatedFlag ||| if !call.method.isStatic then 0 else Method.staticFlag)
      Method.staticFlag = call.method.isStatic
    cases call.method.isStatic <;> decide
  rw [Method.signature, static]
  rfl

theorem FunctionSite.isTypeInitializer_invoker (call : FunctionSite) (body : Body) :
    (call.invoker body).isTypeInitializer = false := by
  have other : ((call.invoker body).name == Method.initializerName) = false :=
    beq_false_of_ne (Naming.invoker_ne_initializer call.function.name)
  rw [Method.isTypeInitializer, other, Bool.false_and]

/-! ## Woven classes -/

/-- The member that has the code of an exposed function. -/
def FunctionBinding.implementation (function : FunctionBinding) (owner : Signature)
    (method : Method) : MemberRef :=
  ⟨owner, Naming.implementation function.name, .method method.signature⟩

/-- A call of the function gives the caller the same as a call of the code that the function had: what
is returned, and what is left in the variables that are passed by reference. -/
def TypeDef.CallsThrough (now : TypeDef) (tables : Tables) (config : Config)
    (function : FunctionBinding) (method : Method) : Prop :=
  ∃ caller ∈ now.methods, ∃ invoker ∈ now.methods, ∃ calling invoking,
    caller.name = method.name ∧ caller.signature = method.signature ∧
    caller.body = some calling ∧
    invoker.name = Naming.invoker function.name ∧
    invoker.signature = ⟨!method.isStatic, [.intPtr, .intPtr], .void⟩ ∧
    invoker.body = some invoking ∧
    ∀ machine : Machine, machine.tables = tables → ∀ call : Crossing, call.function = function →
      call.receiver.isSome = !method.isStatic →
        call.Suits machine config now.signature (function.implementation now.signature method) →
          call.Served machine config now.signature invoking →
            ∀ direct : MachineState, machine.Calls (function.implementation now.signature method)
              call.arguments call.before call.result direct →
              (∀ parameter ∈ function.parameters, parameter.type.isByRef = true →
                direct.cells (call.target parameter) = call.outcome parameter) →
              ∃ final : MachineState,
                machine.Runs calling call.arguments call.before call.result final ∧
                ∀ parameter ∈ function.parameters, parameter.type.isByRef = true →
                  final.cells (call.target parameter) = direct.cells (call.target parameter)

/-- An exposed function of a woven class with plain values and without validation calls through. -/
theorem Scope.callsThrough_of_weave (scope : Scope) (result : WovenModule)
    (woven : scope.weave = .ok (.woven result)) (addressable : result.module.tables.Addressable)
    (strings : result.module.tables.strings.length ≤ 2 ^ 32) (binding : ClassBinding)
    (bound : scope.extract.bindings.findClass? binding.name = some binding) (type : TypeDef)
    (present : scope.module.types[binding.type]? = some type) (function : FunctionBinding)
    (listed : function ∈ binding.functions) (method : Method)
    (here : type.methods[function.method]? = some method)
    (plain : ∀ value ∈ function.values, value.category.isPlain = true)
    (directed : method.DirectedByTypes scope.config) (unchecked : function.hasValidation = false)
    (callable : method.isTypeInitializer = false) :
    ∃ now, result.module.types[binding.type]? = some now ∧
      now.CallsThrough result.module.tables scope.config function method := by
  rcases exists_planning_of_weave woven addressable.members bound present with
    ⟨before, after, now, planning, there, applied, within, _, _, _⟩
  have declared := (Bindings.ofClass_mem_of_findClass? bound).1
  have complete := complete_of_mem_extract declared present
  rcases (exists_of_mem_forall₂ complete.2.2.2).2 function listed with
    ⟨⟨original, index⟩, inside, binds⟩
  have stands := List.mk_mem_zipIdx_iff_getElem?.mp (List.mem_filter.mp inside).1
  have same : function.method = index := binds.method
  subst same
  cases here.symm.trans stands
  have passable := Scope.BindsFunction.passable binds plain directed unchecked
  have firstGrows : planning.start.Grows result.module.tables :=
    (Grows.grows planning.typed).trans ((Grows.grows planning.accessors).trans
      ((Grows.grows planning.constructors).trans ((Grows.grows planning.last).trans within)))
  have classPtr := ClassSite.leaves_staticSlot _ _ _ _ _ _ planning.slot _ firstGrows
    addressable.members
  have each := Leaves.forall₂ (fun (other : FunctionBinding) (_ : other ∈ binding.functions)
      before after plan run tables grows indexed (method : Method)
      (found : type.methods[other.method]? = some method) (passable : other.Passable method) =>
        ClassSite.leaves_planFunction_routes _ found passable before after plan run tables grows
          indexed) _ _ _ planning.last _ within addressable.members
  rcases (exists_of_mem_forall₂ each).1 function listed with ⟨plan, planned, routes⟩
  rcases routes method here passable with
    ⟨site, placed, rfl, rfl, means, calling, invoking, calls, invokes, works⟩
  have owner : now.signature = type.signature :=
    congrArg Signature.named (TypePlan.sameOutside_of_apply applied).qualifiedName
  have own : site.site.owner = now.signature := by rw [placed, owner]; rfl
  have configured : site.config = scope.config := by rw [FunctionSite.config, placed]
  have stays : ∀ method ∈ plan.methods, method.isTypeInitializer = false → method ∈ now.methods :=
    fun method added other => TypePlan.mem_of_apply_of_added applied planning.removed_inside
      (planning.mem_methods planned added) other
  refine ⟨now, there, site.caller calling,
    stays _ calls ((ClassSite.isTypeInitializer_caller site calling).trans callable),
    site.invoker invoking, stays _ invokes (site.isTypeInitializer_invoker invoking), calling,
    invoking, rfl, site.signature_caller calling, rfl, rfl, site.signature_invoker invoking, rfl, ?_⟩
  intro machine same call function receiver suits served direct _ left
  rw [← own, ← configured] at suits served
  have carries : site.Carries machine call :=
    ⟨same ▸ addressable, same ▸ means classPtr, function, receiver, suits⟩
  rcases works machine same call carries with ⟨_, calledBy⟩
  rcases calledBy strings served with ⟨final, runs, outcomes⟩
  refine ⟨final, runs, fun parameter listed byRef => ?_⟩
  rw [left parameter listed byRef]
  refine outcomes parameter (function ▸ listed) byRef fun other also reference together => ?_
  rw [← left parameter listed byRef, ← left other (function ▸ also) reference, together]

/-! ## A method that takes two variables -/

namespace Relay

/-- What the method does, up to its return. -/
def setting : Fragment :=
  [.loadArg 0, .constI32 1, .storeObject 0]

def marking : Attribute :=
  Arena.marking Annotation.nativeFunction []

def parameter (name : String) : Parameter where
  name := name
  type := .byRef .i32

/-- The method sets the first variable that it is handed. -/
def put : Method where
  name := "Put"
  flags := Method.staticFlag
  parameters := [parameter "first", parameter "second"]
  attributes := [marking]
  body := some (Meter.body (setting ++ [.ret]))

/-- A class with an exposed method that takes two variables. -/
def type : TypeDef where
  name := "Relay"
  namespaceName := "Game"
  flags := TypeDef.abstractFlag
  base := some (.named ⟨"Tether.Runtime", "NativeObject"⟩)
  attributes := [Arena.marking Annotation.nativeClass []]
  methods := [put]

def scope : Scope where
  context := Meter.scope.context
  module := { Module.empty "Game" with types := [type], tables := { types := [.i32] } }

def reference (name : String) (place : Nat) : MemberBinding where
  name := name
  nativeName := name
  type := .byRef .i32
  category := .scalar .i32
  flags := (scope.config.propertyFlags []).insertAll [.parameter, .referenceParameter]
  origin := .parameter place

def function : FunctionBinding where
  name := "Put"
  nativeName := "Put"
  method := 0
  flags := FunctionFlags.ofAttribute marking true
  parameters := [reference "first" 0, reference "second" 1]

def binding : ClassBinding where
  name := ⟨"Game", "Relay"⟩
  nativeName := "Relay"
  type := 0
  base := some ⟨"Tether.Runtime", "NativeObject"⟩
  isAbstract := true
  functions := [function]

def plan : TypePlan :=
  match binding.plan scope.config scope.module type scope.module.tables with
  | .ok ((plan, _), _) => plan
  | _ => {}

def tables : Tables where
  strings := ["Relay", "Put", "first", "second"]
  types := [.i32]
  members := [
    .staticField type.signature Naming.nativeClassPtr .intPtr,
    scope.config.layout .nativeType,
    .staticField type.signature "Put_NativeFunction" .intPtr,
    .staticField type.signature "Put_ParamsSize" .i32,
    scope.config.layout .functionHandle,
    scope.config.layout .functionArgumentsSize,
    .staticField type.signature "Put_first_Offset" .i32,
    scope.config.layout .propertyOffset,
    .staticField type.signature "Put_second_Offset" .i32,
    scope.config.getDefaultObject,
    scope.config.invokeNativeFunction,
    function.implementation type.signature put]

/-- The place of a value in the buffer, whose distance is in a static field. -/
def place (buffer : Instr) (offset : UInt32) : Fragment :=
  [buffer, .loadStatic offset, .plain .toNative, .plain .add]

/-- What has become of the method, up to its return. -/
def calling : Fragment :=
  .concat [
    [.loadStatic 3, .plain .localAlloc, .storeLocal 0],
    [.loadLocal 0, .constI32 0, .loadStatic 3, .plain .initBlock],
    place (.loadLocal 0) 6, [.loadArg 0, .loadObject 0, .indirect .store .i32],
    place (.loadLocal 0) 8, [.loadArg 1, .loadObject 0, .indirect .store .i32],
    [.loadStatic 0, .call 9, .loadStatic 2, .loadLocal 0, .call 10],
    [.loadArg 0], place (.loadLocal 0) 6, [.indirect .load .i32, .storeObject 0],
    [.loadArg 1], place (.loadLocal 0) 8, [.indirect .load .i32, .storeObject 0]]

/-- The code of the invoker, up to its return. -/
def invoking : Fragment :=
  .concat [
    place (.loadArg 0) 6, [.indirect .load .i32, .storeLocal 0],
    place (.loadArg 0) 8, [.indirect .load .i32, .storeLocal 1],
    [.loadLocalAddress 0, .loadLocalAddress 1, .call 11],
    place (.loadArg 0) 6, [.loadLocal 0, .indirect .store .i32],
    place (.loadArg 0) 8, [.loadLocal 1, .indirect .store .i32]]

def callingBody : Body :=
  ({ instrs := calling ++ [.ret] } : Code).toBody [.intPtr]

def invokingBody : Body :=
  ({ instrs := invoking ++ [.ret] } : Code).toBody [.i32, .i32]

/-- The class with the method in its two new roles, and with the invoker. -/
def edited : TypeDef :=
  { type with
    fields := plan.fields
    methods := [
      { put with name := "Put_Implementation", attributes := [] },
      { put with body := some callingBody },
      { name := "Invoke_Put", flags := Method.generatedFlag ||| Method.staticFlag
        parameters := [
          { name := "buffer", type := .intPtr }, { name := "returnBuffer", type := .intPtr }]
        body := some invokingBody },
      TypePlan.newInitializer [.constString 0, .call 1, .storeStatic 0, .loadStatic 0,
        .constString 1, .call 4, .storeStatic 2, .loadStatic 2, .call 5, .storeStatic 3,
        .loadStatic 2, .constString 2, .call 7, .storeStatic 6,
        .loadStatic 2, .constString 3, .call 7, .storeStatic 8]] }

theorem plan_binding : binding.plan scope.config scope.module type scope.module.tables =
    .ok ((plan, []), tables) :=
  eq_ok_of_toOption (by decide +kernel)

theorem apply_plan : plan.apply type = .ok edited :=
  eq_ok_of_toOption (by decide +kernel)

theorem extractParameter_parameter (name : String) (place : Nat) {memory : Memory}
    (answered : scope.classify .i32 {} memory = (.ok (.scalar .i32), Meter.asked)) :
    scope.extractParameter type put (parameter name) place memory =
      (⟨some (reference name place), []⟩, Meter.asked) := by
  have shaped : scope.classify (parameter name).type.stripByRef
      (.ofAttribute (scope.config.findAnnotation? [] Annotation.nativeProperty)) memory =
        (.ok (.scalar .i32), Meter.asked) := answered
  simp only [Scope.extractParameter, Scope.extractValue, Scope.extractMember, bind, StateT.bind,
    parameter] at shaped ⊢
  have passed : (parameter name).isOut = false := by
    change hasFlag 0 Parameter.outFlag = false
    decide
  have directed : Scope.directionOf (parameter name) = [.parameter, .referenceParameter] := by
    rw [Scope.directionOf, passed]
    rfl
  rw [parameter] at directed
  simp only [shaped, directed]
  rfl

theorem extractParameters_put : (put.parameters.zipIdx.mapM fun (parameter, place) =>
    scope.extractParameter type put parameter place) {} =
      ([⟨some (reference "first" 0), []⟩, ⟨some (reference "second" 1), []⟩], Meter.asked) := by
  have anew : scope.classify .i32 {} {} = (.ok (.scalar .i32), Meter.asked) := by
    rw [Scope.classify, Scope.classifyWith, Scope.classifyAnew]
    rfl
  have again : scope.classify .i32 {} Meter.asked = (.ok (.scalar .i32), Meter.asked) := by
    rw [Scope.classify, Scope.classifyWith]
    rfl
  have listed : put.parameters.zipIdx = [(parameter "first", 0), (parameter "second", 1)] := rfl
  rw [listed, List.mapM_cons]
  simp only [bind, StateT.bind, List.mapM_cons, extractParameter_parameter "first" 0 anew,
    extractParameter_parameter "second" 1 again]
  rfl

theorem extractFunction_put :
    scope.extractFunction type put 0 {} = (⟨some function, []⟩, Meter.asked) := by
  have found : scope.config.findAnnotation? put.attributes Annotation.nativeFunction =
      some marking := by decide
  have nothing : scope.extractResult type put Meter.asked = (.nothing, Meter.asked) := rfl
  have silent : Scope.functionFindings type put (.ofAttribute marking put.isStatic) = [] := by
    decide +kernel
  have labelled : Rule.checkCategoryLabel type put.name
      ((FunctionFlags.ofAttribute marking put.isStatic).has .callable)
      (marking.text? Annotation.categoryArgument) (put.source.or type.source) = [] := by
    decide +kernel
  simp only [Scope.extractFunction, found, Scope.extractAnnotated, bind, StateT.bind,
    extractParameters_put, nothing, silent, FunctionBinding.violations, Rule.all, List.flatMap_cons,
    Rule.checkFunction, labelled]
  rw [if_neg (by exact Bool.false_ne_true)]
  rfl

theorem derivesFromRoot_type : scope.derivesFromRoot type.qualifiedName = true :=
  Scope.derivesFromRoot_of_base? (by decide)

theorem extract_scope : scope.extract = ⟨[.ofClass binding], []⟩ := by
  have functions : (type.methods.zipIdx.mapM fun (method, place) =>
      scope.extractFunction type method place) {} = ([⟨some function, []⟩], Meter.asked) :=
    Scope.mapM_zipIdx_singleton rfl extractFunction_put
  have properties : (type.properties.zipIdx.mapM fun (property, place) =>
      scope.extractProperty type property place) {} = ([], {}) := rfl
  have derived : scope.extractDerived 0 type {} = (⟨some binding, []⟩, Meter.asked) := by
    simp only [Scope.extractDerived, bind, StateT.bind, functions, properties]
    rfl
  exact Scope.extract_eq_singleton rfl (Scope.examine_eq_ofClass (by decide) rfl (by decide)
    derivesFromRoot_type rfl derived)

theorem verify_edited : ∀ method ∈ edited.methods, method.verify tables = .ok () := by
  simp only [edited, List.forall_mem_cons]
  refine ⟨?_, ?_, ?_, ?_, List.forall_mem_nil _⟩ <;> cbv

theorem soleClass : scope.SoleClass type edited binding plan tables where
  fresh := rfl
  types := rfl
  extracted := extract_scope
  place := rfl
  name := rfl
  rootward base same := by
    cases same
    decide
  supported := rfl
  hashed := ⟨_, rfl⟩
  planned := plan_binding
  applied := apply_plan
  verified := TypePlan.verifyTouched_of_verify verify_edited

/-! ### Machines for it -/

/-- A machine that runs the code of the method, and has calls of native code answered by an invoker. -/
def machine (invoker : Body) : Machine where
  tables := tables
  shape _ := .primitive .i32
  fits _ := Shape.size_primitive_le .i32
  initial _ := .null
  conforms _ _ := true
  actual member _ := member
  allocate _ state := (.null, state)
  answer member passed state :=
    if member = function.implementation type.signature put then
      .runs (Meter.body (setting ++ [.ret])) passed
    else if member = scope.config.getDefaultObject then
      .returns (some (.integer 4096)) state
    else if member = scope.config.invokeNativeFunction then
      .runs invoker [passed.getD 2 .null, .integer 0]
    else
      .fails

/-- The state in which the second variable of a frame holds five, and other variables hold nothing. -/
def state : MachineState where
  memory _ := 0
  cells place := .integer (if place = .localVariable 0 1 then 5 else 0)
  statics member := .integer <|
    if member = .staticField type.signature "Put_ParamsSize" .i32 then 8
    else if member = .staticField type.signature "Put_second_Offset" .i32 then 4
    else 0
  frames := 1
  extent := 0

/-- A call with the first variable of the frame and with a variable for the second parameter. -/
def crossing (other : Cell) : Crossing where
  function := function
  before := state
  receiver := none
  given _ := .null
  target value := if value.name = "first" then .localVariable 0 0 else other
  outcome value := if value.name = "first" then .integer 1 else state.cells other
  native := 4096
  handle := .integer 0
  size := 8
  distance value := if value.name = "first" then 0 else 4
  width _ := 0

theorem forall_parameters {holds : MemberBinding → Prop} :
    (∀ parameter ∈ function.parameters, holds parameter) ↔
      holds (reference "first" 0) ∧ holds (reference "second" 1) := by
  rw [function, List.forall_mem_cons, List.forall_mem_singleton]

theorem forall_values {holds : MemberBinding → Prop} :
    (∀ value ∈ function.values, holds value) ↔
      holds (reference "first" 0) ∧ holds (reference "second" 1) :=
  forall_parameters

variable (invoker : Body) (other : Cell)

/-- The code of the method sets the first variable. -/
theorem calls_put (first second : Cell) (before : MachineState) :
    (machine invoker).Calls (function.implementation type.signature put)
      [.reference first, .reference second] before none
      ((before.enter [.reference first, .reference second] []).setVariable first (.integer 1)) := by
  have passes : (machine invoker).Passes before.frames setting []
      (before.enter [.reference first, .reference second] []) []
      ((before.enter [.reference first, .reference second] []).setVariable first (.integer 1)) :=
    (Machine.passes_loadArg (before.enter_argument _ _ _)).append
      (.cons ⟨0, rfl⟩ (.cons ⟨0, rfl⟩ .nil))
  have runs : (machine invoker).Runs (Meter.body (setting ++ [.ret]))
      [.reference first, .reference second] before (List.head? [])
      ((before.enter [.reference first, .reference second] []).setVariable first (.integer 1)) :=
    Machine.runs_of_passes passes
  rcases runs with ⟨fuel, run⟩
  refine ⟨fuel, ?_⟩
  have answered : (machine invoker).answer (function.implementation type.signature put)
      [.reference first, .reference second] before =
        .runs (Meter.body (setting ++ [.ret])) [.reference first, .reference second] := rfl
  rw [Machine.callWith, answered]
  exact run

theorem served : (crossing other).Served (machine invoker) scope.config type.signature invoker where
  receiver := by rintro _ ⟨⟩
  default _ later := rfl
  event := by rintro _ ⟨⟩
  handle _ := rfl
  size := rfl
  lays := forall_values.mpr ⟨⟨rfl, by rintro ⟨⟩⟩, ⟨rfl, by rintro ⟨⟩⟩⟩
  room := by change 0 + 8 ≤ 2 ^ 64; decide
  invokes := ⟨0, by rintro _ ⟨⟩, fun later => rfl⟩

theorem spreads : (crossing other).Spreads (machine invoker) where
  inside := forall_values.mpr ⟨by change 0 + 4 ≤ 8; decide, by change 4 + 4 ≤ 8; decide⟩
  apart := List.pairwise_pair.mpr (.inl (by change 0 + 4 ≤ 4; decide))

theorem marshals : ∀ value ∈ function.values, value.category.needsWidth = true →
    (machine invoker).MarshalsTruths scope.config ((crossing other).width value) :=
  forall_values.mpr ⟨by rintro ⟨⟩, by rintro ⟨⟩⟩

/-- Called with two variables, the method sets the first one and leaves the second one as it is. -/
theorem suits : (crossing (.localVariable 0 1)).Suits (machine invoker) scope.config type.signature
    (function.implementation type.signature put) where
  spreads := spreads _ _
  typed := by
    have none : NativeKind.i32.Holds (.integer 0) := ⟨by decide, by decide⟩
    have one : NativeKind.i32.Holds (.integer 1) := ⟨by decide, by decide⟩
    have five : NativeKind.i32.Holds (.integer 5) := ⟨by decide, by decide⟩
    exact ⟨forall_parameters.mpr ⟨fun _ => Nat.zero_lt_one, fun _ => Nat.zero_lt_one⟩,
      forall_parameters.mpr ⟨fun _ => none, fun _ => five⟩, forall_parameters.mpr ⟨one, five⟩⟩
  transparent later frame since _ begun holds := by
    have apart : Cell.localVariable frame 1 ≠ .localVariable frame 0 := by rintro ⟨⟩
    have entered := (MachineState.Extends.refl later).enter
      [.reference (.localVariable frame 0), .reference (.localVariable frame 1)] []
    refine ⟨_, calls_put invoker _ _ later, ?_, fun cell _ before other => ?_, ?_⟩
    · rintro (_ | _ | index) parameter here _
      · cases here
        exact MachineState.setVariable_cells_self _ _ _
      · cases here
        rw [MachineState.setVariable_cells_of_ne apart, entered.cells (.localVariable frame 1) begun]
        exact holds 1 _ rfl rfl rfl
      · cases here
    · rw [MachineState.setVariable_cells_of_ne (other 0), entered.cells _ before]
    · exact (served invoker _).lays.congr since.statics
  marshals := marshals _ _
  actual _ := rfl

theorem addressable_tables : tables.Addressable :=
  ⟨by rw [Tables.Indexed]; decide, by decide⟩

theorem findClass?_binding :
    scope.extract.bindings.findClass? binding.name = some binding := by
  rw [extract_scope]
  rfl

theorem directed_put : put.DirectedByTypes scope.config := by
  have each : ∀ name, (parameter name).isOut = true → (parameter name).type.isByRef = true :=
    fun _ _ => rfl
  intro given listed
  simp only [put, List.mem_cons, List.not_mem_nil, or_false] at listed
  rcases listed with rfl | rfl <;> exact ⟨each _, by decide⟩

theorem signature_edited : edited.signature = type.signature := by
  rw [TypeDef.signature, TypeDef.qualifiedName]
  rfl

end Relay

/-- The method is called on two variables of its caller, and the first one is set. -/
theorem Scope.callsThrough_of_weave_relay :
    ∃ result, Relay.scope.weave = .ok (.woven result) ∧ result.module.tables.Addressable ∧
      result.module.tables.strings.length ≤ 2 ^ 32 ∧
      Relay.scope.extract.bindings.findClass? Relay.binding.name = some Relay.binding ∧
      Relay.scope.module.types[Relay.binding.type]? = some Relay.type ∧
      Relay.function ∈ Relay.binding.functions ∧
      Relay.type.methods[Relay.function.method]? = some Relay.put ∧
      (∀ value ∈ Relay.function.values, value.category.isPlain = true) ∧
      Relay.put.DirectedByTypes Relay.scope.config ∧ Relay.function.hasValidation = false ∧
      Relay.put.isTypeInitializer = false ∧
      ∃ now, result.module.types[Relay.binding.type]? = some now ∧
        ∃ caller ∈ now.methods, ∃ calling, caller.name = "Put" ∧ caller.body = some calling ∧
          ∃ invoker final, (Relay.machine invoker).Runs calling
              [.reference (.localVariable 0 0), .reference (.localVariable 0 1)] Relay.state none
              final ∧
            final.cells (.localVariable 0 0) = .integer 1 ∧
            final.cells (.localVariable 0 1) = .integer 5 := by
  rcases Relay.soleClass.exists_woven with ⟨result, woven, types, tables⟩
  have addressable : result.module.tables.Addressable := tables ▸ Relay.addressable_tables
  have strings : result.module.tables.strings.length ≤ 2 ^ 32 := by
    rw [tables]
    decide
  have listed : Relay.function ∈ Relay.binding.functions := List.mem_singleton_self _
  have plain : ∀ value ∈ Relay.function.values, value.category.isPlain = true :=
    Relay.forall_values.mpr ⟨rfl, rfl⟩
  have unchecked : Relay.function.hasValidation = false := by decide
  have callable : Relay.put.isTypeInitializer = false := by decide
  rcases Scope.callsThrough_of_weave Relay.scope result woven addressable strings Relay.binding
      Relay.findClass?_binding Relay.type rfl Relay.function listed Relay.put rfl plain
      Relay.directed_put unchecked callable with
    ⟨now, there, caller, inside, invoker, _, calling, invoking, name, _, code, _, _, _, works⟩
  refine ⟨result, woven, addressable, strings, Relay.findClass?_binding, rfl, listed, rfl, plain,
    Relay.directed_put, unchecked, callable, now, there, caller, inside, calling, name, code,
    invoking, ?_⟩
  have same : now.signature = Relay.type.signature := by
    rw [types] at there
    cases there
    exact Relay.signature_edited
  rw [same] at works
  have direct := Relay.calls_put invoking (.localVariable 0 0) (.localVariable 0 1) Relay.state
  rcases works (Relay.machine invoking) tables.symm (Relay.crossing (.localVariable 0 1)) rfl rfl
      (Relay.suits invoking) (Relay.served invoking _) _ direct
      (Relay.forall_parameters.mpr ⟨fun _ => rfl, fun _ => rfl⟩) with ⟨final, runs, left⟩
  rw [Relay.forall_parameters] at left
  exact ⟨final, runs, left.1 rfl, left.2 rfl⟩

namespace Relay

/-- The invoker writes back the second variable after the first one. -/
theorem runs_callingBody : ∃ final, (machine invokingBody).Runs callingBody
    [.reference (.localVariable 0 0), .reference (.localVariable 0 0)] state none final ∧
      final.cells (.localVariable 0 0) = .integer 0 := by
  have run : ((machine invokingBody).enter ((machine invokingBody).execute 64) callingBody
      [.reference (.localVariable 0 0), .reference (.localVariable 0 0)] state).map
        (fun ended => (ended.1, ended.2.cells (.localVariable 0 0))) = some (none, .integer 0) := by
    decide +kernel
  rcases Option.map_eq_some_iff.mp run with ⟨⟨result, final⟩, ends, same⟩
  cases (Prod.mk.inj same).1
  exact ⟨final, ⟨64, ends⟩, (Prod.mk.inj same).2⟩

end Relay

/-- A call of the method with one variable for both parameters leaves in it what was there before, which
the invoker hands back for the second parameter.  A call of the code that the method had sets it. -/
theorem Scope.not_callsThrough_relay :
    ∃ result, Relay.scope.weave = .ok (.woven result) ∧ result.module.tables.Addressable ∧
      result.module.tables.strings.length ≤ 2 ^ 32 ∧
      Relay.scope.extract.bindings.findClass? Relay.binding.name = some Relay.binding ∧
      Relay.scope.module.types[Relay.binding.type]? = some Relay.type ∧
      Relay.function ∈ Relay.binding.functions ∧
      Relay.type.methods[Relay.function.method]? = some Relay.put ∧
      (∀ value ∈ Relay.function.values, value.category.isPlain = true) ∧
      Relay.put.DirectedByTypes Relay.scope.config ∧ Relay.function.hasValidation = false ∧
      Relay.put.isTypeInitializer = false ∧
      ∃ now, result.module.types[Relay.binding.type]? = some now ∧
        ∃ caller ∈ now.methods, ∃ invoker ∈ now.methods, ∃ implementation ∈ now.methods,
          ∃ calling invoking code, caller.name = "Put" ∧ caller.body = some calling ∧
            invoker.name = "Invoke_Put" ∧ invoker.body = some invoking ∧
            implementation.name = "Put_Implementation" ∧ implementation.body = some code ∧
            (∀ passed state, (Relay.machine invoking).answer
              (Relay.function.implementation now.signature Relay.put) passed state =
                .runs code passed) ∧
            ∃ call : Crossing, call.function = Relay.function ∧ call.Spreads (Relay.machine invoking) ∧
              call.Served (Relay.machine invoking) Relay.scope.config now.signature invoking ∧
              ∃ direct final,
                (Relay.machine invoking).Calls
                  (Relay.function.implementation now.signature Relay.put) call.arguments call.before
                  none direct ∧
                (Relay.machine invoking).Runs calling call.arguments call.before none final ∧
                call.target (Relay.reference "first" 0) = .localVariable 0 0 ∧
                direct.cells (.localVariable 0 0) = .integer 1 ∧
                final.cells (.localVariable 0 0) = .integer 0 := by
  rcases Relay.soleClass.exists_woven with ⟨result, woven, types, tables⟩
  have there : result.module.types[Relay.binding.type]? = some Relay.edited := by
    rw [types]
    rfl
  rcases Relay.runs_callingBody with ⟨final, runs, left⟩
  refine ⟨result, woven, tables ▸ Relay.addressable_tables, by rw [tables]; decide,
    Relay.findClass?_binding, rfl, List.mem_singleton_self _, rfl,
    Relay.forall_values.mpr ⟨rfl, rfl⟩, Relay.directed_put, by decide, by decide, Relay.edited, there,
    ?_⟩
  rw [Relay.signature_edited]
  refine ⟨_, List.mem_cons_of_mem _ List.mem_cons_self, _,
    List.mem_cons_of_mem _ (List.mem_cons_of_mem _ List.mem_cons_self), _, List.mem_cons_self,
    Relay.callingBody, Relay.invokingBody, Meter.body (Relay.setting ++ [.ret]), rfl, rfl, rfl, rfl,
    rfl, rfl, fun _ _ => rfl, Relay.crossing (.localVariable 0 0), rfl, Relay.spreads _ _,
    Relay.served _ _, _, final, Relay.calls_put _ _ _ _, runs, rfl,
    MachineState.setVariable_cells_self _ _ _, left⟩

end NativeWeave
