import NativeWeave.Proofs.Binding.Observation
import NativeWeave.Proofs.Editing.Constructors
import NativeWeave.Proofs.Editing.Coverage
import NativeWeave.Proofs.Editing.Withdrawal

namespace NativeWeave

/-!
# The code of constructors in hashes

The hash of a class covers the code by which its objects are made as it is stored, with the indices
that its instructions have for texts, members and types.  Classes that are described alike have the
same hash if their constructors have the same instructions, and unless two of the hashed texts
collide only then.  What the indices mean in the tables of the module is not hashed.
-/

/-! ## Constructors are read -/

namespace ClassSite

variable {site : ClassSite} {backing : Backing} {effects : List ConstructionEffect} {index : Nat}
  {method : Method} {before after : Tables} {planned : TypePlan × List Diagnostic}

theorem exists_toCode_of_planConstructor {body : Body}
    (run : site.planConstructor backing effects index method before = .ok (planned, after))
    (bodied : method.body = some body) : ∃ code, body.toCode = .ok code := by
  unfold planConstructor at run
  rw [bodied] at run
  rcases bind_eq_ok_iff.mp run with ⟨⟨code, middle⟩, loaded, _⟩
  rcases bind_eq_ok_iff.mp loaded with ⟨_, decoded, _⟩
  exact ⟨_, eq_ok_of_mapError decoded⟩

theorem exists_toCode_of_planConstructors {body : Body}
    (run : site.planConstructors backing effects before = .ok (planned, after))
    (listed : (index, method) ∈ site.type.constructors) (bodied : method.body = some body) :
    ∃ code, body.toCode = .ok code := by
  unfold planConstructors at run
  rcases Emit.exists_of_bind run with ⟨parts, middle, each, _⟩
  rcases List.mem_iff_append.mp listed with ⟨front, back, split⟩
  rw [split] at each
  rcases Emit.exists_of_mapM_append each with ⟨_, _, _, _, _, _, own, _⟩
  exact exists_toCode_of_planConstructor own bodied

end ClassSite

namespace ConstructorShapes

theorem mem_of_single? {indices : List Nat} {index : Nat} (only : single? indices = some index) :
    index ∈ indices := by
  unfold single? at only
  split at only
  · cases only
    exact List.mem_singleton_self _
  · cases only

/-- The constructor by which objects are made is one of the constructors. -/
theorem exists_mem_constructors {type : TypeDef} {index : Nat}
    (only : single? (ofType type).construction = some index) :
    ∃ method, (index, method) ∈ type.constructors := by
  rcases List.mem_map.mp (mem_of_single? only) with ⟨⟨place, method⟩, listed, rfl⟩
  exact ⟨method, (List.mem_filter.mp listed).1⟩

end ConstructorShapes

namespace Scope

open Remembering

variable {scope : Scope} {result : WovenModule} {type : TypeDef} {index : Nat}

theorem construction_extractClass : Gives (scope.extractClass index type) fun found =>
    ∀ binding ∈ found.binding, ∀ place, binding.construction = some place →
      ∃ method, (place, method) ∈ type.constructors := by
  unfold extractClass
  split
  · refine .after fun members => .after fun functions => .pure fun binding found => ?_
    rw [← eq_of_mem_unless found]
    exact fun place => ConstructorShapes.exists_mem_constructors
  · exact .pure fun _ impossible => nomatch impossible

theorem construction_of_mem_extract {binding : ClassBinding}
    (member : .ofClass binding ∈ scope.extract.bindings)
    (present : scope.module.types[binding.type]? = some type) :
    ∀ place, binding.construction = some place → ∃ method, (place, method) ∈ type.constructors :=
  @Scope.forall_mem_extract scope type
    (fun type binding => ∀ declared, binding = .ofClass declared →
      ∀ place, declared.construction = some place → ∃ method, (place, method) ∈ type.constructors)
    (fun _ _ _ _ _ impossible => nomatch impossible)
    (fun _ _ _ _ _ => fun _ _ _ _ impossible => nomatch impossible)
    (fun _ _ _ _ => fun memory binding found declared same => by
      cases same
      exact construction_extractClass memory binding found)
    (.ofClass binding) member present binding rfl

/-- The code by which objects of a woven class are made can be read. -/
theorem exists_decode_constructorCode (woven : scope.weave = .ok (.woven result))
    {binding : ClassBinding}
    (found : scope.extract.bindings.findClass? binding.name = some binding) :
    ∃ code, Code.decode (binding.constructorCode scope.module) = .ok code := by
  have nothing : ∃ code, Code.decode [] = .ok code := ⟨_, rfl⟩
  unfold ClassBinding.constructorCode
  cases present : scope.module.types[binding.type]? with
  | none => exact nothing
  | some type =>
    cases constructs : binding.construction with
    | none => exact nothing
    | some index =>
      have member := (Bindings.ofClass_mem_of_findClass? found).1
      rcases construction_of_mem_extract member present index constructs with ⟨method, listed⟩
      simp only [Option.bind_some, ClassSite.getElem?_of_mem_constructors listed]
      cases bodied : method.body with
      | none => exact nothing
      | some body =>
        rcases types_of_weave woven with ⟨_, _, _, classes⟩
        rcases @classes (.ofClass binding) type found trivial present with
          ⟨_, _, _, _, plans, _, _⟩
        cases plans with | @ofClass _ _ _ _ _ _ made _ =>
        rcases ClassBinding.exists_planning made with ⟨planning, _⟩
        rcases ClassSite.exists_toCode_of_planConstructors planning.constructors listed bodied with
          ⟨_, read⟩
        rcases bind_eq_ok_iff.mp read with ⟨code, decoded, _⟩
        exact ⟨code, decoded⟩

end Scope

/-! ## Hashes in reports -/

namespace Bindings

/-- The first binding of a kind and a name is found among those of the kind. -/
theorem find?_eq_map {Binding : Type} {kind : NativeTypeKind} {name : QualifiedName}
    {pick : TypeBinding → Option Binding} {whole : Binding → TypeBinding}
    {nameOf : Binding → QualifiedName} (bindings : Bindings)
    (picks : ∀ binding one, pick binding = some one → binding = whole one)
    (tells : ∀ binding : TypeBinding,
      (binding.kind = kind ∧ binding.name = name) ↔ (pick binding).any (nameOf · == name) = true) :
    bindings.find? (fun binding => binding.kind = kind ∧ binding.name = name) =
      ((bindings.filterMap pick).find? (nameOf · == name)).map whole := by
  have tests : (fun binding : TypeBinding => decide (binding.kind = kind ∧ binding.name = name)) =
      fun binding => (pick binding).any (nameOf · == name) := by
    funext binding
    rw [Bool.eq_iff_iff, decide_eq_true_iff, tells]
  rw [tests, List.find?_filterMap]
  cases found : List.find? _ bindings with
  | none => rfl
  | some binding =>
    have passes := List.find?_some found
    cases picked : pick binding with
    | none =>
      rw [picked] at passes
      cases passes
    | some one => rw [Option.bind_some, picked, Option.map_some, picks binding one picked]

theorem find?_classType (bindings : Bindings) (name : QualifiedName) :
    bindings.find? (fun binding => binding.kind = .classType ∧ binding.name = name) =
      (bindings.findClass? name).map .ofClass := by
  refine find?_eq_map bindings (fun binding one picked => ?_) fun binding => ?_
  · cases binding <;> cases picked
    rfl
  · cases binding <;> simp [TypeBinding.kind, TypeBinding.name, TypeBinding.class?]

theorem find?_structType (bindings : Bindings) (name : QualifiedName) :
    bindings.find? (fun binding => binding.kind = .structType ∧ binding.name = name) =
      (bindings.findStruct? name).map .ofStruct := by
  refine find?_eq_map bindings (fun binding one picked => ?_) fun binding => ?_
  · cases binding <;> cases picked
    rfl
  · cases binding <;> simp [TypeBinding.kind, TypeBinding.name, TypeBinding.struct?]

end Bindings

namespace Report

/-- What is reported of the type of a kind and a name. -/
def type? (report : Report) (kind : NativeTypeKind) (name : QualifiedName) : Option TypeReport :=
  report.types.find? fun type => type.kind = kind ∧ type.name = name

/-- The reported hash of the type of a kind and a name. -/
def hash? (report : Report) (kind : NativeTypeKind) (name : QualifiedName) : Option String :=
  (report.type? kind name).map (·.hash)

/-- The reported hash of the base class of a class. -/
def baseHash? (report : Report) (name : QualifiedName) : Option String :=
  (report.type? .classType name).bind (·.baseHash)

/-- The hash of the struct that a member refers to: the reported one if the struct is annotated, and
otherwise the one that the member has itself. -/
def nested? (report : Report) (member : MemberBinding) : Option String :=
  match member.category.embedded?.bind (report.hash? .structType) with
  | some hash => some hash
  | none => member.hashOverride

def describeMember (report : Report) (member : MemberBinding) : Json :=
  member.description (report.nested? member)

def describeFunction (report : Report) (function : FunctionBinding) : Json :=
  .object [
    ("name", .string function.name),
    ("flags", .ofNat function.flags.bits.toNat),
    ("values", .array (function.values.map report.describeMember))]

/-- What is told of a class apart from its constructor: its names, members and functions with the
hashes of the structs inside, and the hash of its base class. -/
def describeClass (report : Report) (binding : ClassBinding) : Json :=
  typeDescription .classType binding.name binding.nativeName
    (binding.members.map report.describeMember) (binding.functions.map report.describeFunction)
    (report.baseHash? binding.name)

variable {known : Fingerprints} {report : Report} {bindings : Bindings} {name : QualifiedName}
  {module : String} {source : Module}

/-- The first result that passes a test is that of the first item, where the test can be made on the
items as well. -/
theorem find?_of_mapM {Item Result Cause : Type} {step : Item → Except Cause Result}
    {items : List Item} {results : List Result} {test : Result → Bool} {other : Item → Bool}
    (alike : ∀ item result, step item = .ok result → test result = other item)
    (run : items.mapM step = .ok results) :
    results.find? test = (items.find? other).bind fun item => (step item).toOption := by
  induction items generalizing results with
  | nil =>
    cases run
    rfl
  | cons item more ih =>
    rw [List.mapM_cons] at run
    rcases bind_eq_ok_iff.mp run with ⟨first, head, run⟩
    rcases bind_eq_ok_iff.mp run with ⟨others, tail, final⟩
    cases final
    rw [List.find?_cons, List.find?_cons, alike item first head]
    cases other item with
    | true =>
      rw [Option.bind_some, head]
      rfl
    | false => exact ih tail

theorem type?_eq_bind (reported : ofBindings known module bindings = .ok report)
    (kind : NativeTypeKind) (name : QualifiedName) : report.type? kind name =
      (bindings.find? fun binding => binding.kind = kind ∧ binding.name = name).bind fun binding =>
        (TypeReport.ofBinding known module binding).toOption := by
  rcases bind_eq_ok_iff.mp reported with ⟨types, each, final⟩
  cases final
  refine find?_of_mapM (fun binding type told => ?_) each
  have same : type.kind = binding.kind ∧ type.name = binding.name := by
    unfold TypeReport.ofBinding at told
    dsimp only at told
    split at told
    · split at told <;> cases told
      exact ⟨rfl, rfl⟩
    · split at told <;> cases told
      exact ⟨rfl, rfl⟩
    · cases told
      exact ⟨rfl, rfl⟩
  rw [same.1, same.2]

theorem type?_classType (reported : ofBindings known module bindings = .ok report)
    (name : QualifiedName) : report.type? .classType name =
      (bindings.findClass? name).bind fun binding =>
        (TypeReport.ofBinding known module (.ofClass binding)).toOption := by
  rw [type?_eq_bind reported, Bindings.find?_classType, Option.bind_map]
  rfl

theorem type?_structType (reported : ofBindings known module bindings = .ok report)
    (name : QualifiedName) : report.type? .structType name =
      (bindings.findStruct? name).bind fun binding =>
        (TypeReport.ofBinding known module (.ofStruct binding)).toOption := by
  rw [type?_eq_bind reported, Bindings.find?_structType, Option.bind_map]
  rfl

variable (reported : ofBindings known module bindings = .ok report)
include reported

/-- The hash that is known of a class is reported, and so is that of its base class. -/
theorem exists_classHashes {binding : ClassBinding}
    (found : bindings.findClass? binding.name = some binding)
    (recorded : (known.class? binding.name).isSome = true) :
    ∃ hashes, known.class? binding.name = some hashes ∧
      report.hash? .classType binding.name = some hashes.own ∧
      report.baseHash? binding.name = hashes.base := by
  rcases Option.isSome_iff_exists.mp recorded with ⟨hashes, same⟩
  have told := type?_classType reported binding.name
  rw [found, Option.bind_some, TypeReport.ofBinding] at told
  simp only [same] at told
  refine ⟨hashes, same, ?_, ?_⟩
  · rw [hash?, told]
    rfl
  · rw [baseHash?, told]
    rfl

/-- The hashes that are known of structs are those that are reported. -/
theorem hash?_structType (settled : known.Settled bindings source)
    (recorded : ∀ name, (bindings.findStruct? name).isSome = true →
      (known.struct? name).isSome = true) (name : QualifiedName) :
    report.hash? .structType name = known.struct? name := by
  rw [hash?, type?_structType reported]
  cases found : bindings.findStruct? name with
  | none =>
    cases told : known.struct? name with
    | none => rfl
    | some hash =>
      rcases settled.structs told with ⟨binding, _, found', _⟩
      cases found.symm.trans found'
  | some binding =>
    rcases Option.isSome_iff_exists.mp (recorded name (Option.isSome_of_eq_some found)) with
      ⟨hash, same⟩
    have named := (Bindings.ofStruct_mem_of_findStruct? found).2
    rw [Option.bind_some, TypeReport.ofBinding, named, same]
    rfl

/-- What hashes are taken over can be told from the report. -/
theorem nested_eq (settled : known.Settled bindings source)
    (recorded : ∀ name, (bindings.findStruct? name).isSome = true →
      (known.struct? name).isSome = true) (owner : QualifiedName) (member : MemberBinding) :
    known.nested bindings owner member = .ok (report.nested? member) := by
  have hashes := hash?_structType reported settled recorded
  unfold nested? Fingerprints.nested
  cases inside : member.category.embedded? with
  | none => rfl
  | some inner =>
    rw [Option.bind_some, hashes]
    by_cases bound : (bindings.findStruct? inner).isSome = true
    · rcases Option.isSome_iff_exists.mp (recorded inner bound) with ⟨hash, same⟩
      simp only [Option.filter_some, bound, same, if_true]
    · have unknown : known.struct? inner = none := by
        cases told : known.struct? inner with
        | none => rfl
        | some hash =>
          rcases settled.structs told with ⟨binding, _, found, _⟩
          exact absurd (Option.isSome_of_eq_some found) bound
      simp only [Option.filter_some, bound, unknown]
      rfl

theorem members_eq (settled : known.Settled bindings source)
    (recorded : ∀ name, (bindings.findStruct? name).isSome = true →
      (known.struct? name).isSome = true) (owner : QualifiedName) (values : List MemberBinding) :
    known.members bindings owner values = .ok (values.map report.describeMember) := by
  refine mapM_eq_ok_map fun member _ => ?_
  rw [nested_eq reported settled recorded owner member]
  rfl

theorem describeClass_eq (settled : known.Settled bindings source)
    (recorded : ∀ name, (bindings.findStruct? name).isSome = true →
      (known.struct? name).isSome = true) {binding : ClassBinding}
    (based : known.baseHash bindings binding = .ok (report.baseHash? binding.name)) :
    known.describeClass bindings binding = .ok (report.describeClass binding) := by
  have members := members_eq reported settled recorded
  have functions : binding.functions.mapM (known.function bindings binding.name) =
      .ok (binding.functions.map report.describeFunction) := by
    refine mapM_eq_ok_map fun function _ => ?_
    rw [Fingerprints.function, members]
    rfl
  rw [Fingerprints.describeClass, based, ok_bind, functions, ok_bind, members]
  rfl

end Report

namespace Scope

variable {scope other : Scope} {result result' : WovenModule}

/-- The hash of a class is the digest of what is told of it in the report, and of the code by which
its objects are made. -/
theorem hash_of_weave (woven : scope.weave = .ok (.woven result)) {binding : ClassBinding}
    (found : scope.extract.bindings.findClass? binding.name = some binding) :
    ∃ known, scope.extract.bindings.fingerprints scope.module = .ok known ∧
      known.baseHash scope.extract.bindings binding =
        .ok (result.report.baseHash? binding.name) ∧
      known.describeClass scope.extract.bindings binding =
        .ok (result.report.describeClass binding) ∧
      result.report.hash? .classType binding.name = some
        (digest (result.report.describeClass binding) (binding.constructorCode scope.module)) := by
  rcases exists_report_of_weave woven with ⟨progress, run, _, reported, _⟩
  have hashed := Bindings.fingerprints_of_process run
  have settled := (Bindings.grown_of_fingerprints hashed).settled
  rcases Bindings.recorded_of_fingerprints hashed with ⟨structs, classes⟩
  rcases Report.exists_classHashes reported found
    (classes binding.name (Option.isSome_of_eq_some found)) with ⟨hashes, same, own, base⟩
  rcases settled.classes same with ⟨declared, description, found', based, described, digested⟩
  cases found.symm.trans found'
  rw [← base] at based
  have told := Report.describeClass_eq reported settled structs based
  cases described.symm.trans told
  exact ⟨progress.known, hashed, based, told, by rw [own, digested]⟩

theorem preimage_mem_hashedTexts (woven : scope.weave = .ok (.woven result))
    {binding : ClassBinding}
    (found : scope.extract.bindings.findClass? binding.name = some binding) :
    preimage (result.report.describeClass binding) (binding.constructorCode scope.module) ∈
      scope.hashedTexts := by
  rcases hash_of_weave woven found with ⟨known, hashed, _, told, _⟩
  rw [hashedTexts, hashed]
  refine List.mem_filterMap.mpr ⟨_, (Bindings.ofClass_mem_of_findClass? found).1, ?_⟩
  rw [Fingerprints.describe, told]
  rfl

end Scope

/-- Unless two of the hashed texts collide, classes of two woven modules of which the same is told
have the same hash exactly if their objects are made by the same instructions, with the indices of
texts, members and types as they stand.  A class without a constructor for that counts as one
without instructions.  So a change of nothing but the tables leaves the hash as it is. -/
theorem ClassBinding.hash_eq_iff_of_weave {scope other : Scope} {result result' : WovenModule}
    (woven : scope.weave = .ok (.woven result)) (woven' : other.weave = .ok (.woven result'))
    (free : Set.InjOn sha256 {text | text ∈ scope.hashedTexts ∨ text ∈ other.hashedTexts})
    {binding binding' : ClassBinding}
    (found : scope.extract.bindings.findClass? binding.name = some binding)
    (found' : other.extract.bindings.findClass? binding'.name = some binding')
    (alike : result.report.describeClass binding = result'.report.describeClass binding') :
    ∃ hash hash' code code', result.report.hash? .classType binding.name = some hash ∧
      result'.report.hash? .classType binding'.name = some hash' ∧
      Code.decode (binding.constructorCode scope.module) = .ok code ∧
      Code.decode (binding'.constructorCode other.module) = .ok code' ∧
      (hash = hash' ↔ code.instrs = code'.instrs) ∧
      (binding.type = binding'.type → binding.construction = binding'.construction →
        scope.module.types = other.module.types → hash = hash') := by
  rcases Scope.hash_of_weave woven found with ⟨_, _, _, _, own⟩
  rcases Scope.hash_of_weave woven' found' with ⟨_, _, _, _, own'⟩
  have text := Scope.preimage_mem_hashedTexts woven found
  have text' := Scope.preimage_mem_hashedTexts woven' found'
  rcases Scope.exists_decode_constructorCode woven found with ⟨code, read⟩
  rcases Scope.exists_decode_constructorCode woven' found' with ⟨code', read'⟩
  rw [← alike] at own' text'
  refine ⟨_, _, code, code', own, own', read, read', ⟨fun same => ?_, fun same => ?_⟩, ?_⟩
  · have texts := free (.inl text) (.inr text') (Bytes.toHex_inj same)
    rw [List.append_cancel_left texts, read'] at read
    cases read
    rfl
  · have stored : code.encode = code'.encode := by
      unfold Code.encode Code.offsets Code.byteSize
      rw [same]
    rw [← Code.encode_of_decode read, ← Code.encode_of_decode read', stored]
  · intro place constructs types
    rw [constructorCode, constructorCode, place, constructs, types]

/-! ## A class that is made with a text -/

namespace Greeter

/-- The field that the constructor sets. -/
def greeting : MemberRef :=
  .field (.named ⟨"Game", "Greeter"⟩) "Greeting" .string

def rootConstructor : MemberRef :=
  .instanceMethod (.named ⟨"Tether.Runtime", "NativeObject"⟩) Method.constructorName [] .void

/-- The code of the constructor, which sets a field to the text at an index. -/
def code (text : UInt32) : Code where
  instrs := [.loadArg 0, .constString text, .storeField 0, .loadArg 0, .call 1, .ret]

/-- A class of which objects are made with a text. -/
def type (text : UInt32) : TypeDef where
  name := "Greeter"
  namespaceName := "Game"
  base := some (.named ⟨"Tether.Runtime", "NativeObject"⟩)
  attributes := [{ type := ⟨"Tether.Attributes", "NativeClass"⟩ }]
  fields := [{ name := "Greeting", type := .string }]
  methods := [
    { name := Method.constructorName, body := some ((code text).toBody []) },
    { name := Method.constructorName, parameters := [{ name := "native", type := .intPtr }]
      body := some (({ instrs := [.ret] } : Code).toBody []) }]

def scope (strings : List String) (text : UInt32) : Scope where
  context := Meter.scope.context
  module := { Module.empty "Game" with
    types := [type text], tables := { strings, members := [greeting, rootConstructor] } }

def binding : ClassBinding where
  name := ⟨"Game", "Greeter"⟩
  nativeName := "Greeter"
  type := 0
  base := some ⟨"Tether.Runtime", "NativeObject"⟩
  construction := some 0
  rehydration := some 1

variable (strings : List String) (text : UInt32)

theorem derivesFromRoot_type :
    (scope strings text).derivesFromRoot (type text).qualifiedName = true :=
  Scope.derivesFromRoot_of_base? rfl

theorem shapes_type : ConstructorShapes.ofType (type text) = ⟨[0], [1], []⟩ := by
  simp [ConstructorShapes.ofType, TypeDef.constructors, type, Method.isConstructor,
    Method.isStatic, Method.parameterTypes, hasFlag]

theorem extract_scope : (scope strings text).extract = ⟨[.ofClass binding], []⟩ := by
  have concrete : (type text).isAbstract = false := by
    change hasFlag 1 TypeDef.abstractFlag = false
    decide
  have derived : (scope strings text).extractDerived 0 (type text) {} =
      (⟨some binding, []⟩, {}) := by
    have exposed : (scope strings text).exposedFields (type text) = [] := rfl
    simp only [Scope.extractDerived, bind, StateT.bind, shapes_type, concrete, exposed]
    rfl
  have used : (scope strings text).config.isWrapperOnly (type text).name = false := by
    change ({} : Config).isWrapperOnly "Greeter" = false
    decide
  have annotated : (scope strings text).config.isAnnotated (type text).attributes
      Annotation.nativeClass = true := by
    change ({} : Config).isAnnotated [{ type := ⟨"Tether.Attributes", "NativeClass"⟩ }]
      Annotation.nativeClass = true
    decide
  exact Scope.extract_eq_singleton rfl (Scope.examine_eq_ofClass used rfl annotated
    (derivesFromRoot_type strings text) rfl derived)

/-- The plan of the class. -/
def plan : TypePlan :=
  match binding.plan (scope strings text).config (scope strings text).module (type text)
    (scope strings text).module.tables with
  | .ok ((plan, _), _) => plan
  | _ => {}

/-- The tables with what the plan refers to. -/
def tables : Tables where
  strings := strings ++ ["Greeter"]
  members := [greeting, rootConstructor,
    .staticField (type text).signature Naming.nativeClassPtr .intPtr,
    (scope strings text).config.layout .nativeType]

/-- The class with the slot for its handle, and with both constructors as they were. -/
def edited : TypeDef :=
  { type text with
    fields := (type text).fields ++ (plan strings text).fields
    methods := (type text).methods ++ [TypePlan.newInitializer
      [.constString (UInt32.ofNat strings.length), .call 3, .storeStatic 2]] }

/-- The class with one text and with another one, and with both texts, of which the first or the
second is set. -/
def versions : List (List String × UInt32) :=
  [(["Hello"], 0), (["Goodbye"], 0), (["Hello", "Goodbye"], 0), (["Hello", "Goodbye"], 1)]

section Versions

variable {strings text} (version : (strings, text) ∈ versions)
include version

theorem eq_of_version : strings = ["Hello"] ∧ text = 0 ∨ strings = ["Goodbye"] ∧ text = 0 ∨
    strings = ["Hello", "Goodbye"] ∧ text = 0 ∨ strings = ["Hello", "Goodbye"] ∧ text = 1 := by
  simpa [versions] using version

theorem plan_binding : binding.plan (scope strings text).config (scope strings text).module
    (type text) (scope strings text).module.tables =
      .ok ((plan strings text, []), tables strings text) := by
  rcases eq_of_version version with ⟨rfl, rfl⟩ | ⟨rfl, rfl⟩ | ⟨rfl, rfl⟩ | ⟨rfl, rfl⟩ <;>
    exact eq_ok_of_toOption (by decide +kernel)

theorem apply_plan : (plan strings text).apply (type text) = .ok (edited strings text) := by
  rcases eq_of_version version with ⟨rfl, rfl⟩ | ⟨rfl, rfl⟩ | ⟨rfl, rfl⟩ | ⟨rfl, rfl⟩ <;>
    exact eq_ok_of_toOption (by decide +kernel)

theorem verify_edited : ∀ method ∈ (edited strings text).methods,
    method.verify (tables strings text) = .ok () := by
  rcases eq_of_version version with ⟨rfl, rfl⟩ | ⟨rfl, rfl⟩ | ⟨rfl, rfl⟩ | ⟨rfl, rfl⟩ <;>
  · simp only [edited, type, List.cons_append, List.nil_append, List.forall_mem_cons]
    refine ⟨?_, ?_, ?_, List.forall_mem_nil _⟩ <;> cbv

theorem soleClass : (scope strings text).SoleClass (type text) (edited strings text) binding
    (plan strings text) (tables strings text) where
  fresh := by
    change hasFlag 0 Module.wovenFlag = false
    decide
  types := rfl
  extracted := extract_scope strings text
  place := rfl
  name := rfl
  rootward base same := by
    cases same
    decide
  supported := rfl
  hashed := ⟨_, rfl⟩
  planned := plan_binding version
  applied := apply_plan version
  verified := TypePlan.verifyTouched_of_verify (verify_edited version)

end Versions

variable {strings text}

theorem found_binding :
    (scope strings text).extract.bindings.findClass? binding.name = some binding := by
  rw [extract_scope]
  rfl

/-- What is told of the class. -/
def description : Json :=
  typeDescription .classType binding.name binding.nativeName [] [] none

/-- The same is told of the class whatever the text is, and the code is what it is hashed with. -/
theorem told_of_weave {result : WovenModule}
    (woven : (scope strings text).weave = .ok (.woven result)) :
    result.report.describeClass binding = description ∧
      (scope strings text).hashedTexts = [preimage description (code text).encode] := by
  rcases Scope.hash_of_weave woven found_binding with ⟨known, hashed, based, told, _⟩
  have plain : known.baseHash (scope strings text).extract.bindings binding = .ok none := by
    refine Fingerprints.baseHash_eq_none fun base declared => ?_
    cases declared
    rw [extract_scope]
    decide
  have base := Except.ok.inj (based.symm.trans plain)
  have same : result.report.describeClass binding = description := by
    rw [Report.describeClass, base]
    rfl
  refine ⟨same, ?_⟩
  rw [same] at told
  rw [Scope.hashedTexts, hashed]
  rw [extract_scope] at told ⊢
  simp only [List.filterMap_cons, List.filterMap_nil, Fingerprints.describe, told]
  rfl

theorem decode_constructorCode :
    Code.decode (binding.constructorCode (scope strings text).module) = .ok (code text) := by
  have inside : (code text).TargetsInside := by
    simp [Code.TargetsInside, code, Instruction.target?, Instr.loadArg, Instr.storeField,
      Instr.call, Instr.ret]
  have small : (code text).byteSize < 2 ^ 31 := by
    change 22 < 2 ^ 31
    decide
  exact Code.decode_encode inside small

/-- The texts with the two constructors have different hashes. -/
theorem nodup_digests : ([preimage description (code 0).encode,
    preimage description (code 1).encode].map sha256).Nodup := by
  simp only [preimage_eq]
  decide +kernel

theorem injOn_singleton {text : Bytes} :
    Set.InjOn sha256 {other | other ∈ [text] ∨ other ∈ [text]} := by
  intro first one second two _
  rw [List.mem_singleton.mp (or_self_iff.mp one), List.mem_singleton.mp (or_self_iff.mp two)]

end Greeter

/-- More texts in the tables leave the hash as it is, and another index in the constructor shows. -/
theorem ClassBinding.hash_eq_iff_of_weave_greeter : ∃ first second third,
    (Greeter.scope ["Hello"] 0).weave = .ok (.woven first) ∧
    (Greeter.scope ["Hello", "Goodbye"] 0).weave = .ok (.woven second) ∧
    (Greeter.scope ["Hello", "Goodbye"] 1).weave = .ok (.woven third) ∧
    Set.InjOn sha256 {text | text ∈ (Greeter.scope ["Hello"] 0).hashedTexts ∨
      text ∈ (Greeter.scope ["Hello", "Goodbye"] 1).hashedTexts} ∧
    first.report.describeClass Greeter.binding = third.report.describeClass Greeter.binding ∧
    first.report.hash? .classType Greeter.binding.name =
      second.report.hash? .classType Greeter.binding.name ∧
    first.report.hash? .classType Greeter.binding.name ≠
      third.report.hash? .classType Greeter.binding.name := by
  rcases (Greeter.soleClass (.head _)).exists_woven with ⟨first, woven, _⟩
  rcases (Greeter.soleClass (.tail _ (.tail _ (.head _)))).exists_woven with ⟨second, woven', _⟩
  rcases (Greeter.soleClass (.tail _ (.tail _ (.tail _ (.head _))))).exists_woven with
    ⟨third, woven'', _⟩
  rcases Greeter.told_of_weave woven with ⟨told, texts⟩
  rcases Greeter.told_of_weave woven' with ⟨told', texts'⟩
  rcases Greeter.told_of_weave woven'' with ⟨told'', texts''⟩
  have alone : Set.InjOn sha256 {text | text ∈ (Greeter.scope ["Hello"] 0).hashedTexts ∨
      text ∈ (Greeter.scope ["Hello", "Goodbye"] 0).hashedTexts} := by
    rw [texts, texts']
    exact Greeter.injOn_singleton
  have free : Set.InjOn sha256 {text | text ∈ (Greeter.scope ["Hello"] 0).hashedTexts ∨
      text ∈ (Greeter.scope ["Hello", "Goodbye"] 1).hashedTexts} := by
    rw [texts, texts'']
    intro text one other two same
    exact List.inj_on_of_nodup_map Greeter.nodup_digests (List.mem_append.mpr one)
      (List.mem_append.mpr two) same
  have bound := @Greeter.found_binding
  rcases hash_eq_iff_of_weave woven woven' alone bound bound (told.trans told'.symm) with
    ⟨_, _, _, _, own, own', _, _, _, grown⟩
  rcases hash_eq_iff_of_weave woven woven'' free bound bound (told.trans told''.symm) with
    ⟨_, _, _, _, before, after, read, read', same, _⟩
  refine ⟨first, second, third, woven, woven', woven'', free, told.trans told''.symm, ?_, ?_⟩
  · rw [own, own', grown rfl rfl rfl]
  · rw [before, after]
    cases Greeter.decode_constructorCode.symm.trans read
    cases Greeter.decode_constructorCode.symm.trans read'
    intro equal
    exact absurd (same.mp (Option.some.inj equal)) (by decide)

/-! ## What indices stand for -/

/-- An instruction without the index in it, and what the index stands for in the tables. -/
def Tables.resolve (tables : Tables) :
    Instr → Instr × Option String × Option MemberRef × Option Signature
  | .constString index => (.constString 0, tables.string? index, none, none)
  | .member op token => (.member op 0, none, tables.member? token, none)
  | .type op token => (.type op 0, none, none, tables.type? token)
  | instr => (instr, none, none, none)

/-- Classes whose constructors set different texts have the same hash: the texts are at the same
index of their tables. -/
theorem ClassBinding.not_hash_eq_iff_resolved_greeter : ∃ first second code,
    (Greeter.scope ["Hello"] 0).weave = .ok (.woven first) ∧
    (Greeter.scope ["Goodbye"] 0).weave = .ok (.woven second) ∧
    Set.InjOn sha256 {text | text ∈ (Greeter.scope ["Hello"] 0).hashedTexts ∨
      text ∈ (Greeter.scope ["Goodbye"] 0).hashedTexts} ∧
    (Greeter.scope ["Hello"] 0).extract.bindings.findClass? Greeter.binding.name =
      some Greeter.binding ∧
    (Greeter.scope ["Goodbye"] 0).extract.bindings.findClass? Greeter.binding.name =
      some Greeter.binding ∧
    first.report.describeClass Greeter.binding = second.report.describeClass Greeter.binding ∧
    Code.decode (Greeter.binding.constructorCode (Greeter.scope ["Hello"] 0).module) = .ok code ∧
    Code.decode (Greeter.binding.constructorCode (Greeter.scope ["Goodbye"] 0).module) = .ok code ∧
    code.instrs.map (Greeter.scope ["Hello"] 0).module.tables.resolve ≠
      code.instrs.map (Greeter.scope ["Goodbye"] 0).module.tables.resolve ∧
    ∃ hash, first.report.hash? .classType Greeter.binding.name = some hash ∧
      second.report.hash? .classType Greeter.binding.name = some hash := by
  rcases (Greeter.soleClass (.head _)).exists_woven with ⟨first, woven, _⟩
  rcases (Greeter.soleClass (.tail _ (.head _))).exists_woven with ⟨second, woven', _⟩
  rcases Greeter.told_of_weave woven with ⟨told, texts⟩
  rcases Greeter.told_of_weave woven' with ⟨told', texts'⟩
  have alone : Set.InjOn sha256 {text | text ∈ (Greeter.scope ["Hello"] 0).hashedTexts ∨
      text ∈ (Greeter.scope ["Goodbye"] 0).hashedTexts} := by
    rw [texts, texts']
    exact Greeter.injOn_singleton
  rcases Scope.hash_of_weave woven Greeter.found_binding with ⟨_, _, _, _, own⟩
  rcases Scope.hash_of_weave woven' Greeter.found_binding with ⟨_, _, _, _, own'⟩
  rw [told] at own
  rw [told'] at own'
  exact ⟨first, second, Greeter.code 0, woven, woven', alone, Greeter.found_binding,
    Greeter.found_binding, told.trans told'.symm, Greeter.decode_constructorCode,
    Greeter.decode_constructorCode, by decide, _, own, own'⟩

end NativeWeave
