import Mathlib.Data.List.Forall2
import NativeWeave.Proofs.Editing.Distinct

namespace NativeWeave

/-!
# Extraction loses nothing

If nothing is reported, everything that is exposed has a binding: the types of a module, the
properties, fields and functions of a type, and the parameters of a function, all in the order of
their declarations.  An examination that leaves something out reports why.  Enumerations are the
exception: what they expose besides their members is neither bound nor reported.
-/

open Diagnostic Remembering

/-! ## Examinations -/

section Examinations

variable {Item Binding : Type}

/-- Unless something is reported, there is a binding exactly for what is exposed, and it describes
that. -/
def Extracted.Accounts (exposed : Bool) (describes : Binding → Prop) (found : Extracted Binding) :
    Prop :=
  hasErrors found.diagnostics = false →
    if exposed then ∃ binding, found.binding = some binding ∧ describes binding
    else found.binding = none

theorem Extracted.Accounts.of_error {exposed : Bool} {describes : Binding → Prop}
    {diagnostic : Diagnostic} (error : diagnostic.isError = true) :
    Accounts exposed describes (.ofDiagnostic diagnostic) := by
  intro clean
  rw [ofDiagnostic, hasErrors, List.any_cons, error] at clean
  cases clean

theorem Extracted.Accounts.imp {exposed : Bool} {describes other : Binding → Prop}
    {found : Extracted Binding} (accounts : Accounts exposed describes found)
    (more : ∀ binding, found.binding = some binding → describes binding → other binding) :
    Accounts exposed other found := by
  intro clean
  have own := accounts clean
  cases exposed with
  | false => exact own
  | true =>
    rcases own with ⟨binding, present, described⟩
    exact ⟨binding, present, more binding present described⟩

theorem Extracted.Accounts.map {Result : Type} {describes : Binding → Prop}
    {other : Result → Prop} {found : Extracted Binding} {view : Binding → Result}
    (accounts : Accounts true describes found)
    (more : ∀ binding, describes binding → other (view binding)) :
    Accounts true other ⟨found.binding.map view, found.diagnostics⟩ := by
  intro clean
  rcases accounts clean with ⟨binding, present, described⟩
  exact ⟨view binding, congrArg (Option.map view) present, more binding described⟩

/-- Examinations of many items give a binding for each exposed one, in order. -/
theorem Remembering.gives_bindings {items : List Item}
    {step : Item → Remembering (Extracted Binding)} {exposed : Item → Bool}
    {describes : Item → Binding → Prop}
    (each : ∀ item ∈ items,
      Gives (step item) (Extracted.Accounts (exposed item) (describes item))) :
    Gives (items.mapM step) fun results => hasErrors (Extracted.allDiagnostics results) = false →
      List.Forall₂ describes (items.filter exposed) (Extracted.bindings results) := by
  induction items with
  | nil =>
    rw [List.mapM_nil]
    exact .pure fun _ => .nil
  | cons item more ih =>
    rw [List.forall_mem_cons] at each
    rw [List.mapM_cons]
    refine .bind each.1 fun first accounts => .bind (ih each.2) fun others hold =>
      .pure fun clean => ?_
    rw [Extracted.allDiagnostics, List.flatMap_cons, hasErrors_append_eq_false] at clean
    have own := accounts clean.1
    rw [Extracted.bindings, List.filterMap_cons, List.filter_cons]
    -- What is not exposed has no binding, so the two lists go on with the next item together.
    cases shown : exposed item with
    | false =>
      rw [shown, if_neg Bool.false_ne_true] at own
      rw [own]
      exact hold clean.2
    | true =>
      rw [shown, if_pos rfl] at own
      rcases own with ⟨binding, present, described⟩
      rw [present]
      exact .cons described (hold clean.2)

end Examinations

/-! ## Members -/

/-- The member says of a declaration what its annotations say. -/
def MemberBinding.Renders (scope : Scope) (declaration : MemberDeclaration)
    (member : MemberBinding) : Prop :=
  ∃ category hashOverride source,
    member = scope.memberBinding declaration category hashOverride source

namespace Scope

variable {scope : Scope} {type : TypeDef} {index : Nat}

/-- The member is the binding of a property that can be read from instances. -/
def BindsProperty (scope : Scope) (type : TypeDef) (item : Property × Nat)
    (member : MemberBinding) : Prop :=
  ∃ getter, getter? type item.1 = some getter ∧ getter.isStatic = false ∧
    member.Renders scope
      { name := item.1.name
        type := item.1.type
        access := getter.access
        attributes := item.1.attributes
        origin := .property item.2
        source := item.1.source.or getter.source }

/-- The member is the binding of a field of instances. -/
def BindsField (scope : Scope) (item : Field × Nat) (member : MemberBinding) : Prop :=
  item.1.isStatic = false ∧
    member.Renders scope
      { name := item.1.name
        type := item.1.type
        access := item.1.access
        attributes := item.1.attributes
        origin := .field item.2
        source := item.1.source }

theorem renders_extractMember (declaration : MemberDeclaration) :
    Gives (scope.extractMember type declaration) fun
      | .ok member => member.Renders scope declaration
      | .error diagnostic => diagnostic.isError = true := by
  unfold extractMember
  dsimp only
  refine .after fun category => ?_
  cases category with
  | error refusal => exact .pure rfl
  | ok category => exact .after fun override => .pure ⟨category, override, _, rfl⟩

/-- A member of which nothing is reported obeys the rules. -/
theorem accounts_extractChecked (declaration : MemberDeclaration) :
    Gives (scope.extractChecked type declaration) (Extracted.Accounts true fun member =>
      member.Renders scope declaration ∧ member.Lawful type) := by
  refine .bind (renders_extractMember declaration) fun found known => ?_
  cases found with
  | error diagnostic => exact .pure (.of_error known)
  | ok member =>
    exact .pure fun clean =>
      ⟨member, rfl, known, MemberBinding.hasErrors_violations.mp clean⟩

theorem accounts_extractProperty (property : Property) :
    Gives (scope.extractProperty type property index)
      (Extracted.Accounts (scope.config.isAnnotated property.attributes Annotation.nativeProperty)
        fun member => scope.BindsProperty type (property, index) member ∧ member.Lawful type) := by
  unfold extractProperty
  split
  · next hidden =>
    rw [Bool.not_eq_true'] at hidden
    rw [hidden]
    exact .pure fun _ => rfl
  · next exposed =>
    rw [Bool.not_eq_true, Bool.not_eq_false'] at exposed
    rw [exposed]
    split
    · exact .pure (.of_error rfl)
    · next getter found =>
      split
      · exact .pure (.of_error rfl)
      · next instanced =>
        rw [Bool.not_eq_true] at instanced
        exact fun memory => (accounts_extractChecked _ memory).imp fun member _ known =>
          ⟨⟨getter, found, instanced, known.1⟩, known.2⟩

theorem accounts_extractField (field : Field) :
    Gives (scope.extractField type field index)
      (Extracted.Accounts (scope.config.isAnnotated field.attributes Annotation.nativeProperty)
        fun member => scope.BindsField (field, index) member ∧ member.Lawful type) := by
  unfold extractField
  split
  · next hidden =>
    rw [Bool.not_eq_true'] at hidden
    rw [hidden]
    exact .pure fun _ => rfl
  · next exposed =>
    rw [Bool.not_eq_true, Bool.not_eq_false'] at exposed
    rw [exposed]
    split
    · exact .pure (.of_error rfl)
    · next instanced =>
      rw [Bool.not_eq_true] at instanced
      exact fun memory => (accounts_extractChecked _ memory).imp fun member _ known =>
        ⟨⟨instanced, known.1⟩, known.2⟩

/-! ## Functions -/

/-- The value is the binding of a declaration, with flags for the direction that it is handed over
in. -/
def BindsValue (scope : Scope) (declaration : MemberDeclaration) (direction : List PropertyFlag)
    (value : MemberBinding) : Prop :=
  ∃ plain : MemberBinding, plain.Renders scope declaration ∧
    value = { plain with flags := plain.flags.insertAll direction }

/-- The value is the binding of a parameter. -/
def BindsParameter (scope : Scope) (type : TypeDef) (method : Method) (item : Parameter × Nat)
    (value : MemberBinding) : Prop :=
  scope.BindsValue
    { name := item.1.name
      type := item.1.type
      attributes := item.1.attributes
      origin := .parameter item.2
      source := method.source.or type.source }
    (directionOf item.1) value

/-- What a method returns has a binding, unless it returns nothing. -/
def BindsResult (scope : Scope) (type : TypeDef) (method : Method) (result : Option MemberBinding) :
    Prop :=
  if method.result.isVoid then
    result = none
  else
    ∃ value, result = some value ∧ scope.BindsValue
      { name := Naming.returnValue
        type := method.result
        origin := .result
        source := method.source.or type.source }
      [.parameter, .returnParameter] value

/-- The function is the binding of a method, with all parameters in order and with a return value
if there is one. -/
structure BindsFunction (scope : Scope) (type : TypeDef) (item : Method × Nat)
    (function : FunctionBinding) : Prop where
  name : function.name = item.1.name
  method : function.method = item.2
  access : function.access = item.1.access
  annotation : ∃ attr,
    scope.config.findAnnotation? item.1.attributes Annotation.nativeFunction = some attr ∧
      function.flags = .ofAttribute attr item.1.isStatic ∧
      function.label = attr.text? Annotation.categoryArgument
  parameters : List.Forall₂ (scope.BindsParameter type item.1) item.1.parameters.zipIdx
    function.parameters
  result : scope.BindsResult type item.1 function.result

theorem accounts_extractValue (method : Method) (declaration : MemberDeclaration)
    (direction : List PropertyFlag) :
    Gives (scope.extractValue type method declaration direction)
      (Extracted.Accounts true fun value =>
        scope.BindsValue declaration direction value ∧ value.category.isArray = false) := by
  refine .bind (renders_extractMember declaration) fun found known => ?_
  cases found with
  | error diagnostic => exact .pure (.of_error known)
  | ok member =>
    dsimp only
    split
    · exact .pure (.of_error rfl)
    · next whole =>
      exact .pure fun _ => ⟨_, rfl, ⟨member, known, rfl⟩, Bool.not_eq_true _ ▸ whole⟩

theorem accounts_extractResult (method : Method) :
    Gives (scope.extractResult type method) fun found => hasErrors found.diagnostics = false →
      scope.BindsResult type method found.binding ∧
        ∀ value ∈ found.binding, value.category.isArray = false := by
  unfold extractResult BindsResult
  split
  · exact .pure fun _ => ⟨rfl, fun _ impossible => nomatch impossible⟩
  · intro memory clean
    rcases accounts_extractValue method _ _ memory clean with ⟨value, present, bound, whole⟩
    refine ⟨⟨value, present, bound⟩, fun other same => ?_⟩
    cases present.symm.trans same
    exact whole

theorem accounts_extractFunction {method : Method} :
    Gives (scope.extractFunction type method index)
      (Extracted.Accounts (scope.config.isAnnotated method.attributes Annotation.nativeFunction)
        fun function => scope.BindsFunction type (method, index) function ∧
          function.Lawful type method) := by
  unfold extractFunction Config.isAnnotated
  cases annotated : scope.config.findAnnotation? method.attributes Annotation.nativeFunction with
  | none => exact .pure fun _ => rfl
  | some attr =>
    have parameters : ∀ item ∈ method.parameters.zipIdx,
        Gives (scope.extractParameter type method item.1 item.2)
          (Extracted.Accounts true fun value => scope.BindsParameter type method item value ∧
            value.category.isArray = false) :=
      fun item _ => accounts_extractValue method _ _
    dsimp only
    unfold extractAnnotated
    dsimp only
    refine .bind (gives_bindings parameters) fun parameters bound => ?_
    refine .bind (accounts_extractResult method) fun result returned => ?_
    split
    -- A function is dropped before its label is checked only if something else was reported.
    · next wrong =>
      refine .pure fun clean => ?_
      rw [wrong] at clean
      cases clean
    · refine .pure fun clean => ?_
      rw [hasErrors_append_eq_false, hasErrors_append_eq_false, hasErrors_append_eq_false,
        FunctionBinding.hasErrors_violations, hasErrors_functionFindings] at clean
      rcases clean with ⟨⟨⟨⟨body, event, free, validation⟩, inputs⟩, output⟩, label⟩
      have binds := bound inputs
      rw [List.filter_true] at binds
      have whole : ∀ value ∈ Extracted.bindings parameters, value.category.isArray = false := by
        intro value listed
        rcases (exists_of_mem_forall₂ binds).2 value listed with ⟨_, _, _, known⟩
        exact known
      rcases returned output with ⟨answer, single⟩
      have names := not_mem_of_generatedConflict? free
      refine ⟨_, rfl, ⟨rfl, rfl, rfl, ⟨attr, annotated, rfl, rfl⟩,
        binds.imp fun _ _ => And.left, answer⟩, body, event,
        ⟨names.1, fun field listed => names.2 _ (List.mem_map_of_mem listed)⟩, validation, label,
        ?_⟩
      exact List.forall_mem_append.mpr
        ⟨whole, fun value listed => single value (Option.mem_toList.mp listed)⟩

/-! ## Types -/

/-- The annotation that exposes a type of a kind. -/
def annotationOf : TypeKind → Option String
  | .classType => some Annotation.nativeClass
  | .structType => some Annotation.nativeStruct
  | .enumType => some Annotation.nativeEnum
  | .interfaceType => none

/-- The type carries the annotation for its kind. -/
def isExposed (scope : Scope) (type : TypeDef) : Bool :=
  (annotationOf type.kind).any (scope.config.isAnnotated type.attributes)

theorem isExposed_iff : scope.isExposed type = true ↔
    type.kind = .enumType ∧
        scope.config.isAnnotated type.attributes Annotation.nativeEnum = true ∨
      type.kind = .structType ∧
        scope.config.isAnnotated type.attributes Annotation.nativeStruct = true ∨
      type.kind = .classType ∧
        scope.config.isAnnotated type.attributes Annotation.nativeClass = true := by
  unfold isExposed
  cases type.kind <;> simp [annotationOf]

/-- The type becomes a native one: it carries the annotation for its kind, and its name does not say
that it stands in for another type. -/
def isNative (scope : Scope) (type : TypeDef) : Bool :=
  !scope.config.isWrapperOnly type.name && scope.isExposed type

/-- The types of the module that become native ones, with their places. -/
def nativeTypes (scope : Scope) : List (TypeDef × Nat) :=
  scope.module.types.zipIdx.filter fun item => scope.isNative item.1

/-- The properties of a type that are exposed, with their places. -/
def annotatedProperties (scope : Scope) (type : TypeDef) : List (Property × Nat) :=
  type.properties.zipIdx.filter fun item =>
    scope.config.isAnnotated item.1.attributes Annotation.nativeProperty

/-- The fields of a type that are exposed, with their places. -/
def annotatedFields (scope : Scope) (type : TypeDef) : List (Field × Nat) :=
  type.fields.zipIdx.filter fun item =>
    scope.config.isAnnotated item.1.attributes Annotation.nativeProperty

/-- The methods of a type that are exposed, with their places. -/
def annotatedMethods (scope : Scope) (type : TypeDef) : List (Method × Nat) :=
  type.methods.zipIdx.filter fun item =>
    scope.config.isAnnotated item.1.attributes Annotation.nativeFunction

/-- An enumeration exposes nothing but its members. -/
structure ExposesMembersOnly (scope : Scope) (type : TypeDef) : Prop where
  properties : scope.annotatedProperties type = []
  methods : scope.annotatedMethods type = []
  fields : ∀ item ∈ scope.annotatedFields type, item.1.isLiteral = true

end Scope

/-- The binding of a type has all that the type exposes, in order. -/
def TypeBinding.Complete (scope : Scope) (type : TypeDef) : TypeBinding → Prop
  | .ofClass binding => type.kind = .classType ∧
    List.Forall₂ (scope.BindsProperty type) (scope.annotatedProperties type) binding.members ∧
    scope.annotatedFields type = [] ∧
    List.Forall₂ (scope.BindsFunction type) (scope.annotatedMethods type) binding.functions
  | .ofStruct binding => type.kind = .structType ∧
    scope.annotatedProperties type = [] ∧
    List.Forall₂ scope.BindsField (scope.annotatedFields type) binding.members ∧
    scope.annotatedMethods type = []
  | .ofEnum binding => type.kind = .enumType ∧
    scope.ExposesMembersOnly type ∧
    binding.members = (type.fields.filter (·.isLiteral)).map (·.name)

namespace Scope

variable {scope : Scope} {type : TypeDef} {index : Nat}

theorem filter_zipIdx_eq_nil {α : Type} {items : List α} {exposed : α → Bool}
    (hidden : ∀ item ∈ items, exposed item = false) :
    items.zipIdx.filter (fun item => exposed item.1) = [] := by
  rw [List.filter_eq_nil_iff]
  intro item listed
  rw [hidden item.1 (List.fst_mem_of_mem_zipIdx listed)]
  exact Bool.false_ne_true

theorem accounts_extractClass : Gives (scope.extractClass index type)
    (Extracted.Accounts true fun binding => binding.Lawful scope type ∧
      (type.kind = .classType → TypeBinding.Complete scope type (.ofClass binding))) := by
  have members : ∀ item ∈ type.properties.zipIdx,
      Gives (scope.extractProperty type item.1 item.2)
        (Extracted.Accounts
          (scope.config.isAnnotated item.1.attributes Annotation.nativeProperty)
          fun member => scope.BindsProperty type item member ∧ member.Lawful type) :=
    fun item _ => accounts_extractProperty item.1
  have functions : ∀ item ∈ type.methods.zipIdx,
      Gives (scope.extractFunction type item.1 item.2)
        (Extracted.Accounts
          (scope.config.isAnnotated item.1.attributes Annotation.nativeFunction)
          fun function => scope.BindsFunction type item function ∧
            function.Lawful type item.1) :=
    fun item _ => accounts_extractFunction
  unfold extractClass
  split
  · next derived =>
    refine .bind (gives_bindings members) fun members bound => ?_
    refine .bind (gives_bindings functions) fun functions made => .pure fun clean => ?_
    dsimp only at clean ⊢
    rw [if_neg (ne_true_of_eq_false clean)]
    rw [hasErrors_append_eq_false, hasErrors_append_eq_false, hasErrors_append_eq_false,
      hasErrors_exposedFields] at clean
    rcases clean with ⟨⟨⟨shapes, properties⟩, hidden⟩, methods⟩
    refine ⟨_, rfl, ⟨derived, ?_, ?_, ?_⟩, fun kind => ⟨kind,
      (bound properties).imp fun _ _ => And.left, filter_zipIdx_eq_nil hidden,
      (made methods).imp fun _ _ => And.left⟩⟩
    · intro concrete
      rw [concrete, if_neg Bool.false_ne_true] at shapes
      exact ConstructorShapes.exists_perm_of_finding? shapes
    · intro member listed
      rcases (exists_of_mem_forall₂ (bound properties)).2 member listed with ⟨_, _, _, lawful⟩
      exact lawful
    · intro function listed
      rcases (exists_of_mem_forall₂ (made methods)).2 function listed with
        ⟨item, inside, binds, lawful⟩
      have here := List.mk_mem_zipIdx_iff_getElem?.mp (List.mem_filter.mp inside).1
      exact ⟨item.1, binds.method ▸ here, lawful⟩
  · exact .pure (.of_error rfl)

/-- A class has a binding only if nothing is reported. -/
theorem clean_extractClass : Gives (scope.extractClass index type) fun found =>
    ∀ binding ∈ found.binding, hasErrors found.diagnostics = false := by
  unfold extractClass
  split
  · refine .after fun members => .after fun functions => .pure fun binding found => ?_
    refine eq_false_of_ne_true fun wrong => ?_
    rw [if_pos wrong] at found
    cases found
  · exact .pure fun binding found => nomatch found

/-- The binding of a class has all that the class exposes, whatever is reported of other types. -/
theorem complete_of_mem_extract {binding : ClassBinding}
    (member : .ofClass binding ∈ scope.extract.bindings)
    (present : scope.module.types[binding.type]? = some type) :
    TypeBinding.Complete scope type (.ofClass binding) := by
  have classes : ∀ index, ∀ type ∈ scope.module.types, type.kind = .classType →
      Gives (scope.extractClass index type) fun found => ∀ binding ∈ found.binding,
        TypeBinding.Complete scope type (.ofClass binding) := by
    intro index type _ kind memory binding found
    rcases accounts_extractClass memory (clean_extractClass memory binding found) with
      ⟨other, made, _, complete⟩
    cases made.symm.trans found
    exact complete kind
  exact @forall_mem_extract scope type (fun type binding => ∀ declared, binding = .ofClass declared →
      TypeBinding.Complete scope type (.ofClass declared))
    (fun _ _ _ _ _ impossible => nomatch impossible)
    (fun _ _ _ _ _ _ _ _ _ impossible => nomatch impossible)
    (fun index type listed kind memory binding found declared same => by
      cases same
      exact classes index type listed kind memory binding found)
    (.ofClass binding) member present binding rfl

/-- Each member of a class is bound to a property of its own. -/
theorem pairwise_origins {binding : ClassBinding}
    (member : .ofClass binding ∈ scope.extract.bindings)
    (present : scope.module.types[binding.type]? = some type) :
    binding.members.Pairwise (·.origin ≠ ·.origin) := by
  have bound := (complete_of_mem_extract member present).2.1
  have origins : (scope.annotatedProperties type).map (fun item => MemberOrigin.property item.2) =
      binding.members.map (·.origin) := by
    rw [← List.forall₂_eq_eq_eq, List.forall₂_map_left_iff, List.forall₂_map_right_iff]
    refine bound.imp ?_
    rintro item member ⟨getter, _, _, category, hashOverride, source, rfl⟩
    rfl
  have places : type.properties.zipIdx.Pairwise (·.2 ≠ ·.2) := by
    have all : (type.properties.zipIdx.map Prod.snd).Pairwise (· ≠ ·) := by
      rw [List.zipIdx_map_snd]
      exact List.nodup_range'
    exact List.pairwise_map.mp all
  have apart : ((scope.annotatedProperties type).map
      fun item => MemberOrigin.property item.2).Pairwise (· ≠ ·) :=
    List.pairwise_map.mpr ((places.filter _).imp fun other same => other (MemberOrigin.property.inj same))
  rw [origins] at apart
  exact List.pairwise_map.mp apart

theorem accounts_extractStruct : Gives (scope.extractStruct index type)
    (Extracted.Accounts true fun binding => binding.Lawful scope type ∧
      (type.kind = .structType → TypeBinding.Complete scope type (.ofStruct binding))) := by
  have fields : ∀ item ∈ type.fields.zipIdx,
      Gives (scope.extractField type item.1 item.2)
        (Extracted.Accounts
          (scope.config.isAnnotated item.1.attributes Annotation.nativeProperty)
          fun member => scope.BindsField item member ∧ member.Lawful type) :=
    fun item _ => accounts_extractField item.1
  refine .bind (gives_bindings fields) fun members bound => .after fun repr => .pure fun clean => ?_
  dsimp only at clean ⊢
  rw [if_neg (ne_true_of_eq_false clean)]
  rw [hasErrors_append_eq_false, hasErrors_append_eq_false, hasErrors_structFindings] at clean
  rcases clean with ⟨⟨⟨computed, properties, methods⟩, found⟩, conflicts⟩
  refine ⟨_, rfl, ⟨computed, fun marshalled => ?_, fun member listed => ?_⟩, fun kind => ⟨kind,
    filter_zipIdx_eq_nil properties, (bound found).imp fun _ _ => And.left,
    filter_zipIdx_eq_nil methods⟩⟩
  · have generic : ¬ repr = some .blittable := of_decide_eq_false marshalled
    rw [if_neg (by simpa using generic), hasErrors_marshalConflicts] at conflicts
    exact fun method listed => isMarshalMember_eq_false.mp (conflicts method listed)
  · rcases (exists_of_mem_forall₂ (bound found)).2 member listed with ⟨_, _, _, lawful⟩
    exact lawful

/-- A struct has a binding only if nothing is reported. -/
theorem clean_extractStruct : Gives (scope.extractStruct index type) fun found =>
    ∀ binding ∈ found.binding, hasErrors found.diagnostics = false := by
  unfold extractStruct
  refine .after fun fields => .after fun repr => .pure fun binding found => ?_
  exact eq_false_of_ne_true (not_of_mem_unless found)

/-- The binding of a struct obeys the rules and has all that the struct exposes, whatever is reported
of other types. -/
theorem lawful_of_mem_extract {binding : StructBinding}
    (member : .ofStruct binding ∈ scope.extract.bindings)
    (present : scope.module.types[binding.type]? = some type) :
    binding.Lawful scope type ∧ TypeBinding.Complete scope type (.ofStruct binding) := by
  have structs : ∀ index, ∀ type ∈ scope.module.types, type.kind = .structType →
      Gives (scope.extractStruct index type) fun found => ∀ binding ∈ found.binding,
        binding.Lawful scope type ∧ TypeBinding.Complete scope type (.ofStruct binding) := by
    intro index type _ kind memory binding found
    rcases accounts_extractStruct memory (clean_extractStruct memory binding found) with
      ⟨other, made, lawful, complete⟩
    cases made.symm.trans found
    exact ⟨lawful, complete kind⟩
  exact @forall_mem_extract scope type (fun type binding => ∀ declared, binding = .ofStruct declared →
      declared.Lawful scope type ∧ TypeBinding.Complete scope type (.ofStruct declared))
    (fun _ _ _ _ _ impossible => nomatch impossible)
    (fun index type listed kind _ memory binding found declared same => by
      cases same
      exact structs index type listed kind memory binding found)
    (fun _ _ _ _ _ _ _ _ impossible => nomatch impossible)
    (.ofStruct binding) member present binding rfl

theorem accounts_extractEnum : Extracted.Accounts true
    (fun binding => EnumBinding.Lawful type ∧
      binding.members = (type.fields.filter (·.isLiteral)).map (·.name))
    (scope.extractEnum index type) := by
  intro clean
  have lawful := hasErrors_extractEnum.mp clean
  have backed : backingFindings type = [] := if_pos lawful.backing
  have counted : (type.fields.filter (·.isLiteral)).zipIdx.flatMap
      (fun item => positionFindings type item.1 item.2) = [] := by
    refine List.flatMap_eq_nil_iff.mpr fun item listed => if_pos ?_
    exact lawful.contiguous item.2 item.1 (List.mk_mem_zipIdx_iff_getElem?.mp listed)
  unfold extractEnum
  dsimp only
  rw [backed, counted]
  exact ⟨_, rfl, lawful, rfl⟩

/-- Methods and properties of an annotated enumeration are not examined: with others, exposed or not,
it gives the same binding and the same findings. -/
theorem examine_enum_with (enum : type.kind = .enumType)
    (annotated : scope.config.isAnnotated type.attributes Annotation.nativeEnum = true)
    (methods : List Method) (properties : List Property) :
    scope.examine { type with methods, properties } index = scope.examine type index := by
  have native : type.kind = .enumType ∧
      scope.config.isAnnotated type.attributes Annotation.nativeEnum = true := ⟨enum, annotated⟩
  unfold examine extractType
  dsimp only
  rw [if_pos native, if_pos native]
  rfl

/-- The binding of a type as it should be: it obeys the rules and has all that the type exposes.  If
an enumeration exposes more than its members, nothing is said of the rest. -/
structure Binds (scope : Scope) (item : TypeDef × Nat) (binding : TypeBinding) : Prop where
  declares : binding.Declares item.2 item.1
  lawful : binding.Lawful scope item.1
  complete : (item.1.kind = .enumType → scope.ExposesMembersOnly item.1) →
    binding.Complete scope item.1

/-- The binding of a type is as it should be if its native name is free. -/
theorem accounts_extractType : Gives (scope.extractType index type)
    (Extracted.Accounts (scope.isExposed type) fun binding =>
      scope.context.manifest.contains binding.kind binding.nativeName = false →
        scope.Binds (type, index) binding) := by
  suffices accounts : Gives (scope.extractType index type)
      (Extracted.Accounts (scope.isExposed type) fun binding =>
        (scope.context.manifest.contains binding.kind binding.nativeName = false →
          binding.Lawful scope type) ∧
        ((type.kind = .enumType → scope.ExposesMembersOnly type) →
          binding.Complete scope type)) by
    intro memory
    refine (accounts memory).imp fun binding present known free => ?_
    exact ⟨gives_extractType memory binding present, known.1 free, known.2⟩
  unfold extractType
  dsimp only
  split
  · next declared =>
    rw [isExposed_iff.mpr (.inl declared)]
    exact .pure (accounts_extractEnum.map fun _ known =>
      ⟨fun free => ⟨free, known.1⟩, fun only => ⟨declared.1, only declared.1, known.2⟩⟩)
  · split
    · next declared =>
      rw [isExposed_iff.mpr (.inr (.inl declared))]
      exact .bind accounts_extractStruct fun found accounts => .pure (accounts.map fun _ known =>
        ⟨fun free => ⟨free, known.1⟩, fun _ => known.2 declared.1⟩)
    · split
      · next declared =>
        rw [isExposed_iff.mpr (.inr (.inr declared))]
        exact .bind accounts_extractClass fun found accounts => .pure (accounts.map fun _ known =>
          ⟨fun free => ⟨free, known.1⟩, fun _ => known.2 declared.1⟩)
      · next enums structs classes =>
        have hidden : scope.isExposed type = false := by
          rw [← Bool.not_eq_true, isExposed_iff]
          rintro (enum | struct | other)
          · exact enums enum
          · exact structs struct
          · exact classes other
        rw [hidden]
        exact .pure fun _ => rfl

/-- A type that does not stand in for another one is accounted for. -/
theorem accounts_examine : Gives (scope.examine type index)
    (Extracted.Accounts (scope.isNative type) (scope.Binds (type, index))) := by
  unfold examine isNative
  split
  · next standing =>
    rw [standing]
    exact .pure fun _ => rfl
  · next own =>
    rw [Bool.not_eq_true] at own
    rw [own, Bool.not_false, Bool.true_and]
    refine .bind accounts_extractType fun found accounts => .pure fun clean => ?_
    rw [hasErrors_append_eq_false, hasErrors_flatMap] at clean
    refine accounts.imp (fun binding present known => ?_) clean.1
    exact known (hasErrors_nameCollision.mp
      (clean.2 binding (Option.mem_toList.mpr present)))

/-- If extraction reports no error, the bindings of a module are those of its native types, in
order, and each is as it should be. -/
theorem forall₂_binds_extract (scope : Scope)
    (clean : hasErrors scope.extract.diagnostics = false) :
    List.Forall₂ scope.Binds scope.nativeTypes scope.extract.bindings := by
  have given : Gives scope.extractWith fun extraction =>
      hasErrors extraction.diagnostics = false →
        List.Forall₂ scope.Binds scope.nativeTypes extraction.bindings :=
    .bind (gives_bindings fun item _ => accounts_examine) fun results bound => .pure bound
  exact given {} clean

end Scope

/-! ## An arena -/

/-! A pawn has health, which is sent to others, and can be hit.  Another class stands in for it, and
an enumeration has the modes of the game. -/

namespace Arena

def marking (name : String) (named : List (String × AttributeValue)) : Attribute :=
  { type := ⟨"Tether.Attributes", name⟩, named }

def healthAttribute : Attribute :=
  marking Annotation.nativeProperty [
    ("Flags", .int 33),
    ("Category", .string "Vitals"),
    ("Condition", .int 8),
    ("CustomCondition", .string "IsWounded"),
    ("ReplicatedUsing", .string "OnHealth")]

def health : Property where
  name := "Health"
  type := .i32
  getter := some 2
  attributes := [healthAttribute]

def hitAttribute : Attribute :=
  marking Annotation.nativeFunction [
    ("Flags", .int 9),
    ("Category", .string "Combat")]

def damage : Parameter where
  name := "damage"
  type := .i32

/-- A method that does nothing. -/
def method (name : String) (parameters : List Parameter) (result : Signature) : Method :=
  { name, parameters, result, body := some { code := [] } }

def hit : Method :=
  { method "Hit" [damage] .void with attributes := [hitAttribute] }

def pawn : TypeDef where
  name := "Pawn"
  namespaceName := "Game"
  base := some (.named ⟨"Tether.Runtime", "NativeObject"⟩)
  attributes := [marking Annotation.nativeClass []]
  properties := [health]
  methods := [
    method Method.constructorName [] .void,
    method Method.constructorName [{ name := "pointer", type := .intPtr }] .void,
    method "get_Health" [] .i32,
    method "IsWounded" [] .bool,
    method "OnHealth" [{ name := "before", type := .i32 }] .void,
    hit,
    method "Hit_Validate" [damage] .bool]

/-- The class that stands in for the pawn. -/
def standIn : TypeDef :=
  { pawn with name := "PawnWrapper" }

def constant (name : String) (value : Int64) : Field :=
  { name, type := .named ⟨"Game", "Mode"⟩, flags := Field.literalFlag, constant := some value }

def mode : TypeDef where
  name := "Mode"
  namespaceName := "Game"
  kind := .enumType
  underlying := some (.primitive .u8)
  attributes := [marking Annotation.nativeEnum []]
  fields := [constant "Calm" 0, constant "Alert" 1]

def scope : Scope where
  context := { modules := [{ Module.empty "Runtime" with types := [
    { name := "NativeObject", namespaceName := "Tether.Runtime" }] }] }
  module := { Module.empty "Game" with types := [pawn, standIn, mode] }

/-- What is remembered after the type of the property was classified. -/
def asked : Memory :=
  ({} : Memory).withCategory .i32 {} (.ok (.scalar .i32))

theorem classify_first : scope.classify .i32 {} {} = (.ok (.scalar .i32), asked) := by
  rw [Scope.classify, Scope.classifyWith, Scope.classifyAnew]
  rfl

theorem classify_again : scope.classify .i32 {} asked = (.ok (.scalar .i32), asked) := by
  rw [Scope.classify, Scope.classifyWith]
  rfl

theorem extractProperty_health : ∃ member,
    scope.extractProperty pawn health 0 {} = (⟨some member, []⟩, asked) := by
  let declaration : MemberDeclaration :=
    { name := "Health", type := .i32, attributes := [healthAttribute], origin := .property 0,
      source := none }
  have shaped : scope.classify declaration.type.stripByRef
      (.ofAttribute (scope.config.findAnnotation? [healthAttribute] Annotation.nativeProperty)) {} =
        (.ok (.scalar .i32), asked) := classify_first
  have checked : ∃ member,
      scope.extractChecked pawn declaration {} = (⟨some member, []⟩, asked) := by
    simp only [Scope.extractChecked, Scope.extractMember, bind, StateT.bind, declaration, shaped]
    exact ⟨_, rfl⟩
  rw [Scope.extractProperty, if_neg (by decide)]
  exact checked

theorem extractParameter_damage : ∃ value,
    scope.extractParameter pawn hit damage 0 asked = (⟨some value, []⟩, asked) := by
  have shaped : scope.classify damage.type.stripByRef
      (.ofAttribute (scope.config.findAnnotation? [] Annotation.nativeProperty)) asked =
        (.ok (.scalar .i32), asked) := classify_again
  simp only [Scope.extractParameter, Scope.extractValue, Scope.extractMember, bind, StateT.bind,
    damage] at shaped ⊢
  simp only [shaped]
  exact ⟨_, rfl⟩

theorem extractParameters_hit : ∃ value, (hit.parameters.zipIdx.mapM fun (parameter, place) =>
    scope.extractParameter pawn hit parameter place) asked = ([⟨some value, []⟩], asked) := by
  rcases extractParameter_damage with ⟨value, bound⟩
  exact ⟨value, Scope.mapM_zipIdx_singleton rfl bound⟩

theorem extractFunction_hit : ∃ function,
    scope.extractFunction pawn hit 5 asked = (⟨some function, []⟩, asked) := by
  rcases extractParameters_hit with ⟨value, parameters⟩
  have found : scope.config.findAnnotation? hit.attributes Annotation.nativeFunction =
      some hitAttribute := by decide
  have nothing : scope.extractResult pawn hit asked = (.nothing, asked) := rfl
  have silent : Scope.functionFindings pawn hit (.ofAttribute hitAttribute hit.isStatic) = [] := by
    decide +kernel
  have labelled : Rule.checkCategoryLabel pawn hit.name
      ((FunctionFlags.ofAttribute hitAttribute hit.isStatic).has .callable)
      (hitAttribute.text? Annotation.categoryArgument) (hit.source.or pawn.source) = [] := by
    decide +kernel
  simp only [Scope.extractFunction, found, Scope.extractAnnotated, bind, StateT.bind, parameters,
    nothing, silent, FunctionBinding.violations, Rule.all, List.flatMap_cons, Rule.checkFunction,
    labelled]
  rw [if_neg (by exact Bool.false_ne_true)]
  exact ⟨_, rfl⟩

theorem derivesFromRoot_pawn : scope.derivesFromRoot pawn.qualifiedName = true := by
  cbv

theorem examine_pawn : ∃ binding, scope.examine pawn 0 {} = (⟨some binding, []⟩, asked) := by
  rcases extractProperty_health with ⟨member, exposed⟩
  rcases extractFunction_hit with ⟨function, callable⟩
  have properties : (pawn.properties.zipIdx.mapM fun (property, place) =>
      scope.extractProperty pawn property place) {} = ([⟨some member, []⟩], asked) :=
    Scope.mapM_zipIdx_singleton rfl exposed
  have functions : (pawn.methods.zipIdx.mapM fun (method, place) =>
      scope.extractFunction pawn method place) asked =
        ([.nothing, .nothing, .nothing, .nothing, .nothing, ⟨some function, []⟩, .nothing],
          asked) := by
    have listed : pawn.methods.zipIdx = (pawn.methods.take 5).zipIdx ++ [(hit, 5)] ++
        [(method "Hit_Validate" [damage] .bool, 6)] := rfl
    have front : ((pawn.methods.take 5).zipIdx.mapM fun (method, place) =>
        scope.extractFunction pawn method place) asked =
          ([.nothing, .nothing, .nothing, .nothing, .nothing], asked) := rfl
    rw [listed, List.mapM_append, List.mapM_append]
    simp only [bind, StateT.bind, List.mapM_cons, List.mapM_nil, callable, front]
    rfl
  have shapes : ((ConstructorShapes.ofType pawn).finding? pawn) = none := by decide +kernel
  have hidden : scope.exposedFields pawn = [] := rfl
  rw [Scope.examine, if_neg (by decide)]
  simp only [Scope.extractType]
  rw [if_neg (by decide), if_neg (by decide), if_pos (by decide), Scope.extractClass,
    if_pos derivesFromRoot_pawn]
  simp only [Scope.extractDerived, bind, StateT.bind, properties, functions, shapes, hidden]
  exact ⟨_, rfl⟩

theorem examine_standIn (memory : Memory) :
    scope.examine standIn 1 memory = (.nothing, memory) := by
  have named : scope.config.isWrapperOnly standIn.name = true := by cbv
  rw [Scope.examine, if_pos named]
  rfl

theorem examine_mode (memory : Memory) : ∃ binding,
    scope.examine mode 2 memory = (⟨some binding, []⟩, memory) := by
  have silent : (scope.extractEnum 2 mode).diagnostics = [] := by decide
  have clean : hasErrors (scope.extractEnum 2 mode).diagnostics = false := by rw [silent]; rfl
  rcases Scope.accounts_extractEnum clean with ⟨binding, present, _⟩
  rw [Scope.examine, if_neg (by decide)]
  simp only [Scope.extractType]
  rw [if_pos (by decide)]
  simp only [bind, StateT.bind, present, silent]
  exact ⟨_, rfl⟩

/-- The pawn and the enumeration have bindings. -/
theorem exists_extract : ∃ binding other,
    scope.examine pawn 0 {} = (⟨some binding, []⟩, asked) ∧
      scope.extract = ⟨[binding, other], []⟩ := by
  rcases examine_pawn with ⟨binding, first⟩
  rcases examine_mode asked with ⟨other, last⟩
  refine ⟨binding, other, first, ?_⟩
  have types : scope.module.types.zipIdx = [(pawn, 0), (standIn, 1), (mode, 2)] := rfl
  rw [Scope.extract, Scope.extractWith, types]
  simp only [bind, StateT.bind, List.mapM_cons, List.mapM_nil, first, examine_standIn, last]
  rfl

theorem hasErrors_extract : hasErrors scope.extract.diagnostics = false := by
  rcases exists_extract with ⟨_, _, _, extracted⟩
  rw [extracted]
  rfl

end Arena

/-- Nothing is wrong in the arena, and the enumeration exposes nothing else; so the pawn and the
enumeration have bindings as they should be. -/
theorem Scope.forall₂_binds_extract_arena :
    hasErrors Arena.scope.extract.diagnostics = false ∧
      Arena.scope.nativeTypes = [(Arena.pawn, 0), (Arena.mode, 2)] ∧
      Arena.scope.ExposesMembersOnly Arena.mode ∧
      List.Forall₂ Arena.scope.Binds [(Arena.pawn, 0), (Arena.mode, 2)]
        Arena.scope.extract.bindings := by
  have native : Arena.scope.nativeTypes = [(Arena.pawn, 0), (Arena.mode, 2)] := by
    decide +kernel
  refine ⟨Arena.hasErrors_extract, native, ⟨by decide, by decide, by decide⟩, ?_⟩
  rw [← native]
  exact forall₂_binds_extract Arena.scope Arena.hasErrors_extract

end NativeWeave
