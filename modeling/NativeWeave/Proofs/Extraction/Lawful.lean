import Mathlib.Data.List.Basic
import NativeWeave.Extraction.Basic

namespace NativeWeave

/-!
# What extraction demands

Members, functions and types that are exposed have to obey rules.  The checks of the rules report
errors only, and each of them reports something exactly if its rule is broken.  So a declaration
about which nothing is reported obeys all of them.
-/

/-! ## Reports -/

namespace Diagnostic

theorem hasErrors_append (first second : List Diagnostic) :
    hasErrors (first ++ second) = (hasErrors first || hasErrors second) :=
  List.any_append

theorem hasErrors_append_eq_false {first second : List Diagnostic} :
    hasErrors (first ++ second) = false ↔ hasErrors first = false ∧ hasErrors second = false := by
  rw [hasErrors_append, Bool.or_eq_false_iff]

/-- An error is reported if something is wrong. -/
theorem hasErrors_if {wrong : Prop} [Decidable wrong] {diagnostic : Diagnostic}
    (error : diagnostic.isError = true) :
    hasErrors (if wrong then [diagnostic] else []) = false ↔ ¬ wrong := by
  split
  · next broken => simp [hasErrors, error, broken]
  · next kept => simp [hasErrors, kept]

/-- An error is reported unless all is well. -/
theorem hasErrors_unless {well : Prop} [Decidable well] {diagnostic : Diagnostic}
    (error : diagnostic.isError = true) :
    hasErrors (if well then [] else [diagnostic]) = false ↔ well := by
  split
  · next kept => simp [hasErrors, kept]
  · next broken => simp [hasErrors, error, broken]

/-- An error is reported for each item. -/
theorem hasErrors_map {α : Type} {items : List α} {report : α → Diagnostic}
    (error : ∀ item, (report item).isError = true) :
    hasErrors (items.map report) = false ↔ items = [] := by
  cases items with
  | nil => simp [hasErrors]
  | cons item more => simp [hasErrors, error]

theorem hasErrors_flatMap {Item : Type} {items : List Item}
    {report : Item → List Diagnostic} : hasErrors (items.flatMap report) = false ↔
      ∀ item ∈ items, hasErrors (report item) = false := by
  simp only [hasErrors, List.any_flatMap, List.any_eq_false, Bool.not_eq_true]

end Diagnostic

open Diagnostic

/-! ## Members -/

/-- The rules for a member of a type. -/
structure MemberBinding.Lawful (owner : TypeDef) (member : MemberBinding) : Prop where
  /-- A private member is visible only with permission. -/
  privateAccess : member.access = .owner → member.isVisible = true →
    member.allowPrivateAccess = true
  /-- A member has a heading exactly if it is visible. -/
  categoryLabel : (∃ label, member.label = some label ∧ label ≠ "") ↔ member.isVisible = true
  /-- A replicated member has a condition that exists.  If the condition is a custom one, a method
  of the owner without parameters tells whether it holds. -/
  replication : member.flags.has .replicated = true →
    ∃ condition, member.condition = some (.known condition) ∧
      (condition = .custom → ∃ method ∈ owner.methods, member.customCondition = some method.name ∧
        method.name ≠ "" ∧ method.result = .bool ∧ method.parameters = [])
  /-- What is told of changes is a method of instances, without parameters or for the new value. -/
  repNotify : ∀ notify, member.repNotify = some notify → notify ≠ "" →
    ∃ method ∈ owner.methods, method.name = notify ∧ method.isStatic = false ∧
      (method.parameterTypes = [] ∨ method.parameterTypes = [member.type])

namespace Rule

variable {owner : TypeDef} {member : MemberBinding}

theorem hasErrors_checkPrivateAccess : hasErrors (checkPrivateAccess owner member) = false ↔
    (member.access = .owner → member.isVisible = true → member.allowPrivateAccess = true) := by
  rw [checkPrivateAccess, hasErrors_if rfl, Bool.not_eq_true']
  constructor
  · intro kept hidden shown
    rw [← Bool.not_eq_false]
    exact fun forbidden => kept ⟨hidden, shown, forbidden⟩
  · rintro allowed ⟨hidden, shown, forbidden⟩
    rw [allowed hidden shown] at forbidden
    cases forbidden

theorem isError_finding {name : String} {source : Option SourceLocation} {code : DiagnosticCode}
    {message : String} : (finding owner name source code message).isError = true :=
  rfl

theorem labelled_iff {label : Option String} :
    label.any (!·.isEmpty) = true ↔ ∃ text, label = some text ∧ text ≠ "" := by
  cases label <;> simp

/-- The check of headings, for members and for functions. -/
theorem hasErrors_checkCategoryLabel {name : String} {isShown : Bool} {label : Option String}
    {source : Option SourceLocation} :
    hasErrors (checkCategoryLabel owner name isShown label source) = false ↔
      ((∃ text, label = some text ∧ text ≠ "") ↔ isShown = true) := by
  rw [← labelled_iff, checkCategoryLabel]
  cases isShown <;> cases label.any (!·.isEmpty) <;> simp [hasErrors, isError_finding]

theorem hasErrors_checkCustomCondition :
    hasErrors (checkCustomCondition owner member) = false ↔
      ∃ method ∈ owner.methods, member.customCondition = some method.name ∧ method.name ≠ "" ∧
        method.result = .bool ∧ method.parameters = [] := by
  rw [checkCustomCondition]
  split
  · next unnamed =>
    refine iff_of_false (fun silent => nomatch silent) ?_
    rintro ⟨method, _, named, nonempty, _⟩
    rw [named, Option.getD_some, String.isEmpty_iff] at unnamed
    exact nonempty unnamed
  · next named =>
    rw [hasErrors_unless rfl, List.any_eq_true]
    refine exists_congr fun method => and_congr_right fun _ => ?_
    simp only [Bool.and_eq_true, beq_iff_eq, List.isEmpty_iff]
    cases condition : member.customCondition with
    | none => simp [condition] at named
    | some name =>
      rw [condition, Option.getD_some, String.isEmpty_iff] at named
      constructor
      · rintro ⟨⟨rfl, result⟩, parameters⟩
        exact ⟨rfl, named, result, parameters⟩
      · rintro ⟨⟨rfl⟩, _, result, parameters⟩
        exact ⟨⟨rfl, result⟩, parameters⟩

theorem hasErrors_checkReplication : hasErrors (checkReplication owner member) = false ↔
    (member.flags.has .replicated = true →
      ∃ condition, member.condition = some (.known condition) ∧
        (condition = .custom → ∃ method ∈ owner.methods,
          member.customCondition = some method.name ∧ method.name ≠ "" ∧ method.result = .bool ∧
            method.parameters = [])) := by
  rw [checkReplication]
  split
  · next replicated =>
    rw [forall_prop_of_true replicated]
    split
    · next absent => exact iff_of_false (fun silent => nomatch silent) (by simp [absent])
    · next value unknown => exact iff_of_false (fun silent => nomatch silent) (by simp [unknown])
    · next custom => simp [custom, hasErrors_checkCustomCondition]
    · next condition other known =>
      refine iff_of_true rfl ⟨condition, known, fun custom => ?_⟩
      exact absurd custom other
  · next alone => exact iff_of_true rfl fun replicated => absurd replicated alone

theorem canNotify_iff {method : Method} {type : Signature} : canNotify method type = true ↔
    method.isStatic = false ∧ (method.parameterTypes = [] ∨ method.parameterTypes = [type]) := by
  simp [canNotify]

theorem hasErrors_checkRepNotify : hasErrors (checkRepNotify owner member) = false ↔
    ∀ notify, member.repNotify = some notify → notify ≠ "" →
      ∃ method ∈ owner.methods, method.name = notify ∧ method.isStatic = false ∧
        (method.parameterTypes = [] ∨ method.parameterTypes = [member.type]) := by
  rw [checkRepNotify]
  split
  · next absent =>
    refine iff_of_true rfl fun notify named nonempty => ?_
    simp [named, nonempty] at absent
  · next notify present =>
    rw [Option.filter_eq_some_iff] at present
    rw [hasErrors_unless rfl, List.any_eq_true]
    simp only [Bool.and_eq_true, beq_iff_eq, canNotify_iff]
    constructor
    · rintro known other named _
      cases present.1.symm.trans named
      exact known
    · intro known
      exact known notify present.1 (by simpa using present.2)

end Rule

/-- The rules find something wrong with a member exactly if it breaks one of them. -/
theorem MemberBinding.hasErrors_violations {owner : TypeDef} {member : MemberBinding} :
    hasErrors (member.violations owner) = false ↔ member.Lawful owner := by
  simp only [violations, hasErrors_flatMap, Rule.all, List.forall_mem_cons, Rule.checkMember,
    Rule.hasErrors_checkPrivateAccess, Rule.hasErrors_checkCategoryLabel,
    Rule.hasErrors_checkReplication, Rule.hasErrors_checkRepNotify]
  constructor
  · rintro ⟨hidden, label, replication, notify, _⟩
    exact ⟨hidden, label, replication, notify⟩
  · rintro ⟨hidden, label, replication, notify⟩
    exact ⟨hidden, label, replication, notify, List.forall_mem_nil _⟩

/-! ## Functions -/

/-- The rules for a function that is made from a method of a type. -/
structure FunctionBinding.Lawful (owner : TypeDef) (method : Method) (function : FunctionBinding) :
    Prop where
  body : method.body.isSome = true ∧ method.isAbstract = false
  /-- Native code overrides functions of instances only. -/
  event : function.isStatic = true → function.isNativeEvent = false
  /-- Names that are generated for the function are free. -/
  names : (∀ other ∈ owner.methods, other.name ≠ Naming.implementation method.name ∧
      other.name ≠ Naming.invoker method.name) ∧
    ∀ field ∈ owner.fields, field.name ≠ Naming.functionSlot method.name ∧
      field.name ≠ Naming.parametersSizeSlot method.name
  /-- What validates the arguments takes the same parameters, is static if the function is, and
  gives a truth value. -/
  validation : function.hasValidation = true → ∃ other ∈ owner.methods,
    other.name = Naming.validation method.name ∧ other.result = .bool ∧
      other.isStatic = method.isStatic ∧ other.parameterTypes = method.parameterTypes
  /-- A function has a heading exactly if it can be called. -/
  categoryLabel : (∃ label, function.label = some label ∧ label ≠ "") ↔
    function.flags.has .callable = true
  /-- Fixed arrays are not handed over. -/
  values : ∀ value ∈ function.values, value.category.isArray = false

theorem FunctionBinding.hasErrors_violations {owner : TypeDef} {function : FunctionBinding} :
    hasErrors (function.violations owner) = false ↔
      ((∃ label, function.label = some label ∧ label ≠ "") ↔
        function.flags.has .callable = true) := by
  simp only [violations, hasErrors_flatMap, Rule.all, List.forall_mem_cons, Rule.checkFunction,
    Rule.hasErrors_checkCategoryLabel]
  constructor
  · exact fun checked => checked.2.1
  · exact fun kept => ⟨rfl, kept, rfl, rfl, List.forall_mem_nil _⟩

namespace Scope

/-- The checks of a method that is exposed, apart from its values. -/
theorem hasErrors_functionFindings {type : TypeDef} {method : Method}
    {flags : FunctionFlags} : hasErrors (functionFindings type method flags) = false ↔
      (method.body.isSome = true ∧ method.isAbstract = false) ∧
      (flags.has .staticFunction = true → flags.has .nativeEvent = false) ∧
      generatedConflict? type method.name = none ∧
      (flags.has .withValidation = true → ∃ other ∈ type.methods,
        other.name = Naming.validation method.name ∧ other.result = .bool ∧
          other.isStatic = method.isStatic ∧ other.parameterTypes = method.parameterTypes) := by
  unfold functionFindings
  dsimp only
  rw [hasErrors_append_eq_false, hasErrors_append_eq_false, hasErrors_append_eq_false,
    hasErrors_if rfl, hasErrors_if rfl, hasErrors_map fun _ => rfl, hasErrors_if rfl,
    Option.toList_eq_nil_iff, and_assoc, and_assoc]
  refine and_congr ?_ (and_congr ?_ (and_congr Iff.rfl ?_))
  · cases method.body <;> simp
  · simp
  · simp [validates, and_assoc]

end Scope

/-! ## Classes -/

/-- The rules for the binding of a class. -/
structure ClassBinding.Lawful (scope : Scope) (type : TypeDef) (binding : ClassBinding) : Prop where
  native : scope.derivesFromRoot type.qualifiedName = true
  /-- A class that is not abstract has two constructors: one without parameters, and one for a
  native pointer. -/
  constructors : type.isAbstract = false → ∃ construction rehydration,
    type.constructors.Perm [construction, rehydration] ∧
      construction.2.parameterTypes = [] ∧ rehydration.2.parameterTypes = [.intPtr] ∧
      binding.construction = some construction.1 ∧ binding.rehydration = some rehydration.1
  members : ∀ member ∈ binding.members, member.Lawful type
  functions : ∀ function ∈ binding.functions, ∃ method,
    type.methods[function.method]? = some method ∧ function.Lawful type method

namespace ConstructorShapes

variable {type : TypeDef}

/-- What is found is an error, so nothing is found if there is one constructor of each kind and no
other. -/
theorem shapes_of_finding? {shapes : ConstructorShapes}
    (silent : hasErrors (shapes.finding? type).toList = false) :
    (∃ index, shapes.construction = [index]) ∧ (∃ index, shapes.rehydration = [index]) ∧
      shapes.unsupported = [] := by
  unfold finding? at silent
  dsimp only at silent
  split at silent
  · cases silent
  · cases silent
  · cases silent
  · cases silent
  · next rehydration construction =>
    refine ⟨⟨_, construction⟩, ⟨_, rehydration⟩, ?_⟩
    cases others : shapes.unsupported with
    | nil => rfl
    | cons index _ =>
      rw [others] at silent
      cases silent

/-- Constructors of which nothing is found are the two that a class needs. -/
theorem exists_perm_of_finding?
    (silent : hasErrors ((ofType type).finding? type).toList = false) :
    ∃ construction rehydration, type.constructors.Perm [construction, rehydration] ∧
      construction.2.parameterTypes = [] ∧ rehydration.2.parameterTypes = [.intPtr] ∧
      single? (ofType type).construction = some construction.1 ∧
      single? (ofType type).rehydration = some rehydration.1 := by
  rcases shapes_of_finding? silent with ⟨⟨first, constructs⟩, ⟨second, rehydrates⟩, others⟩
  rcases List.map_eq_singleton_iff.mp constructs with ⟨construction, plain, rfl⟩
  rcases List.map_eq_singleton_iff.mp rehydrates with ⟨rehydration, pointing, rfl⟩
  let withParameters := fun (accepts : List Signature → Bool) =>
    type.constructors.filter fun constructor => accepts constructor.2.parameterTypes
  change withParameters (·.isEmpty) = [construction] at plain
  change withParameters (· == [.intPtr]) = [rehydration] at pointing
  have none : withParameters (fun types => !types.isEmpty && types != [.intPtr]) = [] :=
    List.map_eq_nil_iff.mp others
  have empty : construction.2.parameterTypes = [] := by
    have listed : construction ∈ withParameters (·.isEmpty) := plain ▸ List.mem_singleton_self _
    exact List.isEmpty_iff.mp (List.mem_filter.mp listed).2
  have pointer : rehydration.2.parameterTypes = [.intPtr] := by
    have listed : rehydration ∈ withParameters (· == [.intPtr]) :=
      pointing ▸ List.mem_singleton_self _
    exact beq_iff_eq.mp (List.mem_filter.mp listed).2
  -- A constructor with parameters either takes a native pointer or has no use.
  have useful : withParameters (!·.isEmpty) = [rehydration] := by
    rw [← pointing]
    refine List.filter_congr fun constructor listed => ?_
    have used : ¬ (!constructor.2.parameterTypes.isEmpty &&
        constructor.2.parameterTypes != [.intPtr]) = true :=
      List.filter_eq_nil_iff.mp none constructor listed
    rw [Bool.eq_iff_iff]
    simp only [Bool.and_eq_true, bne_iff_ne, not_and, not_not, beq_iff_eq] at used ⊢
    refine ⟨used, fun pointing => ?_⟩
    rw [pointing]
    rfl
  have parted : (withParameters (·.isEmpty) ++ withParameters (!·.isEmpty)).Perm
      type.constructors :=
    List.filter_append_perm _ _
  rw [plain, useful, List.singleton_append] at parted
  exact ⟨construction, rehydration, parted.symm, empty, pointer, by rw [constructs, single?],
    by rw [rehydrates, single?]⟩

end ConstructorShapes

/-! ## Structs and enumerations -/

/-- The rules for the binding of a struct. -/
structure StructBinding.Lawful (scope : Scope) (type : TypeDef) (binding : StructBinding) :
    Prop where
  /-- Whether a struct is blittable is worked out, not declared. -/
  computed : scope.config.isAnnotated type.attributes Annotation.blittable = false
  /-- What marshalling generates is not there yet. -/
  marshals : binding.blittable = false → ∀ method ∈ type.methods,
    method.name ≠ Naming.toNative ∧ (method.isConstructor = true →
      method.parameterTypes ≠ [.intPtr])
  members : ∀ member ∈ binding.members, member.Lawful type

/-- The rules for an enumeration: it is backed by a byte, and its members count up from zero. -/
structure EnumBinding.Lawful (type : TypeDef) : Prop where
  backing : type.underlying = some (.primitive .u8)
  contiguous : ∀ position field, (type.fields.filter (·.isLiteral))[position]? = some field →
    field.constant = some (Int64.ofNat position)

/-- The binding of a type obeys the rules for types of its kind, and its native name is free. -/
def TypeBinding.Lawful (scope : Scope) (type : TypeDef) (binding : TypeBinding) : Prop :=
  scope.context.manifest.contains binding.kind binding.nativeName = false ∧
    match binding with
    | .ofClass binding => binding.Lawful scope type
    | .ofStruct binding => binding.Lawful scope type
    | .ofEnum _ => EnumBinding.Lawful type

namespace Scope

variable {scope : Scope} {type : TypeDef}

theorem hasErrors_strayFunctions : hasErrors (scope.strayFunctions type) = false ↔
    ∀ method ∈ type.methods,
      scope.config.isAnnotated method.attributes Annotation.nativeFunction = false := by
  rw [strayFunctions, hasErrors_map fun _ => rfl, List.filter_eq_nil_iff]
  simp only [Bool.not_eq_true]

theorem hasErrors_exposedFields : hasErrors (scope.exposedFields type) = false ↔
    ∀ field ∈ type.fields,
      scope.config.isAnnotated field.attributes Annotation.nativeProperty = false := by
  rw [exposedFields, hasErrors_map fun _ => rfl, List.filter_eq_nil_iff]
  simp only [Bool.not_eq_true]

theorem hasErrors_structFindings : hasErrors (scope.structFindings type) = false ↔
    scope.config.isAnnotated type.attributes Annotation.blittable = false ∧
      (∀ property ∈ type.properties,
        scope.config.isAnnotated property.attributes Annotation.nativeProperty = false) ∧
      ∀ method ∈ type.methods,
        scope.config.isAnnotated method.attributes Annotation.nativeFunction = false := by
  unfold structFindings
  dsimp only
  rw [hasErrors_append_eq_false, hasErrors_append_eq_false, hasErrors_if rfl,
    hasErrors_map fun _ => rfl, hasErrors_strayFunctions, List.filter_eq_nil_iff, and_assoc]
  simp only [Bool.not_eq_true]

theorem hasErrors_marshalConflicts : hasErrors (marshalConflicts type) = false ↔
    ∀ method ∈ type.methods, isMarshalMember method = false := by
  rw [marshalConflicts, hasErrors_map fun _ => rfl, List.filter_eq_nil_iff]
  simp only [Bool.not_eq_true]

theorem isMarshalMember_eq_false {method : Method} : isMarshalMember method = false ↔
    method.name ≠ Naming.toNative ∧
      (method.isConstructor = true → method.parameterTypes ≠ [.intPtr]) := by
  rw [← Bool.not_eq_true]
  simp only [isMarshalMember, Bool.or_eq_true, Bool.and_eq_true, beq_iff_eq, not_or, not_and]
  exact and_comm

theorem hasErrors_backingFindings : hasErrors (backingFindings type) = false ↔
    type.underlying = some (.primitive .u8) :=
  hasErrors_unless rfl

theorem hasErrors_positionFindings {field : Field} {position : Nat} :
    hasErrors (positionFindings type field position) = false ↔
      field.constant = some (Int64.ofNat position) :=
  hasErrors_unless rfl

/-- Nothing is found in an enumeration exactly if it obeys the rules. -/
theorem hasErrors_extractEnum {index : Nat} :
    hasErrors (scope.extractEnum index type).diagnostics = false ↔ EnumBinding.Lawful type := by
  unfold extractEnum
  dsimp only
  rw [hasErrors_append_eq_false, hasErrors_backingFindings, hasErrors_flatMap]
  constructor
  · rintro ⟨backing, contiguous⟩
    refine ⟨backing, fun position field here => ?_⟩
    exact hasErrors_positionFindings.mp
      (contiguous (field, position) (List.mk_mem_zipIdx_iff_getElem?.mpr here))
  · rintro ⟨backing, contiguous⟩
    refine ⟨backing, fun item listed => hasErrors_positionFindings.mpr ?_⟩
    exact contiguous item.2 item.1 (List.mk_mem_zipIdx_iff_getElem?.mp listed)

theorem hasErrors_nameCollision {binding : TypeBinding} :
    hasErrors (scope.nameCollision type binding) = false ↔
      scope.context.manifest.contains binding.kind binding.nativeName = false := by
  rw [nameCollision, hasErrors_if rfl, Bool.not_eq_true]

end Scope

end NativeWeave
