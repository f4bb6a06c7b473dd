import NativeWeave.Proofs.Category.Outlined
import NativeWeave.Proofs.Extraction.Declaration

namespace NativeWeave

/-!
# Extraction asks questions

All that bindings say about types comes from answers to questions: what category a type has, how a
struct is represented, and which hash a member contributes.  Whatever holds of the answers that are
given from a fit memory, each of which leaves the memory fit, holds of the bindings of a module.
-/

/-- All values that cross the boundary for the binding of a type. -/
def TypeBinding.values : TypeBinding → List MemberBinding
  | ofClass binding => binding.members ++ binding.functions.flatMap (·.values)
  | ofStruct binding => binding.members
  | ofEnum _ => []

open Remembering

/-- From a fit memory a type is given a category that fits it, and a declared type a representation;
and the memory stays fit. -/
structure Scope.Answering (scope : Scope) (fit : Memory → Prop)
    (fits : Signature → MemberShape → Category → Prop)
    (represents : TypeDef → Option StructRepr → Prop) : Prop where
  category : ∀ type shape, Keeps fit (scope.classify type shape) fun answer =>
    ∀ category, answer = .ok category → fits type shape category
  repr : ∀ type ∈ scope.module.types, Keeps fit (scope.structRepr? type) (represents type)
  hash : ∀ owner category, Keeps fit (scope.hashOverride? owner category) fun _ => True

/-- The shape that annotations give to a member. -/
def Scope.shapeOf (scope : Scope) (attributes : List Attribute) : MemberShape :=
  .ofAttribute (scope.config.findAnnotation? attributes Annotation.nativeProperty)

/-- The member is bound to a property of the type, and its category fits the shape of the property. -/
def Scope.BindsFitting (scope : Scope) (fits : Signature → MemberShape → Category → Prop)
    (type : TypeDef) (member : MemberBinding) : Prop :=
  ∃ property place, type.properties[place]? = some property ∧ member.origin = .property place ∧
    fits property.type.stripByRef (scope.shapeOf property.attributes) member.category

/-- The binding of a type says what the answers are. -/
structure TypeBinding.Reflects (scope : Scope) (fits : Signature → MemberShape → Category → Prop)
    (represents : TypeDef → Option StructRepr → Prop) (type : TypeDef) (binding : TypeBinding) :
    Prop where
  values : ∀ value ∈ binding.values, ∃ shape, fits value.valueType shape value.category
  properties : ∀ declared, binding = .ofClass declared →
    ∀ member ∈ declared.members, scope.BindsFitting fits type member
  repr : ∀ struct, binding = .ofStruct struct → ∃ repr, represents type repr ∧
    (struct.blittable = true ↔ repr = some .blittable)

/-- What holds of the result in any case holds of it when the memory is fit, too. -/
theorem Remembering.Keeps.and {α : Type} {fit : Memory → Prop} {step : Remembering α}
    {condition other : α → Prop} (keeps : Keeps fit step condition) (gives : Gives step other) :
    Keeps fit step fun value => condition value ∧ other value :=
  fun memory ready => ⟨⟨(keeps memory ready).1, gives memory⟩, (keeps memory ready).2⟩

/-- The bindings of several examinations have what each of them has. -/
theorem forall_mem_bindings {Binding : Type} {holds : Binding → Prop}
    {results : List (Extracted Binding)}
    (each : ∀ found ∈ results, ∀ binding ∈ found.binding, holds binding) :
    ∀ binding ∈ Extracted.bindings results, holds binding := by
  intro binding member
  rcases List.mem_filterMap.mp member with ⟨found, inside, present⟩
  exact each found inside binding present

/-- A binding that is made unless there are mistakes has what is true of the one that is made. -/
theorem forall_mem_unless {Binding : Type} {mistakes : Prop} [Decidable mistakes]
    {holds : Binding → Prop} {made : Binding} (fits : holds made) :
    ∀ binding ∈ (if mistakes then none else some made), holds binding := by
  intro binding found
  split at found
  · cases found
  · cases found
    exact fits

/-- What is found of a property in its place. -/
theorem Scope.BindsFitting.of_found {scope : Scope} {type : TypeDef}
    {fits : Signature → MemberShape → Category → Prop} {item : Property × Nat}
    (listed : item ∈ type.properties.zipIdx) (found : Extracted MemberBinding)
    (right : ∀ member ∈ found.binding, member.valueType = item.1.type.stripByRef ∧
      member.origin = .property item.2 ∧
      fits member.valueType (scope.shapeOf item.1.attributes) member.category) :
    ∀ member ∈ found.binding, scope.BindsFitting fits type member ∧
      ∃ shape, fits member.valueType shape member.category := by
  intro member present
  rcases right member present with ⟨same, origin, fitting⟩
  exact ⟨⟨item.1, item.2, List.mk_mem_zipIdx_iff_getElem?.mp listed, origin, same ▸ fitting⟩, _,
    fitting⟩

namespace Scope.Answering

variable {scope : Scope} {fit : Memory → Prop} {fits : Signature → MemberShape → Category → Prop}
  {represents : TypeDef → Option StructRepr → Prop} {type : TypeDef} {index : Nat}
  (answering : scope.Answering fit fits represents)
include answering

theorem extractMember (declaration : MemberDeclaration) :
    Keeps fit (scope.extractMember type declaration) fun found =>
      ∀ member, found = .ok member → member.valueType = declaration.type.stripByRef ∧
        member.origin = declaration.origin ∧
        fits member.valueType (scope.shapeOf declaration.attributes) member.category := by
  unfold Scope.extractMember
  dsimp only
  refine .bind (answering.category _ _) fun answer right => ?_
  cases answer with
  | error refusal => exact Keeps.pure fun member impossible => nomatch impossible
  | ok category =>
    refine .bind (answering.hash _ _) fun override _ => Keeps.pure fun member same => ?_
    cases same
    exact ⟨rfl, rfl, right category rfl⟩

theorem extractChecked (declaration : MemberDeclaration) :
    Keeps fit (scope.extractChecked type declaration) fun found =>
      ∀ member ∈ found.binding, member.valueType = declaration.type.stripByRef ∧
        member.origin = declaration.origin ∧
        fits member.valueType (scope.shapeOf declaration.attributes) member.category := by
  refine .bind (answering.extractMember declaration) fun found right => ?_
  cases found with
  | error diagnostic => exact Keeps.pure fun _ impossible => nomatch impossible
  | ok member =>
    refine Keeps.pure fun other same => ?_
    cases same
    exact right member rfl

theorem extractProperty (property : Property) :
    Keeps fit (scope.extractProperty type property index) fun found =>
      ∀ member ∈ found.binding, member.valueType = property.type.stripByRef ∧
        member.origin = .property index ∧
        fits member.valueType (scope.shapeOf property.attributes) member.category := by
  unfold Scope.extractProperty
  split
  · exact Keeps.pure fun _ impossible => nomatch impossible
  · split
    · exact Keeps.pure fun _ impossible => nomatch impossible
    · split
      · exact Keeps.pure fun _ impossible => nomatch impossible
      · exact answering.extractChecked _

theorem extractField (field : Field) :
    Keeps fit (scope.extractField type field index) fun found =>
      ∀ member ∈ found.binding, ∃ shape, fits member.valueType shape member.category := by
  unfold Scope.extractField
  split
  · exact Keeps.pure fun _ impossible => nomatch impossible
  · split
    · exact Keeps.pure fun _ impossible => nomatch impossible
    · exact (answering.extractChecked _).mono (fun _ => id)
        fun _ right member found => ⟨_, (right member found).2.2⟩

/-- The direction of a parameter has nothing to do with its category. -/
theorem extractValue (method : Method) (declaration : MemberDeclaration)
    (direction : List PropertyFlag) :
    Keeps fit (scope.extractValue type method declaration direction) fun found =>
      ∀ member ∈ found.binding, ∃ shape, fits member.valueType shape member.category := by
  refine .bind (answering.extractMember declaration) fun found right => ?_
  cases found with
  | error diagnostic => exact Keeps.pure fun _ impossible => nomatch impossible
  | ok member =>
    dsimp only
    split
    · exact Keeps.pure fun _ impossible => nomatch impossible
    · refine Keeps.pure fun other same => ?_
      cases same
      exact ⟨_, (right member rfl).2.2⟩

theorem extractResult (method : Method) :
    Keeps fit (scope.extractResult type method) fun found =>
      ∀ member ∈ found.binding, ∃ shape, fits member.valueType shape member.category := by
  unfold Scope.extractResult
  split
  · exact Keeps.pure fun _ impossible => nomatch impossible
  · exact answering.extractValue _ _ _

theorem extractFunction (method : Method) :
    Keeps fit (scope.extractFunction type method index) fun found =>
      ∀ function ∈ found.binding, ∀ value ∈ function.values,
        ∃ shape, fits value.valueType shape value.category := by
  unfold Scope.extractFunction
  split
  · unfold extractAnnotated
    dsimp only
    refine .bind (Keeps.mapM fun item _ => answering.extractValue _ _ _) fun parameters each => ?_
    refine .bind (answering.extractResult method) fun result right => ?_
    split
    · exact Keeps.pure fun _ impossible => nomatch impossible
    · refine Keeps.pure fun function same => ?_
      cases same
      refine List.forall_mem_append.mpr ⟨forall_mem_bindings each, fun value member => ?_⟩
      exact right value (Option.mem_toList.mp member)
  · exact Keeps.pure fun _ impossible => nomatch impossible

theorem extractClass : Keeps fit (scope.extractClass index type) fun found =>
    ∀ binding ∈ found.binding, TypeBinding.Reflects scope fits represents type (.ofClass binding) := by
  unfold Scope.extractClass
  split
  · refine .bind (Keeps.mapM fun item listed => (answering.extractProperty item.1).mono
      (fun _ => id) (BindsFitting.of_found listed)) fun members each => ?_
    refine .bind (Keeps.mapM fun item _ => answering.extractFunction item.1) fun functions all => ?_
    have bound := forall_mem_bindings each
    refine Keeps.pure (forall_mem_unless ⟨List.forall_mem_append.mpr
      ⟨fun member listed => (bound member listed).2, fun value member => ?_⟩, ?_,
      fun _ impossible => nomatch impossible⟩)
    · rcases List.mem_flatMap.mp member with ⟨function, inside, listed⟩
      exact forall_mem_bindings all function inside value listed
    · rintro declared ⟨rfl⟩ member listed
      exact (bound member listed).1
  · exact Keeps.pure fun _ impossible => nomatch impossible

theorem extractStruct (listed : type ∈ scope.module.types) :
    Keeps fit (scope.extractStruct index type) fun found =>
      ∀ binding ∈ found.binding,
        TypeBinding.Reflects scope fits represents type (.ofStruct binding) := by
  refine .bind (Keeps.mapM fun item _ => answering.extractField item.1) fun members each => ?_
  refine .bind (answering.repr type listed) fun repr right => ?_
  refine Keeps.pure (forall_mem_unless ⟨forall_mem_bindings each,
    fun _ impossible => (nomatch impossible), fun struct same => ?_⟩)
  cases same
  exact ⟨repr, right, decide_eq_true_iff⟩

theorem examine (listed : type ∈ scope.module.types) :
    Keeps fit (scope.examine type index) fun found =>
      ∀ binding ∈ found.binding, binding.Reflects scope fits represents type := by
  unfold Scope.examine
  split
  · exact Keeps.pure fun _ impossible => nomatch impossible
  · refine .bind ?_ fun found each => Keeps.pure each
    unfold extractType
    dsimp only
    split
    · refine Keeps.pure fun binding found => ?_
      rcases Option.map_eq_some_iff.mp found with ⟨inner, _, rfl⟩
      exact ⟨List.forall_mem_nil _, fun _ impossible => (nomatch impossible),
        fun _ impossible => nomatch impossible⟩
    · split
      · refine .bind (answering.extractStruct listed) fun found each =>
          Keeps.pure fun binding member => ?_
        rcases Option.map_eq_some_iff.mp member with ⟨inner, inside, rfl⟩
        exact each inner inside
      · split
        · refine .bind answering.extractClass fun found each => Keeps.pure fun binding member => ?_
          rcases Option.map_eq_some_iff.mp member with ⟨inner, inside, rfl⟩
          exact each inner inside
        · exact Keeps.pure fun _ impossible => nomatch impossible

/-- Every binding of a module says what the answers are about the type that it was made of. -/
theorem reflects_of_mem_extract (start : fit {}) {binding : TypeBinding}
    (member : binding ∈ scope.extract.bindings)
    (present : scope.module.types[binding.place]? = some type) :
    binding.Reflects scope fits represents type := by
  have examined : ∀ item ∈ scope.module.types.zipIdx,
      Keeps fit (scope.examine item.1 item.2) fun found => ∀ binding ∈ found.binding, ∃ type,
        scope.module.types[binding.place]? = some type ∧
          binding.Reflects scope fits represents type := by
    intro ⟨type, index⟩ listed
    have here := List.mk_mem_zipIdx_iff_getElem?.mp listed
    refine ((answering.examine (List.mem_of_getElem? here)).and gives_examine).mono (fun _ => id) ?_
    rintro found ⟨reflects, declares⟩ binding inside
    exact ⟨type, (declares binding inside).1 ▸ here, reflects binding inside⟩
  have given : Keeps fit scope.extractWith fun extraction => ∀ binding ∈ extraction.bindings,
      ∃ type, scope.module.types[binding.place]? = some type ∧
        binding.Reflects scope fits represents type := by
    refine .bind (Keeps.mapM examined) fun results each => ?_
    exact Keeps.pure (forall_mem_bindings each)
  rcases (given {} start).1 binding member with ⟨own, there, reflects⟩
  cases present.symm.trans there
  exact reflects

end Scope.Answering

/-! ## What bindings say about their types -/

/-- The category of a value fits its type: a struct or a class that the category names is the one that
the type names, and it is declared within reach. -/
def MemberBinding.Explained (scope : Scope) (member : MemberBinding) : Prop :=
  scope.Explains member.valueType member.category

namespace Scope

variable {scope : Scope}

/-- What outlines decide holds of all answers. -/
theorem Outlined.answering {fits : Signature → MemberShape → Category → Prop}
    (outlined : scope.Outlined fits) :
    scope.Answering (Memory.Fitting fits) fits fun _ _ => True where
  category := outlined.classify
  repr type _ := (outlined.structRepr? type).mono (fun _ => id) fun _ _ => trivial
  hash := outlined.sustains.hashOverride?

theorem answering_explained :
    scope.Answering (Memory.Explained scope) (fun type _ => scope.Explains type)
      fun _ _ => True :=
  outlined_explains.answering

/-- Every value in the bindings of a module has a category that fits its type. -/
theorem explained_of_mem_extract {binding : TypeBinding} (member : binding ∈ scope.extract.bindings) :
    ∀ value ∈ binding.values, value.Explained scope := by
  rcases scope.exists_declares_of_mem_extract binding member with ⟨_, type, present, rfl, _⟩
  intro value listed
  rcases (answering_explained.reflects_of_mem_extract Memory.Explained.empty member present).values
    value listed with ⟨_, explained⟩
  exact explained

end Scope

end NativeWeave
