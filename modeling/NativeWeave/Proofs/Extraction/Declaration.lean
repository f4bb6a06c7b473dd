import NativeWeave.Extraction.Basic

namespace NativeWeave

/-!
# Bindings belong to declarations

A binding keeps the index of the declaration that it was made from and takes its name from there.
What is remembered on the way has no part in that.
-/

namespace Remembering

variable {α β : Type} {condition : α → Prop} {final : β → Prop}

/-- Whatever is remembered, the result satisfies the condition. -/
def Gives (step : Remembering α) (condition : α → Prop) : Prop :=
  ∀ memory, condition (step memory).1

theorem Gives.pure {value : α} (holds : condition value) :
    Gives (Pure.pure value) condition :=
  fun _ => holds

theorem Gives.after {first : Remembering α} {next : α → Remembering β}
    (later : ∀ value, Gives (next value) final) : Gives (first >>= next) final :=
  fun memory => later (first memory).1 (first memory).2

theorem Gives.bind {first : Remembering α} {next : α → Remembering β}
    (start : Gives first condition) (later : ∀ value, condition value → Gives (next value) final) :
    Gives (first >>= next) final :=
  fun memory => later (first memory).1 (start memory) (first memory).2

theorem Gives.mapM {items : List α} {step : α → Remembering β}
    (each : ∀ item ∈ items, Gives (step item) final) :
    Gives (items.mapM step) fun results => ∀ result ∈ results, final result := by
  induction items with
  | nil =>
    rw [List.mapM_nil]
    exact .pure (List.forall_mem_nil final)
  | cons item more ih =>
    rw [List.forall_mem_cons] at each
    rw [List.mapM_cons]
    refine .bind each.1 fun first holds => .bind (ih each.2) fun others hold => .pure ?_
    exact List.forall_mem_cons.mpr ⟨holds, hold⟩

end Remembering

open Remembering

namespace TypeBinding

/-- The index of the declaration that a binding was made from. -/
def place : TypeBinding → Nat
  | ofClass binding => binding.type
  | ofStruct binding => binding.type
  | ofEnum binding => binding.type

/-- The binding is one of the type that stands at an index. -/
def Declares (index : Nat) (type : TypeDef) (binding : TypeBinding) : Prop :=
  binding.place = index ∧ binding.name = type.qualifiedName

end TypeBinding

namespace Bindings

variable {bindings : Bindings} {name : QualifiedName}

/-- A struct that is found under a name is bound, and has the name. -/
theorem ofStruct_mem_of_findStruct? {binding : StructBinding}
    (found : bindings.findStruct? name = some binding) :
    .ofStruct binding ∈ bindings ∧ binding.name = name := by
  have named : binding.name = name := by simpa using List.find?_some found
  rcases List.mem_filterMap.mp (List.mem_of_find?_eq_some found) with ⟨entry, member, same⟩
  cases entry with
  | ofStruct struct =>
    cases same
    exact ⟨member, named⟩
  | _ => cases same

/-- A class that is found under a name is bound, and has the name. -/
theorem ofClass_mem_of_findClass? {binding : ClassBinding}
    (found : bindings.findClass? name = some binding) :
    .ofClass binding ∈ bindings ∧ binding.name = name := by
  have named : binding.name = name := by simpa using List.find?_some found
  rcases List.mem_filterMap.mp (List.mem_of_find?_eq_some found) with ⟨entry, member, same⟩
  cases entry with
  | ofClass declared =>
    cases same
    exact ⟨member, named⟩
  | _ => cases same

end Bindings

namespace Scope

variable {scope : Scope} {index : Nat} {type : TypeDef}

/-- A binding that is made unless there are mistakes is the one that is made. -/
theorem eq_of_mem_unless {Binding : Type} {mistakes : Prop} [Decidable mistakes]
    {made found : Binding} (member : found ∈ if mistakes then none else some made) :
    made = found := by
  split at member
  · cases member
  · exact Option.some.inj member

theorem declares_extractEnum : ∀ binding ∈ (scope.extractEnum index type).binding,
    TypeBinding.Declares index type (.ofEnum binding) := by
  intro binding found
  simp only [extractEnum] at found
  split at found
  · cases found
    exact ⟨rfl, rfl⟩
  · cases found

theorem gives_extractStruct : Gives (scope.extractStruct index type) fun found =>
    ∀ binding ∈ found.binding, TypeBinding.Declares index type (.ofStruct binding) := by
  refine .after fun fields => .after fun repr => .pure fun binding found => ?_
  rw [← eq_of_mem_unless found]
  exact ⟨rfl, rfl⟩

theorem gives_extractClass : Gives (scope.extractClass index type) fun found =>
    ∀ binding ∈ found.binding, TypeBinding.Declares index type (.ofClass binding) := by
  unfold extractClass
  split
  · refine .after fun members => .after fun functions => .pure fun binding found => ?_
    rw [← eq_of_mem_unless found]
    exact ⟨rfl, rfl⟩
  · exact .pure fun binding found => nomatch found

theorem gives_extractType : Gives (scope.extractType index type) fun found =>
    ∀ binding ∈ found.binding, TypeBinding.Declares index type binding := by
  unfold extractType
  dsimp only
  split
  · refine .pure fun binding found => ?_
    rcases Option.map_eq_some_iff.mp found with ⟨inner, member, rfl⟩
    exact declares_extractEnum inner member
  · split
    · refine .bind gives_extractStruct fun found each => .pure fun binding member => ?_
      rcases Option.map_eq_some_iff.mp member with ⟨inner, inside, rfl⟩
      exact each inner inside
    · split
      · refine .bind gives_extractClass fun found each => .pure fun binding member => ?_
        rcases Option.map_eq_some_iff.mp member with ⟨inner, inside, rfl⟩
        exact each inner inside
      · exact .pure fun binding found => nomatch found

theorem gives_examine : Gives (scope.examine type index) fun found =>
    ∀ binding ∈ found.binding, TypeBinding.Declares index type binding := by
  unfold examine
  split
  · exact .pure fun binding found => nomatch found
  · exact .bind gives_extractType fun found each => .pure each

/-- Every binding of a module is the binding of one of its types. -/
theorem exists_declares_of_mem_extract (scope : Scope) :
    ∀ binding ∈ scope.extract.bindings, ∃ index type, scope.module.types[index]? = some type ∧
      TypeBinding.Declares index type binding := by
  have examined : ∀ item ∈ scope.module.types.zipIdx, Gives (scope.examine item.1 item.2)
      fun found => ∀ binding ∈ found.binding, ∃ index type,
        scope.module.types[index]? = some type ∧ TypeBinding.Declares index type binding := by
    intro ⟨type, index⟩ member memory binding found
    exact ⟨index, type, List.mk_mem_zipIdx_iff_getElem?.mp member,
      gives_examine memory binding found⟩
  have given : Gives scope.extractWith fun extraction => ∀ binding ∈ extraction.bindings,
      ∃ index type, scope.module.types[index]? = some type ∧
        TypeBinding.Declares index type binding := by
    refine .bind (.mapM examined) fun results each => .pure fun binding member => ?_
    rcases List.mem_filterMap.mp member with ⟨result, inside, found⟩
    exact each result inside binding found
  exact given {}

/-- A type that has a binding stands in the module under the name of the binding. -/
theorem qualifiedName_of_mem_extract {binding : TypeBinding}
    (member : binding ∈ scope.extract.bindings)
    (present : scope.module.types[binding.place]? = some type) :
    type.qualifiedName = binding.name := by
  rcases scope.exists_declares_of_mem_extract binding member with ⟨_, own, there, rfl, named⟩
  cases present.symm.trans there
  exact named.symm

/-- What holds of the bindings that are made of structs, of classes and of enumerations holds of all
bindings of the module, each with the type that it was made of. -/
theorem forall_mem_extract {holds : TypeDef → TypeBinding → Prop}
    (enums : ∀ index type, ∀ binding ∈ (scope.extractEnum index type).binding,
      holds type (.ofEnum binding))
    (structs : ∀ index, ∀ type ∈ scope.module.types, type.kind = .structType →
      scope.config.isAnnotated type.attributes Annotation.nativeStruct = true →
        Gives (scope.extractStruct index type) fun found =>
          ∀ binding ∈ found.binding, holds type (.ofStruct binding))
    (classes : ∀ index, ∀ type ∈ scope.module.types, type.kind = .classType →
      Gives (scope.extractClass index type) fun found =>
        ∀ binding ∈ found.binding, holds type (.ofClass binding))
    {binding : TypeBinding} (member : binding ∈ scope.extract.bindings)
    (present : scope.module.types[binding.place]? = some type) : holds type binding := by
  have extracted : ∀ type ∈ scope.module.types, ∀ index, Gives (scope.extractType index type)
      fun found => ∀ binding ∈ found.binding, holds type binding := by
    intro type listed index
    unfold extractType
    dsimp only
    split
    · refine .pure fun binding found => ?_
      rcases Option.map_eq_some_iff.mp found with ⟨inner, member, rfl⟩
      exact enums index type inner member
    · split
      · next declared =>
        refine .bind (structs index type listed declared.1 declared.2) fun found each =>
          .pure fun binding member => ?_
        rcases Option.map_eq_some_iff.mp member with ⟨inner, inside, rfl⟩
        exact each inner inside
      · split
        · next declared =>
          refine .bind (classes index type listed declared.1) fun found each =>
            .pure fun binding member => ?_
          rcases Option.map_eq_some_iff.mp member with ⟨inner, inside, rfl⟩
          exact each inner inside
        · exact .pure fun _ impossible => nomatch impossible
  have examined : ∀ item ∈ scope.module.types.zipIdx, Gives (scope.examine item.1 item.2)
      fun found => ∀ binding ∈ found.binding, ∃ type,
        scope.module.types[binding.place]? = some type ∧ holds type binding := by
    intro ⟨type, index⟩ listed memory binding found
    have here := List.mk_mem_zipIdx_iff_getElem?.mp listed
    rcases gives_examine memory binding found with ⟨rfl, _⟩
    refine ⟨type, here, ?_⟩
    have each : Gives (scope.examine type binding.place) fun found =>
        ∀ binding ∈ found.binding, holds type binding := by
      unfold examine
      split
      · exact .pure fun _ impossible => nomatch impossible
      · exact .bind (extracted type (List.mem_of_getElem? here) _) fun found each => .pure each
    exact each memory binding found
  have given : Gives scope.extractWith fun extraction => ∀ binding ∈ extraction.bindings,
      ∃ type, scope.module.types[binding.place]? = some type ∧ holds type binding := by
    refine .bind (.mapM examined) fun results each => .pure fun binding member => ?_
    rcases List.mem_filterMap.mp member with ⟨result, inside, found⟩
    exact each result inside binding found
  rcases given {} binding member with ⟨own, there, known⟩
  cases present.symm.trans there
  exact known

end Scope

/-! ## A type by itself

The binding of a type is made for its kind, so that an examination is no more than the extraction of
that kind, as long as the native name is free. -/

namespace Scope

variable {scope : Scope} {type : TypeDef} {place : Nat} {before after : Memory}

/-- A class right below the native root derives from it. -/
theorem derivesFromRoot_of_base? {name : QualifiedName}
    (base : scope.base? name = some scope.config.root) : scope.derivesFromRoot name = true := by
  rw [derivesFromRoot, reachesRoot, dif_neg List.not_mem_nil]
  split
  · next missing => cases base.symm.trans missing
  · next found same =>
    cases base.symm.trans same
    rw [beq_self_eq_true, Bool.true_or]

/-- What was extracted is the outcome of the examination, if the native name is not taken. -/
theorem examine_eq_of_extractType {binding : TypeBinding}
    (ordinary : scope.config.isWrapperOnly type.name = false)
    (free : scope.nameCollision type binding = [])
    (extracted : scope.extractType place type before = (⟨some binding, []⟩, after)) :
    scope.examine type place before = (⟨some binding, []⟩, after) := by
  rw [examine, ordinary, if_neg Bool.false_ne_true]
  simp only [bind, StateT.bind, extracted]
  change ((⟨some binding, scope.nameCollision type binding ++ []⟩ : Extracted TypeBinding),
    after) = _
  rw [free]
  rfl

theorem examine_eq_ofEnum {binding : EnumBinding}
    (ordinary : scope.config.isWrapperOnly type.name = false) (kind : type.kind = .enumType)
    (annotated : scope.config.isAnnotated type.attributes Annotation.nativeEnum = true)
    (free : scope.nameCollision type (.ofEnum binding) = [])
    (extracted : scope.extractEnum place type = ⟨some binding, []⟩) :
    scope.examine type place before = (⟨some (.ofEnum binding), []⟩, before) := by
  refine examine_eq_of_extractType ordinary free ?_
  simp only [extractType, kind, annotated]
  rw [if_pos ⟨trivial, trivial⟩, extracted]
  rfl

theorem examine_eq_ofStruct {binding : StructBinding}
    (ordinary : scope.config.isWrapperOnly type.name = false) (kind : type.kind = .structType)
    (annotated : scope.config.isAnnotated type.attributes Annotation.nativeStruct = true)
    (free : scope.nameCollision type (.ofStruct binding) = [])
    (extracted : scope.extractStruct place type before = (⟨some binding, []⟩, after)) :
    scope.examine type place before = (⟨some (.ofStruct binding), []⟩, after) := by
  refine examine_eq_of_extractType ordinary free ?_
  simp only [extractType, kind, annotated]
  rw [if_neg (by rintro ⟨⟨⟩, _⟩), if_pos ⟨trivial, trivial⟩]
  simp only [bind, StateT.bind, extracted]
  rfl

theorem examine_eq_ofClass {binding : ClassBinding}
    (ordinary : scope.config.isWrapperOnly type.name = false) (kind : type.kind = .classType)
    (annotated : scope.config.isAnnotated type.attributes Annotation.nativeClass = true)
    (native : scope.derivesFromRoot type.qualifiedName = true)
    (free : scope.nameCollision type (.ofClass binding) = [])
    (extracted : scope.extractDerived place type before = (⟨some binding, []⟩, after)) :
    scope.examine type place before = (⟨some (.ofClass binding), []⟩, after) := by
  refine examine_eq_of_extractType ordinary free ?_
  simp only [extractType, kind, annotated]
  rw [if_neg (by rintro ⟨⟨⟩, _⟩), if_neg (by rintro ⟨⟨⟩, _⟩), if_pos ⟨trivial, trivial⟩,
    extractClass, if_pos native]
  simp only [bind, StateT.bind, extracted]
  rfl

/-- All that is made of a list with one item is what is made of the item. -/
theorem mapM_zipIdx_singleton {α β : Type} {items : List α} {item : α}
    {step : α × Nat → Remembering β} {made : β} (only : items = [item])
    (run : step (item, 0) before = (made, after)) :
    items.zipIdx.mapM step before = ([made], after) := by
  rw [only, List.zipIdx_cons, List.zipIdx_nil, List.mapM_cons]
  simp only [bind, StateT.bind, run]
  rfl

/-- The only type of a module is all that is extracted. -/
theorem extract_eq_singleton {binding : TypeBinding} (types : scope.module.types = [type])
    (examined : scope.examine type 0 {} = (⟨some binding, []⟩, after)) :
    scope.extract = ⟨[binding], []⟩ := by
  rw [extract, extractWith, types, List.zipIdx_cons, List.zipIdx_nil, List.mapM_cons]
  simp only [bind, StateT.bind, examined]
  rfl

end Scope

end NativeWeave
