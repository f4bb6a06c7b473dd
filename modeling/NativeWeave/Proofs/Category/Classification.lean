import NativeWeave.Proofs.Category.Flatness
import NativeWeave.Proofs.Category.Memory
import NativeWeave.Proofs.Outcome

namespace NativeWeave

/-!
# Classification does not depend on what is remembered

Every struct has one representation and every type one category, whatever was asked before.  A
struct that is asked for while its own fields are examined is answered without looking, and answers
that rest on this one are remembered.  They are right: such a struct lies inside itself or inside a
container of its own, so that it is a generic struct in truth.
-/

open Relation (TransGen)
open Remembering

namespace Scope

/-! ## The answers -/

open Classical in
/-- The representation of a struct, by the least set of flat structs. -/
noncomputable def reprOf? (scope : Scope) (struct : TypeDef) : Option StructRepr :=
  if scope.config.isCoreStruct struct.qualifiedName then
    some .core
  else if scope.isLocal struct.qualifiedName then
    if scope.config.isAnnotated struct.attributes Annotation.nativeStruct then
      some (if ∀ field ∈ struct.instanceFields, scope.FlatField scope.flatStructs field then
        .blittable else .generic)
    else
      none
  else
    scope.foreignRepr? struct

/-- The category of a type, by the representations of structs. -/
noncomputable def categoryOf (scope : Scope) (type : Signature) (shape : MemberShape) :
    Except Refusal Category :=
  match _found : scope.outline type shape with
  | .error refusal => .error refusal
  | .ok (.settled category) => .ok category
  | .ok (.struct struct owner) =>
    match scope.reprOf? struct with
    | none => .error (.unsupported type)
    | some repr =>
      .ok (.struct repr (scope.config.nativeTypeName struct Annotation.nativeStruct) owner)
  | .ok (.array element dim) =>
    containerOf type (.array · element dim) (scope.categoryOf element {})
  | .ok (.list element) => containerOf type (.list · element) (scope.categoryOf element {})
termination_by sizeOf type
decreasing_by
  · exact sizeOf_element_lt _found rfl
  · exact sizeOf_element_lt _found rfl

/-- The category follows the outline. -/
theorem categoryOf_eq (scope : Scope) (type : Signature) (shape : MemberShape) :
    scope.categoryOf type shape =
      match scope.outline type shape with
      | .error refusal => .error refusal
      | .ok (.settled category) => .ok category
      | .ok (.struct struct owner) =>
        match scope.reprOf? struct with
        | none => .error (.unsupported type)
        | some repr =>
          .ok (.struct repr (scope.config.nativeTypeName struct Annotation.nativeStruct) owner)
      | .ok (.array element dim) =>
        containerOf type (.array · element dim) (scope.categoryOf element {})
      | .ok (.list element) => containerOf type (.list · element) (scope.categoryOf element {}) := by
  rw [categoryOf]
  split <;> rename_i found <;> rw [found]

variable {scope : Scope} {busy : List QualifiedName} {type element : Signature}
  {shape : MemberShape} {struct : TypeDef} {owner : QualifiedName}

theorem reprOf?_of_annotated {blittable : Bool}
    (plain : scope.config.isCoreStruct struct.qualifiedName = false)
    (home : scope.isLocal struct.qualifiedName = true)
    (annotated : scope.config.isAnnotated struct.attributes Annotation.nativeStruct = true)
    (answer : blittable = true ↔
      ∀ field ∈ struct.instanceFields, scope.FlatField scope.flatStructs field) :
    scope.reprOf? struct = some (if blittable then .blittable else .generic) := by
  unfold reprOf?
  rw [if_neg (Bool.not_eq_true _ ▸ plain), if_pos home, if_pos annotated]
  split <;> simp_all

theorem reprOf?_eq_blittable_iff (named : scope.outline type shape = .ok (.struct struct owner)) :
    scope.reprOf? struct = some .blittable ↔ scope.FlatType scope.flatStructs type shape := by
  rcases resolve?_of_outline named with ⟨resolved, kind⟩
  rw [← qualifiedName_of_resolve? resolved] at resolved
  have inFlat : struct.qualifiedName ∈ scope.flatStructs → scope.BindsFields struct := by
    intro member
    rcases mem_flatStructs_iff.mp member with ⟨other, found, own, _⟩
    cases resolved.symm.trans found
    exact own
  constructor
  · intro blittable
    unfold reprOf? at blittable
    split at blittable
    · cases blittable
    · next plain =>
      split at blittable
      · next home =>
        split at blittable
        · next annotated =>
          have own : scope.BindsFields struct := ⟨kind, home, annotated, Bool.not_eq_true _ ▸ plain⟩
          split at blittable
          · next fields => exact .struct named ((qualifiedName_mem_flatStructs_iff resolved own).mpr fields)
          · cases blittable
        · cases blittable
      · next abroad =>
        exact .foreign named (Bool.not_eq_true _ ▸ abroad) (Bool.not_eq_true _ ▸ plain) blittable
  · intro flatType
    cases flatType with
    | scalar known => cases named.symm.trans known
    | enumeration known => cases named.symm.trans known
    | foreign otherwise abroad plain blittable =>
      cases named.symm.trans otherwise
      unfold reprOf?
      simp only [plain, abroad, blittable, Bool.false_eq_true, if_false]
    | struct otherwise member =>
      cases named.symm.trans otherwise
      have own := inFlat member
      have fields := (qualifiedName_mem_flatStructs_iff resolved own).mp member
      unfold reprOf?
      rw [if_neg (Bool.not_eq_true _ ▸ own.plain), if_pos own.home, if_pos own.annotated, if_pos fields]

/-- The category of a container is no blittable one. -/
theorem not_blittable_of_containerOf {wrap : Category → Category} {inner : Except Refusal Category}
    (holds : ∀ category, (wrap category).isBlittable = false) {category : Category}
    (made : containerOf type wrap inner = .ok category) : category.isBlittable = false := by
  unfold containerOf at made
  rcases bind_eq_ok_iff.mp made with ⟨found, _, wrapped⟩
  split at wrapped
  · cases wrapped
    exact holds found
  · cases wrapped

/-- A flat type is no container. -/
theorem FlatType.outline {flat : Set QualifiedName} (flatType : scope.FlatType flat type shape) :
    (∃ category, scope.outline type shape = .ok (.settled category) ∧
      category.isBlittable = true) ∨
    ∃ struct owner, scope.outline type shape = .ok (.struct struct owner) := by
  cases flatType with
  | scalar known => exact .inl ⟨_, known, rfl⟩
  | enumeration known => exact .inl ⟨_, known, rfl⟩
  | foreign named => exact .inr ⟨_, _, named⟩
  | struct named => exact .inr ⟨_, _, named⟩

theorem not_flatType_of_element {flat : Set QualifiedName} {container : Outline}
    (found : scope.outline type shape = .ok container)
    (inside : container.element? = some element) : ¬ scope.FlatType flat type shape := by
  intro flatType
  rcases flatType.outline with ⟨_, known, _⟩ | ⟨_, _, named⟩
  · cases found.symm.trans known
    cases inside
  · cases found.symm.trans named
    cases inside

/-- A struct that exposes a container is not flat. -/
theorem not_mem_flatStructs_of_element {field : Field} {attr : Attribute} {container : Outline}
    (resolved : scope.resolve? struct.qualifiedName = some struct)
    (member : field ∈ struct.instanceFields)
    (exposed : scope.config.findAnnotation? field.attributes Annotation.nativeProperty = some attr)
    (found : scope.outline field.type attr.shape = .ok container)
    (inside : container.element? = some element) : struct.qualifiedName ∉ scope.flatStructs := by
  intro flat
  rcases mem_flatStructs_iff.mp flat with ⟨other, same, _, fields⟩
  cases resolved.symm.trans same
  rcases fields field member with ⟨again, shown, flatType⟩
  cases exposed.symm.trans shown
  exact not_flatType_of_element found inside flatType

/-- The flat types are those of a blittable category. -/
theorem flatType_iff_categoryOf : scope.FlatType scope.flatStructs type shape ↔
    ∃ category, scope.categoryOf type shape = .ok category ∧ category.isBlittable = true := by
  rw [categoryOf]
  split
  · next refusal found =>
    constructor
    · intro flatType
      rcases flatType.outline with ⟨_, known, _⟩ | ⟨_, _, named⟩
      · cases found.symm.trans known
      · cases found.symm.trans named
    · rintro ⟨_, impossible, _⟩
      cases impossible
  · next category found =>
    constructor
    · intro flatType
      rcases flatType.outline with ⟨_, known, blittable⟩ | ⟨_, _, named⟩
      · cases found.symm.trans known
        exact ⟨category, rfl, blittable⟩
      · cases found.symm.trans named
    · rintro ⟨_, ⟨rfl⟩, blittable⟩
      cases category with
      | scalar kind => exact .scalar found
      | enumeration nativeName owner => exact .enumeration found
      | struct repr nativeName owner => exact absurd rfl (ne_struct_of_outline found _ _ _)
      | _ => cases blittable
  · next struct owner found =>
    rw [← reprOf?_eq_blittable_iff found]
    cases scope.reprOf? struct with
    | none => simp
    | some repr => cases repr <;> simp [Category.isBlittable]
  all_goals
    next found =>
    constructor
    · exact fun flatType => absurd flatType (not_flatType_of_element found rfl)
    · rintro ⟨category, made, blittable⟩
      rw [not_blittable_of_containerOf (fun _ => rfl) made] at blittable
      cases blittable

theorem categoryOf_structList {repr : StructRepr}
    (listed : scope.outline type shape = .ok (.list element))
    (named : scope.outline element {} = .ok (.struct struct owner))
    (answer : scope.reprOf? struct = some repr) :
    scope.categoryOf type shape = .ok (.list (.struct repr
      (scope.config.nativeTypeName struct Annotation.nativeStruct) owner) element) := by
  rw [categoryOf_eq, listed]
  dsimp only
  rw [categoryOf_eq, named]
  dsimp only
  rw [answer]
  rfl

end Scope

/-- Everything remembered is right. -/
structure Memory.Sound (scope : Scope) (memory : Memory) : Prop where
  categories : ∀ {type shape answer}, memory.category? type shape = some answer →
    answer = scope.categoryOf type shape
  reprs : ∀ {struct repr}, scope.resolve? struct.qualifiedName = some struct →
    memory.repr? struct.qualifiedName = some repr → scope.reprOf? struct = some repr

namespace Memory.Sound

variable {scope : Scope} {memory : Memory}

theorem withCategory (sound : memory.Sound scope) (type : Signature) (shape : MemberShape) :
    (memory.withCategory type shape (scope.categoryOf type shape)).Sound scope where
  categories := by
    intro other otherShape answer found
    rw [category?_withCategory] at found
    split at found
    · next same =>
      cases same
      cases found
      rfl
    · exact sound.categories found
  reprs := sound.reprs

theorem withRepr (sound : memory.Sound scope) {struct : TypeDef} {repr : StructRepr}
    (resolved : scope.resolve? struct.qualifiedName = some struct)
    (right : scope.reprOf? struct = some repr) :
    (memory.withRepr struct.qualifiedName repr).Sound scope where
  categories := sound.categories
  reprs := by
    intro other answer found remembered
    rw [repr?_withRepr] at remembered
    split at remembered
    · next same =>
      rw [← same] at found
      cases resolved.symm.trans found
      cases remembered
      exact right
    · exact sound.reprs found remembered

end Memory.Sound

namespace Scope

variable {scope : Scope} {busy : List QualifiedName} {type element : Signature}
  {shape : MemberShape} {struct : TypeDef} {owner : QualifiedName}

/-- While flat structs are busy, only fields of flat structs inside them are asked for. -/
def Expects (scope : Scope) (busy : List QualifiedName) (type : Signature) (shape : MemberShape) :
    Prop :=
  ∀ name ∈ busy, name ∈ scope.flatStructs → scope.FlatType scope.flatStructs type shape ∧
    ∀ struct owner, scope.outline type shape = .ok (.struct struct owner) →
      scope.isLocal struct.qualifiedName = true →
        TransGen scope.Embeds struct.qualifiedName name

/-- No flat struct is busy when the element of a container is asked for. -/
theorem Expects.ofElement {container : Outline} (expected : scope.Expects busy type shape)
    (found : scope.outline type shape = .ok container)
    (inside : container.element? = some element) : scope.Expects busy element {} := by
  intro name occupied flat
  exact absurd (expected name occupied flat).1 (not_flatType_of_element found inside)

/-- A struct in the outline of an expected type lies inside the flat structs that are busy. -/
theorem Expects.embeds {name : QualifiedName} (expected : scope.Expects busy type shape)
    (named : scope.outline type shape = .ok (.struct struct owner))
    (home : scope.isLocal struct.qualifiedName = true) (occupied : name ∈ busy)
    (flat : name ∈ scope.flatStructs) : TransGen scope.Embeds struct.qualifiedName name :=
  (expected name occupied flat).2 struct owner named home

/-- Fields of a struct are expected while it is busy itself. -/
theorem expects_field {field : Field} {attr : Attribute}
    (resolved : scope.resolve? struct.qualifiedName = some struct)
    (inside : ∀ name ∈ busy, name ∈ scope.flatStructs →
      TransGen scope.Embeds struct.qualifiedName name)
    (member : field ∈ struct.instanceFields)
    (exposed : scope.config.findAnnotation? field.attributes Annotation.nativeProperty = some attr) :
    scope.Expects (struct.qualifiedName :: busy) field.type attr.shape := by
  intro name occupied flat
  have reached : name = struct.qualifiedName ∨ TransGen scope.Embeds struct.qualifiedName name :=
    (List.mem_cons.mp occupied).imp_right fun earlier => inside name earlier flat
  have structFlat : struct.qualifiedName ∈ scope.flatStructs := by
    rcases reached with rfl | embeds
    · exact flat
    · exact mem_flatStructs_of_embeds embeds flat
  rcases mem_flatStructs_iff.mp structFlat with ⟨other, found, _, fields⟩
  cases resolved.symm.trans found
  rcases fields field member with ⟨same, found, flatType⟩
  cases exposed.symm.trans found
  refine ⟨flatType, fun part owner named home => ?_⟩
  have step : scope.Embeds part.qualifiedName struct.qualifiedName :=
    ⟨struct, resolved, field, member, attr, exposed, part, owner, named, rfl, home⟩
  rcases reached with rfl | embeds
  · exact .single step
  · exact .head step embeds

/-! ## The walk finds them -/

/-- What is remembered about types and structs is right; what is remembered about hashes is as
given. -/
def Reliable (scope : Scope) (hashes : List (QualifiedName × String)) (memory : Memory) : Prop :=
  memory.Sound scope ∧ memory.hashes = hashes

mutual

/-- With or without looking it up, a type is given its category. -/
theorem keeps_classifyWith (scope : Scope) (hashes : List (QualifiedName × String))
    (busy : List QualifiedName) (type : Signature) (shape : MemberShape)
    (expected : scope.Expects busy type shape) :
    Keeps (scope.Reliable hashes) (scope.classifyWith busy type shape)
      (· = scope.categoryOf type shape) := by
  rw [classifyWith]
  refine .reading fun seen reliable => ?_
  split
  · next answer found => exact .pure (reliable.1.categories found)
  · refine .known (scope.keeps_classifyAnew hashes busy type shape expected) (.modify ?_ rfl)
    exact fun memory reliable => ⟨reliable.1.withCategory type shape, reliable.2⟩
termination_by (unvisited scope.declared busy, 1, 2 * sizeOf type + 1)

theorem keeps_classifyAnew (scope : Scope) (hashes : List (QualifiedName × String))
    (busy : List QualifiedName) (type : Signature) (shape : MemberShape)
    (expected : scope.Expects busy type shape) :
    Keeps (scope.Reliable hashes) (scope.classifyAnew busy type shape)
      (· = scope.categoryOf type shape) := by
  rw [classifyAnew]
  split
  · next refusal found => exact .pure (by rw [categoryOf_eq, found])
  · next category found => exact .pure (by rw [categoryOf_eq, found])
  · next struct owner found =>
    rcases resolve?_of_outline found with ⟨resolved, kind⟩
    rw [← qualifiedName_of_resolve? resolved] at resolved
    rw [categoryOf_eq, found]
    refine .known (scope.keeps_reprWith? hashes busy struct resolved (fun _ => kind)
      (fun home name => expected.embeds found home)) ?_
    dsimp only
    cases scope.reprOf? struct with
    | none => exact .pure rfl
    | some repr => exact .pure rfl
  · next element dim found =>
    have smaller := sizeOf_element_lt found rfl
    rw [categoryOf_eq, found]
    exact .known
      (scope.keeps_classifyWith hashes busy element {} (expected.ofElement found rfl)) (.pure rfl)
  · next element found =>
    have smaller := sizeOf_element_lt found rfl
    rw [categoryOf_eq, found]
    exact .known
      (scope.keeps_classifyWith hashes busy element {} (expected.ofElement found rfl)) (.pure rfl)
termination_by (unvisited scope.declared busy, 1, 2 * sizeOf type)

theorem keeps_reprWith? (scope : Scope) (hashes : List (QualifiedName × String))
    (busy : List QualifiedName) (struct : TypeDef)
    (resolved : scope.resolve? struct.qualifiedName = some struct)
    (kind : struct.qualifiedName ∈ busy → struct.kind = .structType)
    (inside : scope.isLocal struct.qualifiedName = true → ∀ name ∈ busy, name ∈ scope.flatStructs →
      TransGen scope.Embeds struct.qualifiedName name) :
    Keeps (scope.Reliable hashes) (scope.reprWith? busy struct) (· = scope.reprOf? struct) := by
  rw [reprWith?]
  split
  · next core => exact .pure (by rw [reprOf?, if_pos core])
  · next plain =>
    refine .reading fun seen reliable => ?_
    split
    · next repr found => exact .pure (reliable.1.reprs resolved found).symm
    · split
      · next home =>
        split
        · next bare =>
          exact .pure (by rw [reprOf?, if_neg plain, if_pos home, if_neg (by simpa using bare)])
        · next annotated =>
          rw [Bool.not_eq_true, Bool.not_eq_false'] at annotated
          rw [Bool.not_eq_true] at plain
          split
          · next occupied =>
            have generic : ¬ ∀ field ∈ struct.instanceFields,
                scope.FlatField scope.flatStructs field := by
              intro fields
              have flat := (qualifiedName_mem_flatStructs_iff resolved
                ⟨kind occupied, home, annotated, plain⟩).mpr fields
              exact not_embeds_itself flat (inside home _ occupied flat)
            have truth : scope.reprOf? struct = some .generic :=
              reprOf?_of_annotated plain home annotated (iff_of_false Bool.false_ne_true generic)
            exact .pure truth.symm
          · next free =>
            have fewer := unvisited_cons_lt free (mem_declared_of_isLocal home)
            refine .bind (scope.keeps_areBlittable hashes _ _ fun field member attr exposed =>
              expects_field resolved (inside home) member exposed) fun blittable answer => ?_
            have truth := reprOf?_of_annotated plain home annotated answer
            exact .modify
              (fun memory reliable => ⟨reliable.1.withRepr resolved truth, reliable.2⟩) truth.symm
      · next abroad =>
        have truth : scope.reprOf? struct = scope.foreignRepr? struct := by
          rw [reprOf?, if_neg plain, if_neg abroad]
        split
        · next unbound => exact .pure (by rw [truth, unbound])
        · next repr bound =>
          refine .modify (fun memory reliable => ⟨?_, reliable.2⟩) (by rw [truth, bound])
          exact reliable.1.withRepr resolved (by rw [truth, bound])
termination_by (unvisited scope.declared busy, 0, 0)
decreasing_by exact .left _ _ fewer

theorem keeps_areBlittable (scope : Scope) (hashes : List (QualifiedName × String))
    (busy : List QualifiedName) (fields : List Field)
    (expected : ∀ field ∈ fields, ∀ attr,
      scope.config.findAnnotation? field.attributes Annotation.nativeProperty = some attr →
        scope.Expects busy field.type attr.shape) :
    Keeps (scope.Reliable hashes) (scope.areBlittable busy fields)
      fun answer => answer = true ↔ ∀ field ∈ fields, scope.FlatField scope.flatStructs field := by
  cases fields with
  | nil =>
    rw [areBlittable]
    exact .pure (by simp)
  | cons field more =>
    rw [areBlittable]
    split
    · next hidden =>
      refine .pure ⟨nofun, fun fields => ?_⟩
      rcases fields field List.mem_cons_self with ⟨attr, exposed, _⟩
      cases hidden.symm.trans exposed
    · next attr exposed =>
      have first : scope.FlatField scope.flatStructs field ↔ ∃ category,
          scope.categoryOf field.type attr.shape = .ok category ∧ category.isBlittable = true := by
        rw [← flatType_iff_categoryOf, FlatField]
        constructor
        · rintro ⟨same, found, flatType⟩
          cases exposed.symm.trans found
          exact flatType
        · exact fun flatType => ⟨attr, exposed, flatType⟩
      refine .known (scope.keeps_classifyWith hashes busy field.type attr.shape
        (expected field List.mem_cons_self attr exposed)) ?_
      simp only [List.forall_mem_cons, first]
      cases scope.categoryOf field.type attr.shape with
      | error refusal => exact .pure (by simp)
      | ok category =>
        dsimp only
        split
        · next blittable =>
          refine (scope.keeps_areBlittable hashes busy more fun other member =>
            expected other (List.mem_cons_of_mem field member)).mono (fun _ => id) fun answer same => ?_
          simp [same, blittable]
        · next other => exact .pure (by simp [other])
termination_by (unvisited scope.declared busy, 2, fields.length)

end

end Scope

end NativeWeave
