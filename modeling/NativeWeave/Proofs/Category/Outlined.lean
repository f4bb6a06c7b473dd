import NativeWeave.Proofs.Category.Flatness
import NativeWeave.Proofs.Category.Query
import NativeWeave.Proofs.Outcome

namespace NativeWeave

/-!
# What outlines decide about answers

Much of what a category says about its type is there to be read in the outlines of the type and its
elements: the representation of a struct has no part in it.  Whatever is so holds of every answer that
classification gives, since it holds of every answer that classification remembers.  In particular a
category names a struct or a class only for a type which is that name, and only if the name has a
declaration within reach.
-/

namespace Scope

/-- A condition on types, the shapes of members that have them, and their categories that outlines
decide, for containers together with their elements. -/
structure Outlined (scope : Scope) (fits : Signature → MemberShape → Category → Prop) : Prop where
  settled : ∀ {type shape category}, scope.outline type shape = .ok (.settled category) →
    fits type shape category
  struct : ∀ {type shape struct owner}, scope.outline type shape = .ok (.struct struct owner) →
    ∀ repr nativeName, fits type shape (.struct repr nativeName owner)
  array : ∀ {type shape element dim}, scope.outline type shape = .ok (.array element dim) →
    ∀ inner, fits element {} inner → fits type shape (.array inner element dim)
  list : ∀ {type shape element}, scope.outline type shape = .ok (.list element) →
    ∀ inner, fits element {} inner → fits type shape (.list inner element)

end Scope

variable {fits : Signature → MemberShape → Category → Prop} {type : Signature}
  {shape : MemberShape}

/-- The answer is a refusal, or a category that satisfies the condition. -/
def Fitting (fits : Signature → MemberShape → Category → Prop) (type : Signature)
    (shape : MemberShape) (answer : Except Refusal Category) : Prop :=
  ∀ category, answer = .ok category → fits type shape category

theorem fitting_refusal (refusal : Refusal) : Fitting fits type shape (.error refusal) :=
  fun _ impossible => nomatch impossible

theorem fitting_ok {category : Category} (holds : fits type shape category) :
    Fitting fits type shape (.ok category) := by
  rintro other ⟨rfl⟩
  exact holds

theorem Scope.fitting_containerOf {element : Signature} {wrap : Category → Category}
    {inner : Except Refusal Category} (fitting : Fitting fits element {} inner)
    (each : ∀ category, fits element {} category → fits type shape (wrap category)) :
    Fitting fits type shape (containerOf type wrap inner) := by
  intro category made
  unfold containerOf at made
  rcases bind_eq_ok_iff.mp made with ⟨found, answer, wrapped⟩
  split at wrapped
  · cases wrapped
    exact each found (fitting found answer)
  · cases wrapped

/-- All answers that are remembered satisfy the condition. -/
def Memory.Fitting (fits : Signature → MemberShape → Category → Prop) (memory : Memory) : Prop :=
  ∀ {type shape answer}, memory.category? type shape = some answer →
    NativeWeave.Fitting fits type shape answer

namespace Memory.Fitting

variable {memory : Memory}

theorem empty : ({} : Memory).Fitting fits :=
  fun found => nomatch found

theorem withCategory {answer : Except Refusal Category} (holds : memory.Fitting fits)
    (fitting : NativeWeave.Fitting fits type shape answer) :
    (memory.withCategory type shape answer).Fitting fits := by
  intro other otherShape found remembered
  rw [category?_withCategory] at remembered
  split at remembered
  · next same =>
    cases same
    cases remembered
    exact fitting
  · exact holds remembered

theorem withRepr (holds : memory.Fitting fits) (name : QualifiedName) (repr : StructRepr) :
    (memory.withRepr name repr).Fitting fits :=
  holds

theorem withHash (holds : memory.Fitting fits) (name : QualifiedName) (hash : String) :
    (memory.withHash name hash).Fitting fits :=
  holds

end Memory.Fitting

open Remembering

namespace Scope.Outlined

variable {scope : Scope}

mutual

/-- With or without looking it up, a type gets an answer that satisfies the condition. -/
theorem classifyWith (outlined : scope.Outlined fits) (busy : List QualifiedName)
    (type : Signature) (shape : MemberShape) :
    Keeps (Memory.Fitting fits) (scope.classifyWith busy type shape) (Fitting fits type shape) := by
  rw [Scope.classifyWith]
  refine .reading fun seen holds => ?_
  split
  · next answer found => exact Keeps.pure (holds found)
  · refine .bind (outlined.classifyAnew busy type shape) fun answer fitting => ?_
    exact .modify (fun memory holds => holds.withCategory fitting) fitting
termination_by (unvisited scope.declared busy, 1, 2 * sizeOf type + 1)

theorem classifyAnew (outlined : scope.Outlined fits) (busy : List QualifiedName)
    (type : Signature) (shape : MemberShape) :
    Keeps (Memory.Fitting fits) (scope.classifyAnew busy type shape) (Fitting fits type shape) := by
  rw [Scope.classifyAnew]
  split
  · next refusal found => exact Keeps.pure (fitting_refusal refusal)
  · next category found => exact Keeps.pure (fitting_ok (outlined.settled found))
  · next struct owner found =>
    refine .bind (outlined.reprWith? busy struct) fun repr? _ => ?_
    cases repr? with
    | none => exact Keeps.pure (fitting_refusal _)
    | some repr => exact Keeps.pure (fitting_ok (outlined.struct found repr _))
  · next element dim found =>
    have smaller := sizeOf_element_lt found rfl
    refine .bind (outlined.classifyWith busy element {}) fun answer fitting => Keeps.pure ?_
    exact fitting_containerOf fitting (outlined.array found)
  · next element found =>
    have smaller := sizeOf_element_lt found rfl
    refine .bind (outlined.classifyWith busy element {}) fun answer fitting => Keeps.pure ?_
    exact fitting_containerOf fitting (outlined.list found)
termination_by (unvisited scope.declared busy, 1, 2 * sizeOf type)

theorem reprWith? (outlined : scope.Outlined fits) (busy : List QualifiedName) (struct : TypeDef) :
    Keeps (Memory.Fitting fits) (scope.reprWith? busy struct) fun _ => True := by
  rw [Scope.reprWith?]
  split
  · exact Keeps.pure trivial
  · refine .reading fun seen holds => ?_
    split
    · exact Keeps.pure trivial
    · split
      · next home =>
        split
        · exact Keeps.pure trivial
        · split
          · exact Keeps.pure trivial
          · next free =>
            have fewer := unvisited_cons_lt free (mem_declared_of_isLocal home)
            refine .bind (outlined.areBlittable _ _) fun blittable _ => ?_
            exact .modify (fun memory holds => holds.withRepr _ _) trivial
      · split
        · exact Keeps.pure trivial
        · exact .modify (fun memory holds => holds.withRepr _ _) trivial
termination_by (unvisited scope.declared busy, 0, 0)
decreasing_by exact .left _ _ fewer

theorem areBlittable (outlined : scope.Outlined fits) (busy : List QualifiedName)
    (fields : List Field) :
    Keeps (Memory.Fitting fits) (scope.areBlittable busy fields) fun _ => True := by
  cases fields with
  | nil =>
    rw [Scope.areBlittable]
    exact Keeps.pure trivial
  | cons field more =>
    rw [Scope.areBlittable]
    split
    · exact Keeps.pure trivial
    · next attr exposed =>
      refine .bind (outlined.classifyWith busy field.type attr.shape) fun answer _ => ?_
      cases answer with
      | error refusal => exact Keeps.pure trivial
      | ok category =>
        dsimp only
        split
        · exact outlined.areBlittable busy more
        · exact Keeps.pure trivial
termination_by (unvisited scope.declared busy, 2, fields.length)

end

theorem classify (outlined : scope.Outlined fits) (type : Signature) (shape : MemberShape) :
    Keeps (Memory.Fitting fits) (scope.classify type shape) (Fitting fits type shape) :=
  outlined.classifyWith [] type shape

theorem structRepr? (outlined : scope.Outlined fits) (struct : TypeDef) :
    Keeps (Memory.Fitting fits) (scope.structRepr? struct) fun _ => True :=
  outlined.reprWith? [] struct

theorem sustains (outlined : scope.Outlined fits) : scope.Sustains (Memory.Fitting fits) where
  classify type shape := (outlined.classify type shape).mono (fun _ => id) fun _ _ => trivial
  withHash _ name hash holds := holds.withHash name hash

/-- Whatever was asked, what is remembered of it satisfies a condition that outlines decide. -/
theorem remembered (outlined : scope.Outlined fits) (queries : List Query) :
    (scope.remembered queries).Fitting fits := by
  refine @fit_remembered scope queries (Memory.Fitting fits) Memory.Fitting.empty fun query _ => ?_
  cases query with
  | category type shape => exact .discard (outlined.classify type shape)
  | repr struct => exact .discard (outlined.structRepr? struct)
  | hash owner category => exact .discard (outlined.sustains.hashOverride? owner category)

end Scope.Outlined

/-! ## What a category says about its type -/

namespace Scope

/-- The category fits the type: a struct, or a class whose objects it refers to, is what the type
names, and it is declared. -/
def Explains (scope : Scope) (type : Signature) : Category → Prop
  | .struct _ _ owner => type = .named owner ∧ (scope.resolve? owner).isSome = true
  | .object target | .subobject target =>
    type = target ∧ ∃ name, target = .named name ∧ (scope.resolve? name).isSome = true
  | _ => True

/-- An answer of classification is a refusal or a category that fits the type. -/
def Answers (scope : Scope) (type : Signature) (answer : Except Refusal Category) : Prop :=
  ∀ category, answer = .ok category → scope.Explains type category

end Scope

/-- All categories that are remembered fit their types. -/
def Memory.Explained (scope : Scope) (memory : Memory) : Prop :=
  ∀ {type shape answer}, memory.category? type shape = some answer → scope.Answers type answer

/-- Nothing is remembered to begin with. -/
theorem Memory.Explained.empty {scope : Scope} : ({} : Memory).Explained scope :=
  fun found => nomatch found

namespace Scope

variable {scope : Scope} {type : Signature} {shape : MemberShape}

/-- What the declaration of a type settles fits the type. -/
theorem explains_of_outline {category : Category}
    (known : scope.outline type shape = .ok (.settled category)) : scope.Explains type category := by
  unfold outline primitiveOutline namedOutline genericOutline at known
  repeat' split at known
  all_goals cases known
  all_goals try trivial
  · exact ⟨rfl, _, rfl, Option.isSome_iff_exists.mpr ⟨_, ‹_›⟩⟩
  · exact ⟨rfl, _, rfl, Option.isSome_iff_exists.mpr ⟨_, ‹_›⟩⟩

/-- A type that is examined as a struct is the name of the struct. -/
theorem eq_named_of_outline {struct : TypeDef} {owner : QualifiedName}
    (named : scope.outline type shape = .ok (.struct struct owner)) : type = .named owner := by
  unfold outline primitiveOutline namedOutline genericOutline at named
  repeat' split at named
  all_goals cases named
  rfl

theorem outlined_explains : scope.Outlined fun type _ => scope.Explains type where
  settled := explains_of_outline
  struct found _ _ := ⟨eq_named_of_outline found,
    Option.isSome_iff_exists.mpr ⟨_, (resolve?_of_outline found).1⟩⟩
  array _ _ _ := trivial
  list _ _ _ := trivial

end Scope

end NativeWeave
