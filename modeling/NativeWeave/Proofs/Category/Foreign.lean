import NativeWeave.Proofs.Category.Outlined
import NativeWeave.Proofs.Category.Query

namespace NativeWeave

/-!
# Types that another module declares

What is said about a type that another module declares depends on its declaration only.  It is the
same whatever was asked before: structs of the module at hand may be asked for that are not what
their names mean, but these names are not those of the other module.
-/

open Remembering

namespace Scope

/-- The name of the type is not declared in the module at hand, and means the type. -/
structure Imports (scope : Scope) (type : TypeDef) : Prop where
  abroad : scope.isLocal type.qualifiedName = false
  resolved : scope.resolve? type.qualifiedName = some type

/-- An answer about the name of an imported type is right. -/
def RightAbroad (scope : Scope) (type : Signature) (shape : MemberShape)
    (answer : Except Refusal Category) : Prop :=
  ∀ {declared}, scope.Imports declared → type = .named declared.qualifiedName →
    answer = scope.categoryOf type shape

/-- The struct is declared in the module at hand or is what its name means. -/
def MayAsk (scope : Scope) (struct : TypeDef) : Prop :=
  scope.isLocal struct.qualifiedName = true ∨
    scope.resolve? struct.qualifiedName = some struct

end Scope

/-- What is remembered of imported types is right. -/
structure Memory.SoundAbroad (scope : Scope) (memory : Memory) : Prop where
  categories : ∀ {type shape answer}, memory.category? type shape = some answer →
    scope.RightAbroad type shape answer
  reprs : ∀ {struct repr}, scope.Imports struct →
    memory.repr? struct.qualifiedName = some repr → scope.reprOf? struct = some repr

namespace Memory.SoundAbroad

variable {scope : Scope} {memory : Memory}

theorem empty : ({} : Memory).SoundAbroad scope :=
  ⟨nofun, fun _ => nofun⟩

theorem withCategory {type : Signature} {shape : MemberShape} {answer : Except Refusal Category}
    (sound : memory.SoundAbroad scope) (right : scope.RightAbroad type shape answer) :
    (memory.withCategory type shape answer).SoundAbroad scope where
  categories := by
    intro other otherShape found remembered
    rw [category?_withCategory] at remembered
    split at remembered
    · next same =>
      cases same
      cases remembered
      exact right
    · exact sound.categories remembered
  reprs := sound.reprs

theorem withRepr {name : QualifiedName} {repr : StructRepr} (sound : memory.SoundAbroad scope)
    (right : ∀ {struct}, scope.Imports struct → struct.qualifiedName = name →
      scope.reprOf? struct = some repr) :
    (memory.withRepr name repr).SoundAbroad scope where
  categories := sound.categories
  reprs := by
    intro struct found imported remembered
    rw [repr?_withRepr] at remembered
    split at remembered
    · next same =>
      cases remembered
      exact right imported same.symm
    · exact sound.reprs imported remembered

theorem withHash (sound : memory.SoundAbroad scope) (name : QualifiedName) (hash : String) :
    (memory.withHash name hash).SoundAbroad scope :=
  ⟨sound.categories, sound.reprs⟩

end Memory.SoundAbroad

namespace Scope

variable {scope : Scope} {busy : List QualifiedName} {type : Signature} {shape : MemberShape}
  {struct : TypeDef}

theorem Imports.reprOf?_eq (imported : scope.Imports struct)
    (plain : scope.config.isCoreStruct struct.qualifiedName = false) :
    scope.reprOf? struct = scope.foreignRepr? struct := by
  unfold reprOf?
  simp [plain, imported.abroad]

theorem Imports.not_isLocal {name : QualifiedName} (imported : scope.Imports struct)
    (same : struct.qualifiedName = name) : ¬ scope.isLocal name = true := by
  rw [← same, imported.abroad]
  exact Bool.false_ne_true

/-- No container is a name. -/
theorem rightAbroad_of_element {element : Signature} {container : Outline}
    {answer : Except Refusal Category} (found : scope.outline type shape = .ok container)
    (inside : container.element? = some element) : scope.RightAbroad type shape answer := by
  rintro declared _ rfl
  unfold outline namedOutline at found
  dsimp only at found
  repeat' split at found
  all_goals cases found
  all_goals cases inside

mutual

/-- With or without looking it up, the name of an imported type is given its category. -/
theorem soundAbroad_classifyWith (scope : Scope) (busy : List QualifiedName) (type : Signature)
    (shape : MemberShape) : Keeps (Memory.SoundAbroad scope) (scope.classifyWith busy type shape)
      (scope.RightAbroad type shape) := by
  rw [classifyWith]
  refine .reading fun seen sound => ?_
  split
  · next answer found => exact Keeps.pure (sound.categories found)
  · refine .bind (scope.soundAbroad_classifyAnew busy type shape) fun answer right => ?_
    exact .modify (fun memory sound => sound.withCategory right) right
termination_by (unvisited scope.declared busy, 1, 2 * sizeOf type + 1)

theorem soundAbroad_classifyAnew (scope : Scope) (busy : List QualifiedName) (type : Signature)
    (shape : MemberShape) : Keeps (Memory.SoundAbroad scope) (scope.classifyAnew busy type shape)
      (scope.RightAbroad type shape) := by
  rw [classifyAnew]
  split
  · next refusal found => exact Keeps.pure fun _ _ => by rw [categoryOf_eq, found]
  · next category found => exact Keeps.pure fun _ _ => by rw [categoryOf_eq, found]
  · next struct owner found =>
    have resolved := (resolve?_of_outline found).1
    have named := qualifiedName_of_resolve? resolved
    rw [← named] at resolved
    refine .bind (scope.soundAbroad_reprWith? busy struct (.inr resolved)) fun answer right => ?_
    have outcome : ∀ {declared}, scope.Imports declared → type = .named declared.qualifiedName →
        answer = scope.reprOf? struct := by
      rintro declared imported rfl
      cases eq_named_of_outline found
      rw [named] at resolved
      cases resolved.symm.trans imported.resolved
      exact right imported
    cases answer with
    | none =>
      refine Keeps.pure fun imported same => ?_
      rw [categoryOf_eq, found]
      dsimp only
      rw [← outcome imported same]
    | some repr =>
      refine Keeps.pure fun imported same => ?_
      rw [categoryOf_eq, found]
      dsimp only
      rw [← outcome imported same]
  · next element dim found =>
    have smaller := sizeOf_element_lt found rfl
    refine .bind (scope.soundAbroad_classifyWith busy element {}) fun answer _ => Keeps.pure ?_
    exact rightAbroad_of_element found rfl
  · next element found =>
    have smaller := sizeOf_element_lt found rfl
    refine .bind (scope.soundAbroad_classifyWith busy element {}) fun answer _ => Keeps.pure ?_
    exact rightAbroad_of_element found rfl
termination_by (unvisited scope.declared busy, 1, 2 * sizeOf type)

theorem soundAbroad_reprWith? (scope : Scope) (busy : List QualifiedName) (struct : TypeDef)
    (known : scope.MayAsk struct) :
    Keeps (Memory.SoundAbroad scope) (scope.reprWith? busy struct) fun repr =>
      scope.Imports struct → repr = scope.reprOf? struct := by
  rw [reprWith?]
  split
  · next core => exact Keeps.pure fun _ => by rw [reprOf?, if_pos core]
  · next plain =>
    rw [Bool.not_eq_true] at plain
    refine .reading fun seen sound => ?_
    split
    · next repr found => exact Keeps.pure fun imported => (sound.reprs imported found).symm
    · split
      · next home =>
        have never : ∀ {answer : Option StructRepr}, scope.Imports struct →
            answer = scope.reprOf? struct :=
          fun imported => absurd home (imported.not_isLocal rfl)
        split
        · exact Keeps.pure never
        · split
          · exact Keeps.pure never
          · next free =>
            have fewer := unvisited_cons_lt free (mem_declared_of_isLocal home)
            refine .bind (scope.soundAbroad_areBlittable _ _) fun blittable _ => ?_
            refine .modify (fun memory sound => sound.withRepr fun imported same => ?_) never
            exact absurd home (imported.not_isLocal same)
      · next abroad =>
        have resolved := known.resolve_left abroad
        split
        · next unbound =>
          exact Keeps.pure fun imported => by rw [imported.reprOf?_eq plain, unbound]
        · next repr bound =>
          refine .modify (fun memory sound => sound.withRepr fun {other} imported same => ?_)
            fun imported => by rw [imported.reprOf?_eq plain, bound]
          cases resolved.symm.trans (same ▸ imported.resolved)
          rw [imported.reprOf?_eq plain, bound]
termination_by (unvisited scope.declared busy, 0, 0)
decreasing_by exact .left _ _ fewer

theorem soundAbroad_areBlittable (scope : Scope) (busy : List QualifiedName)
    (fields : List Field) :
    Keeps (Memory.SoundAbroad scope) (scope.areBlittable busy fields) fun _ => True := by
  cases fields with
  | nil =>
    rw [areBlittable]
    exact Keeps.pure trivial
  | cons field more =>
    rw [areBlittable]
    split
    · exact Keeps.pure trivial
    · next attr exposed =>
      refine .bind (scope.soundAbroad_classifyWith busy field.type attr.shape) fun answer _ => ?_
      cases answer with
      | error refusal => exact Keeps.pure trivial
      | ok category =>
        dsimp only
        split
        · exact scope.soundAbroad_areBlittable busy more
        · exact Keeps.pure trivial
termination_by (unvisited scope.declared busy, 2, fields.length)

end

theorem soundAbroad_classify (type : Signature) (shape : MemberShape) :
    Keeps (Memory.SoundAbroad scope) (scope.classify type shape) (scope.RightAbroad type shape) :=
  scope.soundAbroad_classifyWith [] type shape

theorem sustains_soundAbroad : scope.Sustains (Memory.SoundAbroad scope) where
  classify type shape := (soundAbroad_classify type shape).mono (fun _ => id) fun _ _ => trivial
  withHash _ name hash sound := sound.withHash name hash

end Scope

/-- The question is none about a struct, or about one that may be asked for. -/
def Query.IsDeclared (scope : Scope) : Query → Prop
  | category _ _ => True
  | repr struct => scope.MayAsk struct
  | hash _ _ => True

/-- Whatever was asked, what is remembered of imported types is right. -/
theorem Scope.soundAbroad_remembered {scope : Scope} {queries : List Query}
    (declared : ∀ query ∈ queries, query.IsDeclared scope) :
    (scope.remembered queries).SoundAbroad scope := by
  refine fit_remembered .empty fun query member => ?_
  cases query with
  | category type shape => exact .discard (soundAbroad_classify type shape)
  | repr struct => exact .discard (scope.soundAbroad_reprWith? [] struct (declared _ member))
  | hash owner category => exact .discard (sustains_soundAbroad.hashOverride? owner category)

end NativeWeave
