import NativeWeave.Category.DeclaredHash
import NativeWeave.Proofs.Category.Classification

namespace NativeWeave

/-!
# Hashes of declarations and what is remembered of them

The hash of a declaration is made from the hashes of the structs that its fields refer to.  While it
is computed its struct is busy, and a busy struct contributes a mark in place of its hash.  A hash
that was computed from a mark depends on which structs were busy, and it is remembered none the
less.  Where no two different structs refer to each other the only mark is the one of a struct in
its own hash, which is there whenever that hash is computed.
-/

open Relation (ReflTransGen)
open Remembering

namespace Scope

variable {scope : Scope} {busy others : List QualifiedName} {name part other : QualifiedName}
  {type : TypeDef}

/-! ## References between declarations -/

/-- The exposed fields among the given ones, each with its category. -/
noncomputable def hashedFields (scope : Scope) (fields : List Field) :
    List (Field × Except Refusal Category) :=
  fields.filterMap fun field =>
    (scope.config.findAnnotation? field.attributes Annotation.nativeProperty).map fun attr =>
      (field, scope.categoryOf field.type attr.shape)

/-- One of the fields is exposed and depends on the struct. -/
def DependsOn (scope : Scope) (fields : List Field) (part : QualifiedName) : Prop :=
  ∃ exposed ∈ scope.hashedFields fields, ∃ category, exposed.2 = .ok category ∧
    category.hashDependency? = some part

/-- An exposed field of the first declaration depends on the second struct. -/
def Refers (scope : Scope) (name part : QualifiedName) : Prop :=
  ∃ type, scope.resolve? name = some type ∧ scope.DependsOn type.instanceFields part

/-- The second declaration is found by following references from the first. -/
abbrev Reaches (scope : Scope) : QualifiedName → QualifiedName → Prop :=
  ReflTransGen scope.Refers

/-- No two different declarations within reach refer to each other. -/
def Tame (scope : Scope) (name : QualifiedName) : Prop :=
  ∀ first, scope.Reaches name first → ∀ second, scope.Reaches first second →
    scope.Reaches second first → first = second

theorem Tame.ofReached (tame : scope.Tame name) (reached : scope.Reaches name part) :
    scope.Tame part :=
  fun first path => tame first (reached.trans path)

/-! ## Hashes without a memory -/

/-- What an exposed field adds to the hash of its struct, given the hashes of structs. -/
def declaredField (hashOf : QualifiedName → String) :
    Field × Except Refusal Category → DeclaredField
  | (field, .error _) => ⟨field.name, "unsupported:" ++ field.type.text, none⟩
  | (field, .ok category) => ⟨field.name, category.label, category.hashDependency?.map hashOf⟩

/-- The hash of a declaration while some structs are busy, if nothing is remembered. -/
noncomputable def pureHash (scope : Scope) (busy : List QualifiedName) (name : QualifiedName) :
    String :=
  if _occupied : name ∈ busy then
    cycleMark name
  else
    declaredHash name.full (match _found : scope.resolve? name with
      | some type => (scope.hashedFields type.instanceFields).map
          (declaredField fun part => scope.pureHash (name :: busy) part)
      | none => [])
termination_by unvisited scope.declared busy
decreasing_by exact unvisited_cons_lt _occupied (mem_declared_of_resolve? _found)

/-- The hash of a declaration that is not busy. -/
theorem pureHash_eq (free : name ∉ busy) : scope.pureHash busy name = declaredHash name.full
    (match scope.resolve? name with
      | some type => (scope.hashedFields type.instanceFields).map
          (declaredField (scope.pureHash (name :: busy)))
      | none => []) := by
  rw [pureHash, dif_neg free]
  congr 1
  split <;> rename_i found <;> rw [found]

theorem pureHash_of_mem (occupied : name ∈ busy) : scope.pureHash busy name = cycleMark name := by
  rw [pureHash, dif_pos occupied]

/-- Equal hashes of the structs that fields depend on make equal contributions. -/
theorem map_declaredField_congr {fields : List Field} {hashOf otherwise : QualifiedName → String}
    (same : ∀ part, scope.DependsOn fields part → hashOf part = otherwise part) :
    (scope.hashedFields fields).map (declaredField hashOf) =
      (scope.hashedFields fields).map (declaredField otherwise) := by
  refine List.map_congr_left fun (field, answer) member => ?_
  cases answer with
  | error refusal => rfl
  | ok category =>
    cases depends : category.hashDependency? with
    | none => simp [declaredField, depends]
    | some part =>
      simp [declaredField, depends, same part ⟨_, member, category, rfl, depends⟩]

/-- Only busy structs within reach matter to a hash. -/
theorem pureHash_congr (scope : Scope) (busy others : List QualifiedName) (name : QualifiedName)
    (same : ∀ part, scope.Reaches name part → (part ∈ busy ↔ part ∈ others)) :
    scope.pureHash busy name = scope.pureHash others name := by
  by_cases occupied : name ∈ busy
  · rw [pureHash_of_mem occupied, pureHash_of_mem ((same name .refl).mp occupied)]
  · rw [pureHash_eq occupied, pureHash_eq (mt (same name .refl).mpr occupied)]
    cases found : scope.resolve? name with
    | none => rfl
    | some type =>
      have fewer := unvisited_cons_lt occupied (mem_declared_of_resolve? found)
      refine congrArg _ (map_declaredField_congr fun part depends => ?_)
      refine scope.pureHash_congr _ _ part fun reached path => ?_
      rw [List.mem_cons, List.mem_cons, same reached (.head ⟨type, found, depends⟩ path)]
termination_by unvisited scope.declared busy

/-- Structs that reach a tame one have no part in its hash. -/
theorem Tame.pureHash_eq (tame : scope.Tame name) (free : name ∉ busy)
    (reach : ∀ other ∈ busy, scope.Reaches other name) :
    scope.pureHash busy name = scope.pureHash [] name := by
  refine scope.pureHash_congr busy [] name fun part path => ?_
  refine ⟨fun occupied => absurd ?_ free, nofun⟩
  rwa [tame name .refl part path (reach part occupied)]

end Scope

/-! ## What is remembered -/

/-- Everything remembered about types and structs is right, and so is the hash of every tame struct
that is remembered.  Nothing is remembered about busy structs. -/
structure Memory.Faithful (scope : Scope) (busy : List QualifiedName) (memory : Memory) : Prop where
  sound : memory.Sound scope
  hashes : ∀ {name hash}, memory.hash? name = some hash →
    name ∉ busy ∧ (scope.Tame name → hash = scope.pureHash [] name)

namespace Memory.Faithful

variable {scope : Scope} {busy : List QualifiedName} {name : QualifiedName} {memory : Memory}

theorem withSame {later : Memory} (faithful : memory.Faithful scope busy)
    (sound : later.Sound scope) (same : later.hashes = memory.hashes) :
    later.Faithful scope busy := by
  refine ⟨sound, fun found => faithful.hashes ?_⟩
  rw [← found, hash?, hash?, same]

/-- A struct about which nothing is remembered may become busy. -/
theorem enter (faithful : memory.Faithful scope busy) (missing : memory.hash? name = none) :
    memory.Faithful scope (name :: busy) := by
  refine ⟨faithful.sound, fun {other hash} found => ?_⟩
  rcases faithful.hashes found with ⟨free, right⟩
  refine ⟨fun occupied => ?_, right⟩
  rcases List.mem_cons.mp occupied with rfl | earlier
  · cases missing.symm.trans found
  · exact free earlier

/-- When a struct is not busy any more, its hash may be remembered. -/
theorem leave {hash : String} (faithful : memory.Faithful scope (name :: busy))
    (free : name ∉ busy) (right : scope.Tame name → hash = scope.pureHash [] name) :
    (memory.withHash name hash).Faithful scope busy := by
  refine ⟨⟨faithful.sound.categories, faithful.sound.reprs⟩, fun {other answer} found => ?_⟩
  rw [hash?_withHash] at found
  split at found
  · next same =>
    cases same
    cases found
    exact ⟨free, right⟩
  · rcases faithful.hashes found with ⟨outside, kept⟩
    exact ⟨fun occupied => outside (List.mem_cons_of_mem name occupied), kept⟩

end Memory.Faithful

namespace Scope

variable {scope : Scope} {busy others : List QualifiedName} {name part other : QualifiedName}
  {type : TypeDef}

theorem keeps_classify (type : Signature) (shape : MemberShape) :
    Keeps (Memory.Faithful scope busy) (scope.classify type shape)
      (· = scope.categoryOf type shape) := by
  intro memory faithful
  rcases scope.keeps_classifyWith memory.hashes [] type shape (fun _ => nofun) memory
    ⟨faithful.sound, rfl⟩ with ⟨answer, sound, same⟩
  exact ⟨answer, faithful.withSame sound same⟩

mutual

/-- While structs are busy that reach it, the hash of a tame struct is the one it has without a
memory. -/
theorem keeps_declaredHashWith (scope : Scope) (busy : List QualifiedName) (name : QualifiedName)
    (reach : ∀ other ∈ busy, scope.Reaches other name) :
    Keeps (Memory.Faithful scope busy) (scope.declaredHashWith busy name)
      fun hash => scope.Tame name → hash = scope.pureHash busy name := by
  rw [declaredHashWith]
  refine .get fun seen faithful => ?_
  split
  · next hash found =>
    rcases faithful.hashes found with ⟨free, right⟩
    exact .pure (fun memory same => same ▸ faithful) fun tame =>
      (right tame).trans (tame.pureHash_eq free reach).symm
  · next missing =>
    split
    · next occupied =>
      exact .pure (fun memory same => same ▸ faithful) fun _ => (pureHash_of_mem occupied).symm
    · next free =>
      have enter : ∀ memory, memory = seen → memory.Faithful scope (name :: busy) :=
        fun memory same => same ▸ faithful.enter missing
      have finish : ∀ fields, (scope.Tame name →
          declaredHash name.full fields = scope.pureHash busy name) →
          Leads (Memory.Faithful scope (name :: busy)) (do
              modify (·.withHash name (declaredHash name.full fields))
              return declaredHash name.full fields)
            (fun hash => scope.Tame name → hash = scope.pureHash busy name)
            (Memory.Faithful scope busy) := by
        intro fields right
        refine .modify (fun memory inner => inner.leave free fun tame => ?_) right
        rw [right tame, tame.pureHash_eq free reach]
      dsimp only
      split
      · next type found =>
        have fewer := unvisited_cons_lt free (mem_declared_of_resolve? found)
        have path : ∀ part, scope.DependsOn type.instanceFields part → scope.Reaches name part :=
          fun part depends => .single ⟨type, found, depends⟩
        refine .bind ((scope.keeps_declaredFields (name :: busy) type.instanceFields ?_).mono enter
          fun fields right tame => ?_) finish
        · intro other occupied part depends
          rcases List.mem_cons.mp occupied with rfl | earlier
          · exact path part depends
          · exact (reach other earlier).trans (path part depends)
        · rw [right fun part depends => tame.ofReached (path part depends), pureHash_eq free, found]
      · next found =>
        refine .bind (.pure enter fun _ => ?_) finish
        rw [pureHash_eq free, found]
termination_by (unvisited scope.declared busy, 0, 0)
decreasing_by exact .left _ _ fewer

theorem keeps_declaredFields (scope : Scope) (busy : List QualifiedName) (fields : List Field)
    (reach : ∀ other ∈ busy, ∀ part, scope.DependsOn fields part → scope.Reaches other part) :
    Keeps (Memory.Faithful scope busy) (scope.declaredFields busy fields)
      fun found => (∀ part, scope.DependsOn fields part → scope.Tame part) →
        found = (scope.hashedFields fields).map (declaredField (scope.pureHash busy)) := by
  cases fields with
  | nil =>
    rw [declaredFields]
    exact .pure fun _ => rfl
  | cons field more =>
    rw [declaredFields]
    split
    · next hidden =>
      have skipped : scope.hashedFields (field :: more) = scope.hashedFields more :=
        List.filterMap_cons_none (by rw [hidden]; rfl)
      have others := scope.keeps_declaredFields busy more
      unfold DependsOn at reach others ⊢
      rw [skipped] at reach ⊢
      exact others reach
    · next attr exposed =>
      have added : scope.hashedFields (field :: more) =
          (field, scope.categoryOf field.type attr.shape) :: scope.hashedFields more :=
        List.filterMap_cons_some (by rw [exposed]; rfl)
      have later : ∀ part, scope.DependsOn more part → scope.DependsOn (field :: more) part := by
        rintro part ⟨hashed, member, depends⟩
        exact ⟨hashed, added ▸ List.mem_cons_of_mem _ member, depends⟩
      have finish : ∀ declared, ((∀ part, scope.DependsOn (field :: more) part → scope.Tame part) →
          declared = declaredField (scope.pureHash busy)
            (field, scope.categoryOf field.type attr.shape)) →
          Keeps (Memory.Faithful scope busy) (do return declared :: (← scope.declaredFields busy more))
            fun found => (∀ part, scope.DependsOn (field :: more) part → scope.Tame part) →
              found = (scope.hashedFields (field :: more)).map
                (declaredField (scope.pureHash busy)) := by
        intro declared right
        refine .bind (scope.keeps_declaredFields busy more fun other occupied part depends =>
          reach other occupied part (later part depends)) fun rest same => Keeps.pure fun tame => ?_
        rw [added, List.map_cons, right tame, same fun part depends => tame part (later part depends)]
      refine .known (keeps_classify field.type attr.shape) ?_
      dsimp only
      split
      · next refusal answer => exact finish _ fun _ => by rw [answer]; rfl
      · next category answer =>
        split
        · next independent =>
          refine finish _ fun _ => ?_
          rw [answer, declaredField, independent, Option.map_none]
        · next part depends =>
          have here : scope.DependsOn (field :: more) part :=
            ⟨_, added ▸ List.mem_cons_self, category, answer, depends⟩
          refine .bind (scope.keeps_declaredHashWith busy part fun other occupied =>
            reach other occupied part here) fun nested right => finish _ fun tame => ?_
          rw [answer, declaredField, depends, Option.map_some, right (tame part here)]
termination_by (unvisited scope.declared busy, 1, fields.length)

end

end Scope

end NativeWeave
