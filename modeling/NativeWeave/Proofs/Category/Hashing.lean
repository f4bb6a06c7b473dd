import NativeWeave.Proofs.Category.MutualReference
import NativeWeave.Proofs.Category.PlainNames

namespace NativeWeave

/-!
# The declarations that go into a hash

The hash of a declaration is worked out struct by struct.  Each struct that is met for the first time
adds a declaration to those whose hashes are known, behind the ones that its fields lead to; a struct
whose declaration is known already contributes its hash, and one that is being worked out a mark.
What goes into the hash follows this relation, whatever else is remembered.
-/

open Remembering

/-- A struct and what its exposed fields add to its hash. -/
structure Declaration where
  name : QualifiedName
  fields : List DeclaredField

namespace Declaration

variable (declaration : Declaration)

/-- The text that the hash of the declaration is taken over. -/
def text : Bytes :=
  declarationText declaration.name.full declaration.fields

def hash : String :=
  declaredHash declaration.name.full declaration.fields

/-- What is remembered of the declaration. -/
def entry : QualifiedName × String :=
  (declaration.name, declaration.hash)

end Declaration

/-- The declaration of a struct among those that are known. -/
def recorded? (known : List Declaration) (name : QualifiedName) : Option Declaration :=
  known.find? (·.name = name)

theorem mem_of_recorded? {known : List Declaration} {name : QualifiedName}
    {declaration : Declaration} (recorded : recorded? known name = some declaration) :
    declaration ∈ known ∧ declaration.name = name :=
  ⟨List.mem_of_find?_eq_some recorded, by simpa using List.find?_some recorded⟩

theorem ne_of_recorded? {known : List Declaration} {name : QualifiedName}
    (new : recorded? known name = none) : ∀ declaration ∈ known, declaration.name ≠ name := by
  simpa [recorded?] using new

/-- The name of an exposed field and the label of its category, or of its type if that has none. -/
def exposedLabel : Field × Except Refusal Category → String × String
  | (field, .error _) => (field.name, "unsupported:" ++ field.type.text)
  | (field, .ok category) => (field.name, category.label)

/-- The struct that an exposed field depends on. -/
def exposedStruct? : Field × Except Refusal Category → Option QualifiedName
  | (_, .error _) => none
  | (_, .ok category) => category.hashDependency?

namespace Scope

/-- The exposed fields of a struct; one without a declaration has none. -/
noncomputable def exposed (scope : Scope) (name : QualifiedName) :
    List (Field × Except Refusal Category) :=
  match scope.resolve? name with
  | some type => scope.hashedFields type.instanceFields
  | none => []

/-- The structs that the exposed fields of a struct depend on, field by field. -/
noncomputable def structs (scope : Scope) (name : QualifiedName) : List (Option QualifiedName) :=
  (scope.exposed name).map exposedStruct?

/-- What exposed fields add to the hash of their struct, given the hashes of the structs that they
depend on. -/
def fieldsWith (exposed : List (Field × Except Refusal Category)) (nested : List (Option String)) :
    List DeclaredField :=
  (exposed.zip nested).map fun (field, hash) =>
    ⟨(exposedLabel field).1, (exposedLabel field).2, hash⟩

/-- The declaration of a struct, given the hashes of the structs that its fields depend on. -/
noncomputable def declaration (scope : Scope) (name : QualifiedName) (nested : List (Option String)) :
    Declaration :=
  ⟨name, fieldsWith (scope.exposed name) nested⟩

/-- While some structs are busy and the hashes of some declarations are known, these are the hashes of
several structs one after another, and the declarations whose hashes are known afterwards. -/
inductive Hashing (scope : Scope) : List QualifiedName → List (Option QualifiedName) →
    List Declaration → List (Option String) → List Declaration → Prop
  | nil {busy : List QualifiedName} {known : List Declaration} : Hashing scope busy [] known [] known
  /-- A field that depends on no struct. -/
  | plain {busy : List QualifiedName} {more : List (Option QualifiedName)}
    {known after : List Declaration} {found : List (Option String)}
    (rest : Hashing scope busy more known found after) :
    Hashing scope busy (none :: more) known (none :: found) after
  | known {busy : List QualifiedName} {name : QualifiedName} {more : List (Option QualifiedName)}
    {known after : List Declaration} {found : List (Option String)} {declaration : Declaration}
    (recorded : recorded? known name = some declaration)
    (rest : Hashing scope busy more known found after) :
    Hashing scope busy (some name :: more) known (some declaration.hash :: found) after
  | busy {busy : List QualifiedName} {name : QualifiedName} {more : List (Option QualifiedName)}
    {known after : List Declaration} {found : List (Option String)}
    (new : recorded? known name = none) (occupied : name ∈ busy)
    (rest : Hashing scope busy more known found after) :
    Hashing scope busy (some name :: more) known (some (cycleMark name) :: found) after
  | fresh {busy : List QualifiedName} {name : QualifiedName} {more : List (Option QualifiedName)}
    {known middle after : List Declaration} {nested found : List (Option String)}
    (new : recorded? known name = none) (free : name ∉ busy)
    (inner : Hashing scope (name :: busy) (scope.structs name) known nested middle)
    (rest : Hashing scope busy more (scope.declaration name nested :: middle) found after) :
    Hashing scope busy (some name :: more) known
      (some (scope.declaration name nested).hash :: found) after

variable {scope : Scope} {busy : List QualifiedName} {name part : QualifiedName}
  {items more : List (Option QualifiedName)} {known middle after other : List Declaration}
  {found : List (Option String)}

namespace Hashing

/-- The first struct by itself, and then the others. -/
theorem cons {item : Option QualifiedName} {answer : Option String}
    (first : scope.Hashing busy [item] known [answer] middle)
    (rest : scope.Hashing busy more middle found after) :
    scope.Hashing busy (item :: more) known (answer :: found) after := by
  cases first with
  | plain nothing => cases nothing; exact .plain rest
  | known recorded nothing => cases nothing; exact .known recorded rest
  | busy new occupied nothing => cases nothing; exact .busy new occupied rest
  | fresh new free inner nothing => cases nothing; exact .fresh new free inner rest

theorem length_eq (hashing : scope.Hashing busy items known found after) :
    found.length = items.length := by
  induction hashing with
  | nil => rfl
  | plain _ ih | known _ _ ih | busy _ _ _ ih | fresh _ _ _ _ _ ih =>
    rw [List.length_cons, List.length_cons, ih]

theorem length_exposed (hashing : scope.Hashing busy (scope.structs name) known found after) :
    found.length = (scope.exposed name).length := by
  rw [hashing.length_eq, structs, List.length_map]

/-- Known declarations stay known. -/
theorem subset (hashing : scope.Hashing busy items known found after) : known ⊆ after := by
  induction hashing with
  | nil => exact List.Subset.refl _
  | plain _ ih | known _ _ ih | busy _ _ _ ih => exact ih
  | fresh _ _ _ _ inside behind =>
    exact fun _ listed => behind (List.mem_cons_of_mem _ (inside listed))

/-- There is one outcome only. -/
theorem unique {found' : List (Option String)} {after' : List Declaration}
    (hashing : scope.Hashing busy items known found after)
    (again : scope.Hashing busy items known found' after') : found = found' ∧ after = after' := by
  induction hashing generalizing found' after' with
  | nil => cases again; exact ⟨rfl, rfl⟩
  | plain _ ih =>
    cases again with
    | plain rest =>
      rcases ih rest with ⟨rfl, rfl⟩
      exact ⟨rfl, rfl⟩
  | known recorded _ ih =>
    cases again with
    | known also rest =>
      cases recorded.symm.trans also
      rcases ih rest with ⟨rfl, rfl⟩
      exact ⟨rfl, rfl⟩
    | busy new => cases recorded.symm.trans new
    | fresh new => cases recorded.symm.trans new
  | busy new occupied _ ih =>
    cases again with
    | known recorded => cases recorded.symm.trans new
    | busy _ _ rest =>
      rcases ih rest with ⟨rfl, rfl⟩
      exact ⟨rfl, rfl⟩
    | fresh _ free => exact absurd occupied free
  | fresh new free _ _ inside behind =>
    cases again with
    | known recorded => cases recorded.symm.trans new
    | busy _ occupied => exact absurd occupied free
    | fresh _ _ inner rest =>
      rcases inside inner with ⟨rfl, rfl⟩
      rcases behind rest with ⟨rfl, rfl⟩
      exact ⟨rfl, rfl⟩

/-- A struct that is asked for is busy, or its declaration is known afterwards. -/
theorem covers (hashing : scope.Hashing busy items known found after) :
    ∀ part, some part ∈ items → part ∈ busy ∨ ∃ declaration ∈ after, declaration.name = part := by
  induction hashing with
  | nil => exact fun _ => nofun
  | plain _ ih =>
    intro part asked
    rcases List.mem_cons.mp asked with impossible | later
    · cases impossible
    · exact ih part later
  | known recorded rest ih =>
    intro part asked
    rcases List.mem_cons.mp asked with ⟨⟨⟩⟩ | later
    · rcases mem_of_recorded? recorded with ⟨listed, named⟩
      exact .inr ⟨_, rest.subset listed, named⟩
    · exact ih part later
  | busy _ occupied _ ih =>
    intro part asked
    rcases List.mem_cons.mp asked with ⟨⟨⟩⟩ | later
    · exact .inl occupied
    · exact ih part later
  | fresh _ _ _ rest _ behind =>
    intro part asked
    rcases List.mem_cons.mp asked with ⟨⟨⟩⟩ | later
    · exact .inr ⟨_, rest.subset List.mem_cons_self, rfl⟩
    · exact behind part later

/-- A declaration that was not known before has the hashes of the structs that its fields depend
on. -/
theorem origin (hashing : scope.Hashing busy items known found after) :
    ∀ declaration ∈ after, declaration ∈ known ∨ ∃ busy known nested after,
      scope.Hashing busy (scope.structs declaration.name) known nested after ∧
        declaration = scope.declaration declaration.name nested := by
  induction hashing with
  | nil => exact fun _ => .inl
  | plain _ ih | known _ _ ih | busy _ _ _ ih => exact ih
  | fresh _ _ inner _ inside behind =>
    intro declaration listed
    rcases behind declaration listed with earlier | new
    · rcases List.mem_cons.mp earlier with rfl | earlier
      · exact .inr ⟨_, _, _, _, inner, rfl⟩
      · exact inside declaration earlier
    · exact .inr new

/-- The structs that a new declaration depends on are busy, or their declarations are known, too. -/
theorem closed (hashing : scope.Hashing busy items known found after) :
    ∀ declaration ∈ after, declaration ∈ known ∨ ∀ part,
      some part ∈ scope.structs declaration.name →
        part ∈ busy ∨ ∃ other ∈ after, other.name = part := by
  induction hashing with
  | nil => exact fun _ => .inl
  | plain _ ih | known _ _ ih | busy _ _ _ ih => exact ih
  | @fresh busy name _ _ middle after _ _ _ _ inner rest inside behind =>
    have settle : ∀ part, (part ∈ name :: busy ∨ ∃ other ∈ middle, other.name = part) →
        part ∈ busy ∨ ∃ other ∈ after, other.name = part := by
      rintro part (occupied | ⟨other, listed, rfl⟩)
      · rcases List.mem_cons.mp occupied with rfl | occupied
        · exact .inr ⟨_, rest.subset List.mem_cons_self, rfl⟩
        · exact .inl occupied
      · exact .inr ⟨other, rest.subset (List.mem_cons_of_mem _ listed), rfl⟩
    intro declaration listed
    rcases behind declaration listed with earlier | new
    · rcases List.mem_cons.mp earlier with rfl | earlier
      · exact .inr fun part depends => settle part (inner.covers part depends)
      · exact (inside declaration earlier).imp_right fun depends part asked =>
          settle part (depends part asked)
    · exact .inr new

end Hashing

theorem refers_iff : scope.Refers name part ↔ some part ∈ scope.structs name := by
  have shown : ∀ exposed : Field × Except Refusal Category, exposedStruct? exposed = some part ↔
      ∃ category, exposed.2 = .ok category ∧ category.hashDependency? = some part := by
    rintro ⟨field, refusal | category⟩ <;> simp [exposedStruct?]
  simp only [Refers, DependsOn, structs, exposed, List.mem_map, shown]
  cases scope.resolve? name <;> simp

/-- New declarations are those of structs within reach. -/
theorem Hashing.reaches (hashing : scope.Hashing busy items known found after) :
    ∀ declaration ∈ after, declaration ∈ known ∨
      ∃ part, some part ∈ items ∧ scope.Reaches part declaration.name := by
  have later : ∀ {item : Option QualifiedName} {more : List (Option QualifiedName)} {name},
      (∃ part, some part ∈ more ∧ scope.Reaches part name) →
        ∃ part, some part ∈ item :: more ∧ scope.Reaches part name := by
    rintro item more name ⟨part, asked, path⟩
    exact ⟨part, List.mem_cons_of_mem item asked, path⟩
  induction hashing with
  | nil => exact fun _ => .inl
  | plain _ ih | known _ _ ih | busy _ _ _ ih =>
    exact fun declaration listed => (ih declaration listed).imp_right later
  | fresh _ _ _ _ inside behind =>
    intro declaration listed
    rcases behind declaration listed with earlier | new
    · rcases List.mem_cons.mp earlier with rfl | earlier
      · exact .inr ⟨_, List.mem_cons_self, .refl⟩
      · refine (inside declaration earlier).imp_right ?_
        rintro ⟨part, depends, path⟩
        exact ⟨_, List.mem_cons_self, .head (refers_iff.mpr depends) path⟩
    · exact .inr (later new)

/-! ## The hash of a declaration -/

mutual

/-- Working out a hash adds declarations to those whose hashes are remembered. -/
theorem exists_hashing (scope : Scope) (busy : List QualifiedName) (name : QualifiedName)
    {memory : Memory} (sound : memory.Sound scope) {known : List Declaration}
    (same : memory.hashes = known.map (·.entry)) :
    ∃ hash later after, scope.declaredHashWith busy name memory = (hash, later) ∧
      later.Sound scope ∧ later.hashes = after.map (·.entry) ∧
        scope.Hashing busy [some name] known [some hash] after := by
  have remembered : memory.hash? name = (recorded? known name).map (·.hash) := by
    rw [Memory.hash?, same, List.find?_map, Option.map_map]
    rfl
  cases recorded : recorded? known name with
  | some declaration =>
    rw [recorded] at remembered
    exact ⟨_, _, known, declaredHashWith_of_found remembered, sound, same, .known recorded .nil⟩
  | none =>
    rw [recorded] at remembered
    by_cases occupied : name ∈ busy
    · exact ⟨_, _, known, declaredHashWith_of_mem scope remembered occupied, sound, same,
        .busy recorded occupied .nil⟩
    · cases resolved : scope.resolve? name with
      | none =>
        have none : scope.exposed name = [] := by rw [exposed, resolved]
        have inner : scope.Hashing (name :: busy) (scope.structs name) known [] known := by
          rw [structs, none]
          exact .nil
        have fields : scope.declaration name [] = ⟨name, []⟩ := by
          rw [declaration, none]
          rfl
        have fresh := Hashing.fresh recorded occupied inner .nil
        rw [fields] at fresh
        refine ⟨_, _, _, declaredHashWith_of_unresolved remembered occupied resolved,
          ⟨sound.categories, sound.reprs⟩, ?_, fresh⟩
        exact congrArg (_ :: ·) same
      | some type =>
        have fewer := unvisited_cons_lt occupied (mem_declared_of_resolve? resolved)
        have shown : scope.exposed name = scope.hashedFields type.instanceFields := by
          rw [exposed, resolved]
        rcases scope.exists_hashing_fields (name :: busy) type.instanceFields sound same with
          ⟨nested, later, after, run, kept, listed, inner⟩
        rw [← shown] at run inner
        refine ⟨_, _, _, declaredHashWith_of_resolved remembered occupied resolved run,
          ⟨kept.categories, kept.reprs⟩, ?_, .fresh recorded occupied inner .nil⟩
        exact congrArg (_ :: ·) listed
termination_by (unvisited scope.declared busy, 0, 0)
decreasing_by exact .left _ _ fewer

theorem exists_hashing_fields (scope : Scope) (busy : List QualifiedName) (fields : List Field)
    {memory : Memory} (sound : memory.Sound scope) {known : List Declaration}
    (same : memory.hashes = known.map (·.entry)) :
    ∃ nested later after, scope.declaredFields busy fields memory =
        (fieldsWith (scope.hashedFields fields) nested, later) ∧
      later.Sound scope ∧ later.hashes = after.map (·.entry) ∧
        scope.Hashing busy ((scope.hashedFields fields).map exposedStruct?) known nested after := by
  cases fields with
  | nil =>
    refine ⟨[], memory, known, ?_, sound, same, .nil⟩
    rw [declaredFields]
    rfl
  | cons field more =>
    rw [declaredFields]
    cases shown : scope.config.findAnnotation? field.attributes Annotation.nativeProperty with
    | none =>
      have skipped : scope.hashedFields (field :: more) = scope.hashedFields more :=
        List.filterMap_cons_none (by rw [shown]; rfl)
      rw [skipped]
      exact scope.exists_hashing_fields busy more sound same
    | some attr =>
      have added : scope.hashedFields (field :: more) =
          (field, scope.categoryOf field.type attr.shape) :: scope.hashedFields more :=
        List.filterMap_cons_some (by rw [shown]; rfl)
      rcases exists_classify sound field.type attr.shape with ⟨seen, classified, kept, still⟩
      dsimp only
      rw [bind_apply_of classified, added]
      cases scope.categoryOf field.type attr.shape with
      | error refusal =>
        rcases scope.exists_hashing_fields busy more kept (still.trans same) with
          ⟨nested, later, after, run, sound, listed, hashing⟩
        refine ⟨none :: nested, later, after, ?_, sound, listed, .plain hashing⟩
        dsimp only
        rw [pure_bind, bind_apply_of run]
        rfl
      | ok category =>
        dsimp only
        cases depends : category.hashDependency? with
        | none =>
          rcases scope.exists_hashing_fields busy more kept (still.trans same) with
            ⟨nested, later, after, run, sound, listed, hashing⟩
          refine ⟨none :: nested, later, after, ?_, sound, listed, ?_⟩
          · dsimp only
            rw [pure_bind, bind_apply_of run]
            rfl
          · rw [List.map_cons, exposedStruct?, depends]
            exact .plain hashing
        | some part =>
          rcases scope.exists_hashing busy part kept (still.trans same) with
            ⟨hash, middle, between, first, sound, recorded, inner⟩
          rcases scope.exists_hashing_fields busy more sound recorded with
            ⟨nested, later, after, run, sound, listed, hashing⟩
          refine ⟨some hash :: nested, later, after, ?_, sound, listed, ?_⟩
          · dsimp only
            rw [bind_apply_of first, pure_bind, bind_apply_of run]
            rfl
          · rw [List.map_cons, exposedStruct?, depends]
            exact inner.cons hashing
termination_by (unvisited scope.declared busy, 1, fields.length)

end

end Scope

end NativeWeave
