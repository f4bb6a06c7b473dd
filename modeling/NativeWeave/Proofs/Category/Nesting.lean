import NativeWeave.Proofs.Category.Outlined

namespace NativeWeave

/-!
# How deep questions nest

To find the representation of a struct its fields are classified, which asks for representations in
turn, and a hash of a declaration asks for those of other declarations.  Here the same questions are
answered under a limit: where more of them would be under way at one time than the limit allows, the
answer is given up.  It never is if the limit exceeds the number of structs by one, whatever refers to
what and whatever was asked before.
-/

/-- A computation that remembers answers and may give up. -/
abbrev Bounded := StateT Memory Option

/-! ## Questions under a limit -/

namespace Scope

mutual

/-- The category of a type, given a computation that answers for structs. -/
def classifyBy (scope : Scope) (reprOf : TypeDef → Bounded (Option StructRepr)) (type : Signature)
    (shape : MemberShape) : Bounded (Except Refusal Category) := do
  match (← get).category? type shape with
  | some answer => return answer
  | none =>
    let answer ← scope.classifyAnewBy reprOf type shape
    modify (·.withCategory type shape answer)
    return answer
termination_by 2 * sizeOf type + 1

/-- The category of a type about which nothing is remembered. -/
def classifyAnewBy (scope : Scope) (reprOf : TypeDef → Bounded (Option StructRepr))
    (type : Signature) (shape : MemberShape) : Bounded (Except Refusal Category) :=
  match _found : scope.outline type shape with
  | .error refusal => return .error refusal
  | .ok (.settled category) => return .ok category
  | .ok (.struct struct owner) => do
    match ← reprOf struct with
    | none => return .error (.unsupported type)
    | some repr =>
      let nativeName := scope.config.nativeTypeName struct Annotation.nativeStruct
      return .ok (.struct repr nativeName owner)
  | .ok (.array element dim) =>
    return containerOf type (.array · element dim) (← scope.classifyBy reprOf element {})
  | .ok (.list element) =>
    return containerOf type (.list · element) (← scope.classifyBy reprOf element {})
termination_by 2 * sizeOf type
decreasing_by
  all_goals
    have smaller := sizeOf_element_lt _found rfl
    omega

end

/-- All fields are exposed and have the same bytes on both sides. -/
def areBlittableBy (scope : Scope) (reprOf : TypeDef → Bounded (Option StructRepr)) :
    List Field → Bounded Bool
  | [] => return true
  | field :: more => do
    match scope.config.findAnnotation? field.attributes Annotation.nativeProperty with
    | none => return false
    | some attr =>
      match ← scope.classifyBy reprOf field.type attr.shape with
      | .error _ => return false
      | .ok category =>
        if category.isBlittable then scope.areBlittableBy reprOf more else return false

/-- The representation of a struct, where at most as many questions for representations as the limit
says are under way at one time. -/
def reprWithin (scope : Scope) : (limit : Nat) → (busy : List QualifiedName) → (type : TypeDef) →
    Bounded (Option StructRepr)
  | 0, _, _ => failure
  | limit + 1, busy, type => do
    let name := type.qualifiedName
    if scope.config.isCoreStruct name then
      return some .core
    else
      match (← get).repr? name with
      | some repr => return some repr
      | none =>
        if scope.isLocal name then
          if !scope.config.isAnnotated type.attributes Annotation.nativeStruct then
            return none
          else if name ∈ busy then
            return some .generic
          else
            let blittable ←
              scope.areBlittableBy (scope.reprWithin limit (name :: busy)) type.instanceFields
            let repr := if blittable then StructRepr.blittable else StructRepr.generic
            modify (·.withRepr name repr)
            return some repr
        else
          match scope.foreignRepr? type with
          | none => return none
          | some repr =>
            modify (·.withRepr name repr)
            return some repr

/-- The category of a type, where at most so many questions for representations are under way at one
time. -/
def classifyWithin (scope : Scope) (limit : Nat) : Signature → MemberShape →
    Bounded (Except Refusal Category) :=
  scope.classifyBy (scope.reprWithin limit [])

/-- What the exposed fields add to the hash of their struct, given computations that answer for types
and for declarations. -/
def declaredFieldsBy (scope : Scope)
    (categoryOf : Signature → MemberShape → Bounded (Except Refusal Category))
    (hashOf : QualifiedName → Bounded String) : List Field → Bounded (List DeclaredField)
  | [] => return []
  | field :: more => do
    match scope.config.findAnnotation? field.attributes Annotation.nativeProperty with
    | none => scope.declaredFieldsBy categoryOf hashOf more
    | some attr =>
      let declared ← match ← categoryOf field.type attr.shape with
        | .error _ => pure ⟨field.name, "unsupported:" ++ field.type.text, none⟩
        | .ok category =>
          match category.hashDependency? with
          | none => pure ⟨field.name, category.label, none⟩
          | some dependency => do
            let nested ← hashOf dependency
            pure ⟨field.name, category.label, some nested⟩
      return declared :: (← scope.declaredFieldsBy categoryOf hashOf more)

/-- The hash of a declaration, where at most as many questions for hashes as the limit says are under
way at one time, and at most `reprs` questions for representations. -/
def declaredHashWithin (scope : Scope) (reprs : Nat) : (limit : Nat) → (busy : List QualifiedName) →
    (name : QualifiedName) → Bounded String
  | 0, _, _ => failure
  | limit + 1, busy, name => do
    match (← get).hash? name with
    | some hash => return hash
    | none =>
      if name ∈ busy then
        return cycleMark name
      else
        let hashOf := scope.declaredHashWithin reprs limit (name :: busy)
        let fields ← match scope.resolve? name with
          | some type => scope.declaredFieldsBy (scope.classifyWithin reprs) hashOf type.instanceFields
          | none => pure []
        let hash := declaredHash name.full fields
        modify (·.withHash name hash)
        return hash

/-- The hash that a member contributes for the struct it refers to, under both limits. -/
def hashOverrideWithin (scope : Scope) (reprs limit : Nat) (owner : QualifiedName)
    (category : Category) : Bounded (Option String) := do
  match category.hashDependency? with
  | none => return none
  | some dependency =>
    if category.embedded?.isSome && scope.isLocal dependency then
      return none
    else if dependency = owner then
      return some selfReference
    else
      return some (← scope.declaredHashWithin reprs limit [] dependency)

/-- The names of the structs that the module at hand declares. -/
def ownStructs (scope : Scope) : List QualifiedName :=
  ((scope.module.types.filter (·.kind = .structType)).map (·.qualifiedName)).dedup

/-- The names that stand for a struct. -/
def structNames (scope : Scope) : List QualifiedName :=
  (scope.declared.filter fun name => (scope.resolve? name).any (·.kind = .structType)).dedup

/-- A name that the module at hand declares is that of one of its structs. -/
def NamesOwnStruct (scope : Scope) (name : QualifiedName) : Prop :=
  scope.isLocal name = true → name ∈ scope.ownStructs

/-- A name that has a declaration within reach stands for a struct. -/
def NamesStruct (scope : Scope) (name : QualifiedName) : Prop :=
  ∀ type, scope.resolve? name = some type → type.kind = .structType

end Scope

/-! ## Answers that are not given up -/

open Remembering

/-- On a fit memory the first computation does not give up, and does what the second one does. -/
def Completes {α : Type} (fit : Memory → Prop) (bounded : Bounded α) (full : Remembering α) : Prop :=
  ∀ memory, fit memory → bounded memory = some (full memory)

/-- The first computation never gives up, and does what the second one does. -/
abbrev AlwaysCompletes {α : Type} (bounded : Bounded α) (full : Remembering α) : Prop :=
  Completes (fun _ => True) bounded full

namespace Completes

variable {α β : Type} {fit : Memory → Prop} {bounded : Bounded α} {full : Remembering α}

theorem pure {value : α} : Completes fit (Pure.pure value) (Pure.pure value) :=
  fun _ _ => rfl

theorem modify {change : Memory → Memory} {value : α} :
    Completes fit (do modify change; return value) (do modify change; return value) :=
  fun _ _ => rfl

theorem reading {next : Memory → Bounded α} {fullNext : Memory → Remembering α}
    (each : ∀ seen, Completes fit (next seen) (fullNext seen)) :
    Completes fit (MonadState.get >>= next) (MonadState.get >>= fullNext) :=
  fun memory ready => each memory memory ready

theorem bind {condition : α → Prop} {next : α → Bounded β} {fullNext : α → Remembering β}
    (start : Completes fit bounded full) (keeps : Keeps fit full condition)
    (later : ∀ value, condition value → Completes fit (next value) (fullNext value)) :
    Completes fit (bounded >>= next) (full >>= fullNext) := by
  intro memory ready
  rcases keeps memory ready with ⟨holds, kept⟩
  have rest := later _ holds _ kept
  change (bounded memory).bind (fun run => next run.1 run.2) = _
  rw [start memory ready]
  exact rest

/-- Where every memory is fit there is nothing to keep. -/
theorem andThen {next : α → Bounded β} {fullNext : α → Remembering β}
    (start : AlwaysCompletes bounded full)
    (later : ∀ value, AlwaysCompletes (next value) (fullNext value)) :
    AlwaysCompletes (bounded >>= next) (full >>= fullNext) := by
  have keeps : Keeps (fun _ => True) full fun _ => True := fun _ _ => ⟨trivial, trivial⟩
  exact start.bind keeps fun value _ => later value

end Completes

namespace Scope

variable {scope : Scope} {busy : List QualifiedName} {name : QualifiedName} {limit : Nat}

/-! ## Representations -/

/-- A struct of the module at hand that a type names is one of its structs. -/
theorem namesOwnStruct_of_outline {type : Signature} {shape : MemberShape} {struct : TypeDef}
    {owner : QualifiedName} (found : scope.outline type shape = .ok (.struct struct owner)) :
    scope.NamesOwnStruct struct.qualifiedName := by
  intro home
  rcases resolve?_of_outline found with ⟨resolved, kind⟩
  rw [← qualifiedName_of_resolve? resolved, resolve?] at resolved
  split at resolved
  · next first inModule =>
    cases resolved
    refine List.mem_dedup.mpr (List.mem_map_of_mem (List.mem_filter.mpr ⟨?_, decide_eq_true kind⟩))
    exact (Module.mem_of_type? inModule).1
  · next missing =>
    rw [isLocal, Module.findType?, List.findIdx?_isSome] at home
    rw [Module.type?, List.find?_eq_none] at missing
    rcases List.any_eq_true.mp home with ⟨type, member, same⟩
    exact absurd same (missing type member)

mutual

theorem classifyBy_completes {reprOf : TypeDef → Bounded (Option StructRepr)}
    (structs : ∀ struct, scope.NamesOwnStruct struct.qualifiedName →
      AlwaysCompletes (reprOf struct) (scope.reprWith? busy struct))
    (type : Signature) (shape : MemberShape) :
    AlwaysCompletes (scope.classifyBy reprOf type shape)
      (scope.classifyWith busy type shape) := by
  rw [classifyBy, classifyWith]
  refine .reading fun seen => ?_
  cases seen.category? type shape with
  | some answer => exact .pure
  | none => exact .andThen (classifyAnewBy_completes structs type shape) fun answer => .modify
termination_by 2 * sizeOf type + 1

theorem classifyAnewBy_completes {reprOf : TypeDef → Bounded (Option StructRepr)}
    (structs : ∀ struct, scope.NamesOwnStruct struct.qualifiedName →
      AlwaysCompletes (reprOf struct) (scope.reprWith? busy struct))
    (type : Signature) (shape : MemberShape) :
    AlwaysCompletes (scope.classifyAnewBy reprOf type shape)
      (scope.classifyAnew busy type shape) := by
  -- The classification that does not give up is opened in each case, where what is found settles it.
  rw [classifyAnewBy]
  split
  · next refusal found =>
    rw [classifyAnew]
    split <;> cases found.symm.trans ‹_›
    exact .pure
  · next category found =>
    rw [classifyAnew]
    split <;> cases found.symm.trans ‹_›
    exact .pure
  · next struct owner found =>
    rw [classifyAnew]
    split <;> cases found.symm.trans ‹_›
    refine .andThen (structs struct (namesOwnStruct_of_outline found)) fun repr? => ?_
    cases repr? with
    | none => exact .pure
    | some repr => exact .pure
  · next element dim found =>
    rw [classifyAnew]
    split <;> cases found.symm.trans ‹_›
    have smaller := sizeOf_element_lt found rfl
    exact .andThen (classifyBy_completes structs element {}) fun answer => .pure
  · next element found =>
    rw [classifyAnew]
    split <;> cases found.symm.trans ‹_›
    have smaller := sizeOf_element_lt found rfl
    exact .andThen (classifyBy_completes structs element {}) fun answer => .pure
termination_by 2 * sizeOf type

end

theorem areBlittableBy_completes {reprOf : TypeDef → Bounded (Option StructRepr)}
    (structs : ∀ struct, scope.NamesOwnStruct struct.qualifiedName →
      AlwaysCompletes (reprOf struct) (scope.reprWith? busy struct))
    (fields : List Field) :
    AlwaysCompletes (scope.areBlittableBy reprOf fields)
      (scope.areBlittable busy fields) := by
  induction fields with
  | nil =>
    rw [areBlittableBy, areBlittable]
    exact .pure
  | cons field more ih =>
    rw [areBlittableBy, areBlittable]
    cases scope.config.findAnnotation? field.attributes Annotation.nativeProperty with
    | none => exact .pure
    | some attr =>
      refine .andThen (classifyBy_completes structs field.type attr.shape) fun answer => ?_
      cases answer with
      | error refusal => exact .pure
      | ok category =>
        dsimp only
        split
        · exact ih
        · exact .pure

/-- A question about a struct is one more than the questions about structs in its fields. -/
theorem reprWithin_succ_completes {struct : TypeDef}
    (nested : struct.qualifiedName ∉ busy → scope.isLocal struct.qualifiedName = true →
      ∀ part, scope.NamesOwnStruct part.qualifiedName →
        AlwaysCompletes (scope.reprWithin limit (struct.qualifiedName :: busy) part)
          (scope.reprWith? (struct.qualifiedName :: busy) part)) :
    AlwaysCompletes (scope.reprWithin (limit + 1) busy struct)
      (scope.reprWith? busy struct) := by
  rw [reprWithin, reprWith?]
  dsimp only
  split
  · exact .pure
  · refine .reading fun seen => ?_
    cases seen.repr? struct.qualifiedName with
    | some repr => exact .pure
    | none =>
      dsimp only
      split
      · next home =>
        split
        · exact .pure
        · split
          · exact .pure
          · next free =>
            exact .andThen (areBlittableBy_completes (nested free home) _) fun blittable => .modify
      · cases scope.foreignRepr? struct with
        | none => exact .pure
        | some repr => exact .modify

/-- With a limit above the number of structs of the module that are not busy, no answer about one of
them or about a struct of another module is given up. -/
theorem reprWithin_completes (enough : unvisited scope.ownStructs busy < limit) {struct : TypeDef}
    (own : scope.NamesOwnStruct struct.qualifiedName) :
    AlwaysCompletes (scope.reprWithin limit busy struct) (scope.reprWith? busy struct) := by
  induction limit generalizing busy struct with
  | zero => exact absurd enough (Nat.not_lt_zero _)
  | succ limit ih =>
    refine reprWithin_succ_completes fun free home part ownPart => ih ?_ ownPart
    have fewer := unvisited_cons_lt free (own home)
    omega

/-- Whatever the module at hand declares under the name, one more is enough. -/
theorem reprWithin_completes_of_any (enough : unvisited scope.ownStructs busy + 1 < limit)
    (struct : TypeDef) :
    AlwaysCompletes (scope.reprWithin limit busy struct) (scope.reprWith? busy struct) := by
  cases limit with
  | zero => exact absurd enough (Nat.not_lt_zero _)
  | succ limit =>
    refine reprWithin_succ_completes fun free home part ownPart => reprWithin_completes ?_ ownPart
    have fewer := @unvisited_cons_le _ _ scope.ownStructs busy struct.qualifiedName
    omega

/-- Types are classified within a limit above the number of structs of the module. -/
theorem classifyWithin_completes (type : Signature) (shape : MemberShape) :
    AlwaysCompletes (scope.classifyWithin (scope.ownStructs.length + 1) type shape)
      (scope.classify type shape) := by
  refine classifyBy_completes (fun struct own => reprWithin_completes ?_ own) type shape
  rw [unvisited_nil]
  exact Nat.lt_succ_self _

/-! ## Hashes -/

/-- What the hash of a category depends on is a struct, if it has a declaration within reach. -/
def DependsOnStruct (scope : Scope) (category : Category) : Prop :=
  ∀ dependency, category.hashDependency? = some dependency → scope.NamesStruct dependency

theorem NamesStruct.mem_structNames {type : TypeDef} (names : scope.NamesStruct name)
    (resolved : scope.resolve? name = some type) : name ∈ scope.structNames := by
  refine List.mem_dedup.mpr (List.mem_filter.mpr ⟨mem_declared_of_resolve? resolved, ?_⟩)
  rw [resolved]
  exact decide_eq_true (names type resolved)

/-- The categories that classification gives depend on structs. -/
theorem outlined_dependsOnStruct : scope.Outlined fun _ _ => scope.DependsOnStruct where
  settled known dependency depends := by
    unfold outline primitiveOutline namedOutline genericOutline at known
    repeat' split at known
    all_goals cases known
    all_goals cases depends
  struct found _ _ dependency depends := by
    cases depends
    rcases resolve?_of_outline found with ⟨resolved, kind⟩
    intro other again
    cases resolved.symm.trans again
    exact kind
  array _ _ fits := fits
  list _ _ fits := fits

/-- Every category that is remembered depends on a struct, if on anything. -/
abbrev Dependable (scope : Scope) : Memory → Prop :=
  Memory.Fitting fun _ _ => scope.DependsOnStruct

theorem declaredFieldsBy_completes {hashOf : QualifiedName → Bounded String}
    (hashes : ∀ part, scope.NamesStruct part →
      Completes scope.Dependable (hashOf part) (scope.declaredHashWith busy part))
    (fields : List Field) :
    Completes scope.Dependable
      (scope.declaredFieldsBy (scope.classifyWithin (scope.ownStructs.length + 1)) hashOf fields)
      (scope.declaredFields busy fields) := by
  induction fields with
  | nil =>
    rw [declaredFieldsBy, declaredFields]
    exact .pure
  | cons field more ih =>
    rw [declaredFieldsBy, declaredFields]
    cases scope.config.findAnnotation? field.attributes Annotation.nativeProperty with
    | none => exact ih
    | some attr =>
      have sustains := scope.outlined_dependsOnStruct.sustains
      have finish : ∀ declared : DeclaredField, Completes scope.Dependable (do
          return declared :: (← scope.declaredFieldsBy
            (scope.classifyWithin (scope.ownStructs.length + 1)) hashOf more))
          (do return declared :: (← scope.declaredFields busy more)) :=
        fun declared => .bind ih (sustains.declaredFields busy more) fun _ _ => .pure
      refine .bind (fun memory _ => classifyWithin_completes field.type attr.shape memory trivial)
        (scope.outlined_dependsOnStruct.classify field.type attr.shape) fun answer fitting => ?_
      cases answer with
      | error refusal => exact finish _
      | ok category =>
        dsimp only
        cases depends : category.hashDependency? with
        | none => exact finish _
        | some part =>
          have struct := fitting category rfl part depends
          exact .bind (hashes part struct) (sustains.declaredHashWith busy part) fun _ _ => finish _

/-- A question about the hash of a struct is one more than those about the structs that its fields
depend on. -/
theorem declaredHashWithin_succ_completes
    (nested : name ∉ busy → ∀ type, scope.resolve? name = some type →
      ∀ part, scope.NamesStruct part → Completes scope.Dependable
        (scope.declaredHashWithin (scope.ownStructs.length + 1) limit (name :: busy) part)
        (scope.declaredHashWith (name :: busy) part)) :
    Completes scope.Dependable
      (scope.declaredHashWithin (scope.ownStructs.length + 1) (limit + 1) busy name)
      (scope.declaredHashWith busy name) := by
  rw [declaredHashWithin, declaredHashWith]
  refine .reading fun seen => ?_
  cases seen.hash? name with
  | some hash => exact .pure
  | none =>
    dsimp only
    split
    · exact .pure
    · next free =>
      split
      · next type found =>
        split <;> cases found.symm.trans ‹_›
        exact .bind (declaredFieldsBy_completes (nested free type found) type.instanceFields)
          (scope.outlined_dependsOnStruct.sustains.declaredFields _ _) fun fields _ => .modify
      · next found =>
        split <;> cases found.symm.trans ‹_›
        exact .modify

/-- With a limit above the number of structs that are not busy, the hash of a struct is not given up. -/
theorem declaredHashWithin_completes (enough : unvisited scope.structNames busy < limit)
    (names : scope.NamesStruct name) :
    Completes scope.Dependable
      (scope.declaredHashWithin (scope.ownStructs.length + 1) limit busy name)
      (scope.declaredHashWith busy name) := by
  induction limit generalizing busy name with
  | zero => exact absurd enough (Nat.not_lt_zero _)
  | succ limit ih =>
    refine declaredHashWithin_succ_completes fun free type resolved part struct => ih ?_ struct
    have fewer := unvisited_cons_lt free (names.mem_structNames resolved)
    omega

/-- Whatever has the name, one more is enough. -/
theorem declaredHashWithin_completes_of_any (enough : unvisited scope.structNames busy + 1 < limit)
    (name : QualifiedName) :
    Completes scope.Dependable
      (scope.declaredHashWithin (scope.ownStructs.length + 1) limit busy name)
      (scope.declaredHashWith busy name) := by
  cases limit with
  | zero => exact absurd enough (Nat.not_lt_zero _)
  | succ limit =>
    refine declaredHashWithin_succ_completes fun free type resolved part struct =>
      declaredHashWithin_completes ?_ struct
    have fewer := @unvisited_cons_le _ _ scope.structNames busy name
    omega

theorem hashOverrideWithin_completes {category : Category}
    (dependencies : ∀ dependency, category.hashDependency? = some dependency →
      Completes scope.Dependable
        (scope.declaredHashWithin (scope.ownStructs.length + 1) limit [] dependency)
        (scope.declaredHashWith [] dependency)) (owner : QualifiedName) :
    Completes scope.Dependable
      (scope.hashOverrideWithin (scope.ownStructs.length + 1) limit owner category)
      (scope.hashOverride? owner category) := by
  rw [hashOverrideWithin, hashOverride?]
  cases depends : category.hashDependency? with
  | none => exact .pure
  | some dependency =>
    dsimp only
    split
    · exact .pure
    · split
      · exact .pure
      · exact .bind (dependencies dependency depends)
          (scope.outlined_dependsOnStruct.sustains.declaredHashWith [] dependency) fun _ _ => .pure

/-- A memory that some questions leave. -/
def Reached (scope : Scope) (memory : Memory) : Prop :=
  ∃ queries, scope.remembered queries = memory

theorem Reached.dependable {memory : Memory} (reached : scope.Reached memory) :
    scope.Dependable memory := by
  rcases reached with ⟨queries, rfl⟩
  exact scope.outlined_dependsOnStruct.remembered queries

/-- Whatever refers to what and was asked before, questions about types and structs are answered while
no more questions about representations are under way than the module has structs, and one; and
questions about members while no more questions about hashes are than there are structs within reach,
and one.  A question about a struct whose name the module gives to something else may take one more,
and so may one about a member that depends on something else, which no category does that
classification gives. -/
theorem answers_within_nesting (scope : Scope) :
    (∀ type shape, Completes scope.Reached
      (scope.classifyWithin (scope.ownStructs.length + 1) type shape) (scope.classify type shape)) ∧
    (∀ struct, scope.NamesOwnStruct struct.qualifiedName → Completes scope.Reached
      (scope.reprWithin (scope.ownStructs.length + 1) [] struct) (scope.structRepr? struct)) ∧
    (∀ struct, Completes scope.Reached
      (scope.reprWithin (scope.ownStructs.length + 2) [] struct) (scope.structRepr? struct)) ∧
    (∀ owner category, scope.DependsOnStruct category → Completes scope.Reached
      (scope.hashOverrideWithin (scope.ownStructs.length + 1) (scope.structNames.length + 1) owner
        category) (scope.hashOverride? owner category)) ∧
    (∀ owner category, Completes scope.Reached
      (scope.hashOverrideWithin (scope.ownStructs.length + 1) (scope.structNames.length + 2) owner
        category) (scope.hashOverride? owner category)) ∧
    ∀ memory, scope.Reached memory → ∀ type shape category,
      (scope.classify type shape memory).1 = .ok category → scope.DependsOnStruct category := by
  have own : unvisited scope.ownStructs [] = scope.ownStructs.length := unvisited_nil
  have names : unvisited scope.structNames [] = scope.structNames.length := unvisited_nil
  refine ⟨fun type shape memory _ => ?_, fun struct named memory _ => ?_, fun struct memory _ => ?_,
    fun owner category depends memory reached => ?_, fun owner category memory reached => ?_,
    fun memory reached type shape category answer => ?_⟩
  · exact classifyWithin_completes type shape memory trivial
  · exact reprWithin_completes (by omega) named memory trivial
  · exact reprWithin_completes_of_any (by omega) struct memory trivial
  · refine hashOverrideWithin_completes (fun dependency found => ?_) owner memory reached.dependable
    exact declaredHashWithin_completes (by omega) (depends dependency found)
  · refine hashOverrideWithin_completes (fun dependency found => ?_) owner memory reached.dependable
    exact declaredHashWithin_completes_of_any (by omega) dependency
  · exact (scope.outlined_dependsOnStruct.classify type shape memory reached.dependable).1 _ answer

/-- One question about a chain leads to others, about its points and about chains: the first answer is
given up within a limit of one, and no answer is within the number of structs and one. -/
theorem answers_within_nesting_chains :
    Sample.chains.reprWithin 1 [] Sample.chain {} = none ∧
      Sample.chains.ownStructs.length = 2 ∧
      Sample.chains.reprWithin 3 [] Sample.chain (Sample.chains.remembered Sample.questions) =
        some (Sample.chains.structRepr? Sample.chain
          (Sample.chains.remembered Sample.questions)) := by
  have own : Sample.chains.NamesOwnStruct Sample.chain.qualifiedName := fun _ => by decide
  refine ⟨?_, by decide, ?_⟩
  · rw [← Option.isNone_iff_eq_none]
    decide +kernel
  · exact (answers_within_nesting Sample.chains).2.1 Sample.chain own _ ⟨_, rfl⟩

end Scope

end NativeWeave
