import NativeWeave.Universe

namespace NativeWeave

/-!
# Derivation is reachability

Base classes lead from declaration to declaration, also through cycles and through modules that are
given for reference.  A walk along them that remembers where it has been finds the native root
exactly if some number of steps leads there.
-/

/-- The type is the first one of the module that has the name. -/
def Module.DeclaresFirst (module : Module) (name : QualifiedName) (type : TypeDef) : Prop :=
  ∃ before after, module.types = before ++ type :: after ∧ type.qualifiedName = name ∧
    ∀ other ∈ before, other.qualifiedName ≠ name

/-- No type of the module has the name. -/
def Module.Lacks (module : Module) (name : QualifiedName) : Prop :=
  ∀ type ∈ module.types, type.qualifiedName ≠ name

theorem TypeDef.qualifiedName_eq_iff {type : TypeDef} {name : QualifiedName} :
    (type.name == name.name && type.namespaceName == name.namespaceName) = true ↔
      type.qualifiedName = name := by
  rcases name with ⟨space, simple⟩
  rw [Bool.and_eq_true, beq_iff_eq, beq_iff_eq, TypeDef.qualifiedName, QualifiedName.mk.injEq]
  exact and_comm

theorem Module.type?_eq_some_iff {module : Module} {name : QualifiedName} {type : TypeDef} :
    module.type? name = some type ↔ module.DeclaresFirst name type := by
  rw [Module.type?, List.find?_eq_some_iff_append, TypeDef.qualifiedName_eq_iff]
  simp only [Bool.not_eq_true', Bool.eq_false_iff, ne_eq, TypeDef.qualifiedName_eq_iff]
  constructor
  · rintro ⟨named, before, after, split, others⟩
    exact ⟨before, after, split, named, others⟩
  · rintro ⟨before, after, split, named, others⟩
    exact ⟨named, before, after, split, others⟩

theorem Module.type?_eq_none_iff {module : Module} {name : QualifiedName} :
    module.type? name = none ↔ module.Lacks name := by
  rw [Module.type?, List.find?_eq_none]
  exact forall₂_congr fun type _ => not_congr TypeDef.qualifiedName_eq_iff

theorem Signature.typeName?_eq_some_iff {signature : Signature} {base : QualifiedName} :
    signature.typeName? = some base ↔
      signature = .named base ∨ ∃ arguments, signature = .generic base arguments := by
  cases signature <;> simp [Signature.typeName?]

namespace Scope

variable {scope : Scope} {name base : QualifiedName}

/-- What a name stands for: the first type of that name in the module at hand, and without one there
the first in the first module given for reference that has any. -/
inductive Means (scope : Scope) (name : QualifiedName) : TypeDef → Prop
  | here {type : TypeDef} : scope.module.DeclaresFirst name type → scope.Means name type
  | abroad {type : TypeDef} {before after : List Module} {module : Module} :
      scope.module.Lacks name → scope.context.modules = before ++ module :: after →
      (∀ other ∈ before, other.Lacks name) → module.DeclaresFirst name type →
      scope.Means name type

theorem resolve?_eq_some_iff {type : TypeDef} :
    scope.resolve? name = some type ↔ scope.Means name type := by
  unfold resolve?
  split
  · next first inModule =>
    constructor
    · intro same
      exact .here (Module.type?_eq_some_iff.mp (inModule.trans same))
    · intro meaning
      cases meaning with
      | here declares => rw [← inModule, Module.type?_eq_some_iff.mpr declares]
      | abroad lacks =>
        rw [Module.type?_eq_none_iff.mpr lacks] at inModule
        cases inModule
  · next missing =>
    rw [Context.lookup?, List.findSome?_eq_some_iff]
    constructor
    · rintro ⟨before, module, after, order, found, none⟩
      exact .abroad (Module.type?_eq_none_iff.mp missing) order
        (fun other member => Module.type?_eq_none_iff.mp (none other member))
        (Module.type?_eq_some_iff.mp found)
    · intro meaning
      cases meaning with
      | here declares =>
        rw [Module.type?_eq_some_iff.mpr declares] at missing
        cases missing
      | abroad _ order none declares =>
        exact ⟨_, _, _, order, Module.type?_eq_some_iff.mpr declares,
          fun other member => Module.type?_eq_none_iff.mpr (none other member)⟩

/-- One base step: the type that a name stands for declares the other name, plain or with arguments,
as its base class. -/
def BaseStep (scope : Scope) (name base : QualifiedName) : Prop :=
  ∃ type signature, scope.Means name type ∧ type.base = some signature ∧
    (signature = .named base ∨ ∃ arguments, signature = .generic base arguments)

theorem base?_eq_some_iff : scope.base? name = some base ↔ scope.BaseStep name base := by
  simp only [base?, BaseStep, Option.bind_eq_some_iff, resolve?_eq_some_iff,
    Signature.typeName?_eq_some_iff]
  constructor
  · rintro ⟨signature, ⟨type, meaning, declared⟩, names⟩
    exact ⟨type, signature, meaning, declared, names⟩
  · rintro ⟨type, signature, meaning, declared, names⟩
    exact ⟨signature, ⟨type, meaning, declared⟩, names⟩

/-- A number of base steps leads from one name to another. -/
inductive StepsTo (scope : Scope) : Nat → QualifiedName → QualifiedName → Prop
  | refl (name : QualifiedName) : scope.StepsTo 0 name name
  | step {count : Nat} {name base last : QualifiedName} :
      scope.BaseStep name base → scope.StepsTo count base last → scope.StepsTo (count + 1) name last

/-- One step or more lead to the native root. -/
def LeadsToRoot (scope : Scope) (name : QualifiedName) : Prop :=
  ∃ count, 1 ≤ count ∧ scope.StepsTo count name scope.config.root

theorem not_leadsToRoot_of_base?_eq_none (missing : scope.base? name = none) :
    ¬ scope.LeadsToRoot name := by
  rintro ⟨count, positive, leads⟩
  cases leads with
  | refl => exact absurd positive (Nat.not_succ_le_zero 0)
  | step step =>
    rw [base?_eq_some_iff.mpr step] at missing
    cases missing

/-- A step to another name than the root is not the last one. -/
theorem leadsToRoot_iff_of_base? (step : scope.base? name = some base) :
    scope.LeadsToRoot name ↔ base = scope.config.root ∨ scope.LeadsToRoot base := by
  constructor
  · rintro ⟨count, positive, leads⟩
    cases leads with
    | refl => exact absurd positive (Nat.not_succ_le_zero 0)
    | @step count _ other _ first leads =>
      rw [← base?_eq_some_iff, step] at first
      cases first
      cases leads with
      | refl => exact .inl rfl
      | step next leads => exact .inr ⟨_, Nat.succ_pos _, .step next leads⟩
  · rintro (rfl | ⟨count, _, leads⟩)
    · exact ⟨1, Nat.le_refl 1, .step (base?_eq_some_iff.mp step) (.refl _)⟩
    · exact ⟨count + 1, Nat.succ_pos count, .step (base?_eq_some_iff.mp step) leads⟩

/-- Every name has a base class, which is not the root and one of the names again. -/
def Circles (scope : Scope) (names : List QualifiedName) : Prop :=
  ∀ name ∈ names, ∃ base ∈ names, scope.base? name = some base ∧ base ≠ scope.config.root

/-- Names that only lead to each other do not lead to the root. -/
theorem Circles.not_leadsToRoot {names : List QualifiedName} (circles : scope.Circles names)
    (member : name ∈ names) : ¬ scope.LeadsToRoot name := by
  have later : ∀ count name last, scope.StepsTo count name last → name ∈ names →
      last = scope.config.root → count = 0 := by
    intro count name last leads
    induction leads with
    | refl => exact fun _ _ => rfl
    | step step leads hypothesis =>
      intro member atRoot
      rcases circles _ member with ⟨base, listed, found, other⟩
      rw [base?_eq_some_iff.mpr step] at found
      cases found
      rw [hypothesis listed atRoot] at leads
      cases leads
      exact absurd atRoot other
  rintro ⟨count, positive, leads⟩
  rw [later count name _ leads member rfl] at positive
  exact absurd positive (Nat.not_succ_le_zero 0)

/-- The walk so far: each name that was visited has a base class other than the root, which was visited
too or is where the walk has come to. -/
def Walked (scope : Scope) (visited : List QualifiedName) (name : QualifiedName) : Prop :=
  ∀ earlier ∈ visited, ∃ base, scope.base? earlier = some base ∧ base ≠ scope.config.root ∧
    (base ∈ visited ∨ base = name)

theorem Walked.step {visited : List QualifiedName} (walked : scope.Walked visited name)
    (step : scope.base? name = some base) (other : base ≠ scope.config.root) :
    scope.Walked (name :: visited) base := by
  intro earlier member
  rcases List.mem_cons.mp member with rfl | before
  · exact ⟨base, step, other, .inr rfl⟩
  · rcases walked earlier before with ⟨next, found, different, inside | rfl⟩
    · exact ⟨next, found, different, .inl (List.mem_cons_of_mem _ inside)⟩
    · exact ⟨next, found, different, .inl List.mem_cons_self⟩

/-- A walk that comes to a name for the second time has only seen names that lead to each other. -/
theorem Walked.circles {visited : List QualifiedName} (walked : scope.Walked visited name)
    (seen : name ∈ visited) : scope.Circles visited := by
  intro earlier member
  rcases walked earlier member with ⟨base, found, different, inside | rfl⟩
  · exact ⟨base, inside, found, different⟩
  · exact ⟨base, seen, found, different⟩

theorem reachesRoot_iff {visited : List QualifiedName} (walked : scope.Walked visited name) :
    scope.reachesRoot visited name = true ↔ scope.LeadsToRoot name := by
  fun_induction reachesRoot scope visited name with
  | case1 visited name seen =>
    exact iff_of_false Bool.false_ne_true ((walked.circles seen).not_leadsToRoot seen)
  | case2 visited name unseen missing =>
    exact iff_of_false Bool.false_ne_true (not_leadsToRoot_of_base?_eq_none missing)
  | case3 visited name unseen base step hypothesis =>
    rw [leadsToRoot_iff_of_base? step, Bool.or_eq_true, beq_iff_eq]
    by_cases atRoot : base = scope.config.root
    · exact iff_of_true (.inl atRoot) (.inl atRoot)
    · rw [hypothesis (walked.step step atRoot)]

/-- A class derives from the native root exactly if one base step or more lead there. -/
theorem derivesFromRoot_iff (scope : Scope) (name : QualifiedName) :
    scope.derivesFromRoot name = true ↔
      ∃ count, 1 ≤ count ∧ scope.StepsTo count name scope.config.root := by
  refine reachesRoot_iff fun earlier impossible => ?_
  cases impossible

end Scope

end NativeWeave
