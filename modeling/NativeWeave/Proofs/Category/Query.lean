import NativeWeave.Proofs.Category.DeclaredHash

namespace NativeWeave

/-!
# The order of questions

Categories, representations and hashes are asked for in whatever order a module suggests.  What is
remembered of earlier questions has no part in the answers about types and structs, as long as
every struct is the one that its name means, and none in the hashes of structs that do not refer to
each other.  Both conditions are needed.
-/

open Relation (ReflTransGen)
open Remembering

/-- A question about a type, a struct, or a member that refers to a struct. -/
inductive Query
  | category (type : Signature) (shape : MemberShape)
  | repr (struct : TypeDef)
  | hash (owner : QualifiedName) (category : Category)

namespace Query

/-- Ask, and keep what is remembered of it. -/
def ask (scope : Scope) : Query → Remembering Unit
  | category type shape => do
    let _ ← scope.classify type shape
  | repr struct => do
    let _ ← scope.structRepr? struct
  | hash owner found => do
    let _ ← scope.hashOverride? owner found

/-- A struct that is asked for is the one that its name means. -/
def IsResolved (scope : Scope) : Query → Prop
  | category _ _ => True
  | repr struct => scope.resolve? struct.qualifiedName = some struct
  | hash _ _ => True

end Query

namespace Scope

/-- What is remembered after some questions. -/
def remembered (scope : Scope) (queries : List Query) : Memory :=
  (queries.forM (·.ask scope) {}).2

variable {scope : Scope} {queries : List Query} {memory : Memory}

theorem keeps_structRepr? {struct : TypeDef}
    (resolved : scope.resolve? struct.qualifiedName = some struct) :
    Keeps (Memory.Faithful scope []) (scope.structRepr? struct) (· = scope.reprOf? struct) := by
  intro memory faithful
  rcases scope.keeps_reprWith? memory.hashes [] struct resolved nofun (fun _ _ => nofun) memory
    ⟨faithful.sound, rfl⟩ with ⟨answer, sound, same⟩
  exact ⟨answer, faithful.withSame sound same⟩

/-- The hash of a member's struct, if nothing is remembered. -/
noncomputable def hashOf? (scope : Scope) (owner : QualifiedName) (category : Category) :
    Option String :=
  match category.hashDependency? with
  | none => none
  | some dependency =>
    if category.embedded?.isSome && scope.isLocal dependency then none
    else if dependency = owner then some selfReference
    else some (scope.pureHash [] dependency)

theorem keeps_hashOverride? (owner : QualifiedName) (category : Category) :
    Keeps (Memory.Faithful scope []) (scope.hashOverride? owner category) fun answer =>
      (∀ dependency, category.hashDependency? = some dependency → scope.Tame dependency) →
        answer = scope.hashOf? owner category := by
  unfold hashOverride? hashOf?
  cases depends : category.hashDependency? with
  | none => exact Keeps.pure fun _ => rfl
  | some dependency =>
    dsimp only
    split
    · exact Keeps.pure fun _ => rfl
    · split
      · exact Keeps.pure fun _ => rfl
      · refine .bind (scope.keeps_declaredHashWith [] dependency (fun _ => nofun))
          fun hash right => Keeps.pure fun tame => ?_
        rw [right (tame dependency rfl)]

theorem faithful_empty : ({} : Memory).Faithful scope [] :=
  ⟨⟨nofun, fun _ => nofun⟩, nofun⟩

theorem keeps_ask {query : Query} (resolved : query.IsResolved scope) :
    Keeps (Memory.Faithful scope []) (query.ask scope) fun _ => True := by
  cases query with
  | category type shape => exact .discard (keeps_classify type shape)
  | repr struct => exact .discard (keeps_structRepr? resolved)
  | hash owner category => exact .discard (keeps_hashOverride? owner category)

/-- A memory stays fit through all questions if each of them keeps it so. -/
theorem fit_remembered {fit : Memory → Prop} (start : fit {})
    (each : ∀ query ∈ queries, Keeps fit (query.ask scope) fun _ => True) :
    fit (scope.remembered queries) := by
  have kept : ∀ memory, fit memory → fit (queries.forM (·.ask scope) memory).2 := by
    induction queries with
    | nil => exact fun memory ready => ready
    | cons query more ih =>
      rw [List.forall_mem_cons] at each
      exact fun memory ready => ih each.2 _ (each.1 memory ready).2
  exact kept {} start

/-- Whatever was asked, what is remembered of it is right. -/
theorem faithful_remembered (resolved : ∀ query ∈ queries, query.IsResolved scope) :
    (scope.remembered queries).Faithful scope [] :=
  fit_remembered faithful_empty fun query member => keeps_ask (resolved query member)

/-- The first answer about a struct that is bound field by field is worked out and remembered. -/
theorem BindsFields.structRepr?_of_missing {struct : TypeDef} (own : scope.BindsFields struct)
    (missing : memory.repr? struct.qualifiedName = none) :
    ∃ (later : Memory) (repr : StructRepr), scope.structRepr? struct memory =
        (some repr, later.withRepr struct.qualifiedName repr) ∧
      repr = if (scope.areBlittable [struct.qualifiedName] struct.instanceFields memory).1 then
        .blittable else .generic := by
  refine ⟨(scope.areBlittable [struct.qualifiedName] struct.instanceFields memory).2, _, ?_, rfl⟩
  rw [structRepr?, reprWith?, if_neg (by simp [own.plain]), get_bind_apply, missing]
  dsimp only
  rw [dif_pos own.home, if_neg (by simp [own.annotated]), dif_neg List.not_mem_nil]
  rfl

/-- An answer that is remembered is given whatever the struct is. -/
theorem BindsFields.structRepr?_of_found {struct : TypeDef} (own : scope.BindsFields struct)
    {repr : StructRepr} (found : memory.repr? struct.qualifiedName = some repr) :
    scope.structRepr? struct memory = (some repr, memory) := by
  rw [structRepr?, reprWith?, if_neg (by simp [own.plain]), get_bind_apply, found]
  rfl

/-- Of two structs with one name, the second is given the answer about the first. -/
theorem BindsFields.structRepr?_of_sameName {first second : TypeDef}
    (ownFirst : scope.BindsFields first) (ownSecond : scope.BindsFields second)
    (same : second.qualifiedName = first.qualifiedName)
    (missing : memory.repr? first.qualifiedName = none) :
    (scope.structRepr? second (scope.structRepr? first memory).2).1 =
      (scope.structRepr? first memory).1 := by
  rcases ownFirst.structRepr?_of_missing missing with ⟨later, repr, answer, _⟩
  have found : (later.withRepr first.qualifiedName repr).repr? second.qualifiedName = some repr := by
    rw [Memory.repr?_withRepr, if_pos same.symm]
  rw [answer, ownSecond.structRepr?_of_found found]

/-- Where types have distinct names, each is found under its name. -/
theorem type?_of_mem {module : Module} (distinct : (module.types.map (·.qualifiedName)).Nodup)
    {type : TypeDef} (member : type ∈ module.types) :
    module.type? type.qualifiedName = some type := by
  have present : (module.type? type.qualifiedName).isSome := by
    refine List.find?_isSome.mpr ⟨type, member, ?_⟩
    simp [TypeDef.qualifiedName]
  rcases Option.isSome_iff_exists.mp present with ⟨first, found⟩
  rcases Module.mem_of_type? found with ⟨inside, named⟩
  rw [found, List.inj_on_of_nodup_map distinct inside member named]

/-- Where types have distinct names, each is what its name means. -/
theorem resolve?_of_mem (distinct : (scope.module.types.map (·.qualifiedName)).Nodup)
    {type : TypeDef} (member : type ∈ scope.module.types) :
    scope.resolve? type.qualifiedName = some type := by
  rw [resolve?, type?_of_mem distinct member]

theorem BindsFields.reprOf?_of_mem {struct : TypeDef} (own : scope.BindsFields struct)
    (resolved : scope.resolve? struct.qualifiedName = some struct)
    (flat : struct.qualifiedName ∈ scope.flatStructs) : scope.reprOf? struct = some .blittable :=
  reprOf?_of_annotated own.plain own.home own.annotated
    (iff_of_true rfl ((qualifiedName_mem_flatStructs_iff resolved own).mp flat))

theorem BindsFields.reprOf?_of_not_mem {struct : TypeDef} (own : scope.BindsFields struct)
    (resolved : scope.resolve? struct.qualifiedName = some struct)
    (other : struct.qualifiedName ∉ scope.flatStructs) : scope.reprOf? struct = some .generic :=
  reprOf?_of_annotated own.plain own.home own.annotated
    (iff_of_false Bool.false_ne_true (mt (qualifiedName_mem_flatStructs_iff resolved own).mpr other))

/-- Categories and representations are what they are without earlier questions, and the
representation of a struct that is bound field by field tells whether it is one of the least set of
flat structs. -/
theorem classification_after_queries (scope : Scope) (queries : List Query)
    (resolved : ∀ query ∈ queries, query.IsResolved scope) :
    (∀ type shape, (scope.classify type shape (scope.remembered queries)).1 =
      (scope.classify type shape {}).1) ∧
    (∀ struct, scope.resolve? struct.qualifiedName = some struct →
      (scope.structRepr? struct (scope.remembered queries)).1 = (scope.structRepr? struct {}).1) ∧
    ((scope.module.types.map (·.qualifiedName)).Nodup →
      ∀ struct ∈ scope.module.types, scope.BindsFields struct →
        ((scope.structRepr? struct (scope.remembered queries)).1 = some .blittable ↔
          struct.qualifiedName ∈ scope.flatStructs) ∧
        ((scope.structRepr? struct (scope.remembered queries)).1 = some .generic ↔
          struct.qualifiedName ∉ scope.flatStructs)) := by
  have faithful := scope.faithful_remembered resolved
  refine ⟨fun type shape => ?_, fun struct named => ?_, fun distinct struct member own => ?_⟩
  · exact (keeps_classify type shape _ faithful).1.trans
      (keeps_classify type shape _ faithful_empty).1.symm
  · exact (keeps_structRepr? named _ faithful).1.trans
      (keeps_structRepr? named _ faithful_empty).1.symm
  · have named := resolve?_of_mem distinct member
    rw [(keeps_structRepr? named _ faithful).1]
    by_cases flat : struct.qualifiedName ∈ scope.flatStructs
    · simp [own.reprOf?_of_mem named flat, flat]
    · simp [own.reprOf?_of_not_mem named flat, flat]

end Scope

/-! ## A list of structs -/

namespace Sample

/-- An exposed field. -/
def exposed (name : String) (type : Signature) : Field where
  name := name
  type := type
  attributes := [{ type := ⟨"Tether.Attributes", "NativeProperty"⟩ }]

/-- A struct that is bound field by field. -/
def struct (name : String) (fields : List Field) : TypeDef where
  name := name
  namespaceName := "Game"
  kind := .structType
  attributes := [{ type := ⟨"Tether.Attributes", "NativeStruct"⟩ }]
  fields := fields

/-- A list of structs of the same module. -/
def listOf (name : String) : Signature :=
  .generic listInterface [.named ⟨"Game", name⟩]

/-- The category of such a list. -/
def listCategory (name : String) : Category :=
  .list (.struct .generic name ⟨"Game", name⟩) (.named ⟨"Game", name⟩)

/-- The module with the given structs, by itself. -/
def scope (structs : List TypeDef) : Scope :=
  ⟨{}, { Module.empty "Game" with types := structs }⟩

def point : TypeDef := struct "Point" [exposed "x" (.primitive .f32)]

/-- A chain starts at a point and goes on with chains. -/
def chain : TypeDef :=
  struct "Chain" [exposed "start" (.named ⟨"Game", "Point"⟩), exposed "rest" (listOf "Chain")]

def chains : Scope := scope [point, chain]

def questions : List Query :=
  [.repr chain, .category (listOf "Chain") {}, .hash ⟨"Game", "Point"⟩ (listCategory "Chain")]

theorem bindsFields_point : chains.BindsFields point := by
  constructor <;> decide

/-- Two structs with one name, of which only the first is flat. -/
def pair : TypeDef := struct "Pair" []

def labelledPair : TypeDef := struct "Pair" [exposed "label" (.primitive .string)]

def pairs : Scope := scope [pair, labelledPair]

theorem isResolved_questions : ∀ query ∈ questions, query.IsResolved chains := by
  simp only [questions, List.forall_mem_cons, Query.IsResolved]
  exact ⟨by decide, trivial, trivial, List.forall_mem_nil _⟩

theorem point_mem_flatStructs : point.qualifiedName ∈ chains.flatStructs := by
  rw [Scope.qualifiedName_mem_flatStructs_iff (by decide) bindsFields_point]
  intro field member
  cases List.mem_singleton.mp member
  exact ⟨_, rfl, .scalar rfl⟩

end Sample

namespace Scope

theorem classification_after_queries_chains :
    (∀ query ∈ Sample.questions, query.IsResolved Sample.chains) ∧
      (Sample.chains.module.types.map (·.qualifiedName)).Nodup ∧
      Sample.point ∈ Sample.chains.module.types ∧ Sample.chains.BindsFields Sample.point ∧
      (Sample.chains.structRepr? Sample.point (Sample.chains.remembered Sample.questions)).1 =
        some .blittable := by
  have distinct : (Sample.chains.module.types.map (·.qualifiedName)).Nodup := by decide
  have member : Sample.point ∈ Sample.chains.module.types := by decide
  have answers := classification_after_queries Sample.chains Sample.questions
    Sample.isResolved_questions
  exact ⟨Sample.isResolved_questions, distinct, member, Sample.bindsFields_point,
    (answers.2.2 distinct _ member Sample.bindsFields_point).1.mpr Sample.point_mem_flatStructs⟩

theorem not_blittable_labelledPair : (Sample.pairs.structRepr? Sample.labelledPair {}).1 =
    some .generic := by
  have own : Sample.pairs.BindsFields Sample.labelledPair := by constructor <;> decide
  have missing : ({} : Memory).repr? Sample.labelledPair.qualifiedName = none := rfl
  rcases own.structRepr?_of_missing missing with ⟨later, repr, answer, worked⟩
  have examined : (Sample.pairs.areBlittable [Sample.labelledPair.qualifiedName]
      Sample.labelledPair.instanceFields {}).1 = false := by
    change (Sample.pairs.areBlittable _ [Sample.exposed "label" (.primitive .string)] _).1 = _
    have shown : Sample.pairs.config.findAnnotation?
        (Sample.exposed "label" (.primitive .string)).attributes Annotation.nativeProperty =
          some { type := ⟨"Tether.Attributes", "NativeProperty"⟩ } := rfl
    rw [areBlittable, shown]
    dsimp only
    rw [classifyWith, classifyAnew]
    rfl
  rw [answer, worked, examined]
  rfl

theorem structRepr?_depends_on_earlier_pair :
    (Sample.pairs.structRepr? Sample.labelledPair
        (Sample.pairs.remembered [.repr Sample.pair])).1 ≠
      (Sample.pairs.structRepr? Sample.labelledPair {}).1 := by
  have own : Sample.pairs.BindsFields Sample.pair := by constructor <;> decide
  have ownLabelled : Sample.pairs.BindsFields Sample.labelledPair := by
    constructor <;> decide
  have flat : Sample.pair.qualifiedName ∈ Sample.pairs.flatStructs := by
    rw [qualifiedName_mem_flatStructs_iff (by decide) own]
    exact List.forall_mem_nil _
  have resolved : Sample.pairs.resolve? Sample.pair.qualifiedName = some Sample.pair := by
    decide
  have first : (Sample.pairs.structRepr? Sample.pair {}).1 = some .blittable :=
    (keeps_structRepr? resolved _ faithful_empty).1.trans (own.reprOf?_of_mem resolved flat)
  have second : (Sample.pairs.structRepr? Sample.labelledPair
      (Sample.pairs.remembered [.repr Sample.pair])).1 = some .blittable :=
    (own.structRepr?_of_sameName ownLabelled rfl rfl).trans first
  rw [second, not_blittable_labelledPair]
  decide

/-- The hash of a member's struct is what it is without earlier questions, where no two different
structs within its reach refer to each other. -/
theorem hashOverride?_after_queries (scope : Scope) (queries : List Query)
    (resolved : ∀ query ∈ queries, query.IsResolved scope) (owner : QualifiedName)
    (category : Category)
    (tame : ∀ dependency, category.hashDependency? = some dependency → scope.Tame dependency) :
    (scope.hashOverride? owner category (scope.remembered queries)).1 =
      (scope.hashOverride? owner category {}).1 := by
  have faithful := scope.faithful_remembered resolved
  exact ((keeps_hashOverride? owner category _ faithful).1 tame).trans
    ((keeps_hashOverride? owner category _ faithful_empty).1 tame).symm

end Scope

namespace Sample

theorem categoryOf_start : chains.categoryOf (.named ⟨"Game", "Point"⟩) {} =
    .ok (.struct .blittable "Point" ⟨"Game", "Point"⟩) := by
  have answer : chains.reprOf? point = some .blittable :=
    bindsFields_point.reprOf?_of_mem (by decide) point_mem_flatStructs
  have named : chains.outline (.named ⟨"Game", "Point"⟩) {} =
    .ok (.struct point ⟨"Game", "Point"⟩) := rfl
  rw [Scope.categoryOf_eq, named]
  dsimp only
  rw [answer]
  rfl

theorem categoryOf_rest : chains.categoryOf (listOf "Chain") {} = .ok (listCategory "Chain") := by
  have own : chains.BindsFields chain := by constructor <;> decide
  have resolved : chains.resolve? chain.qualifiedName = some chain := by decide
  have rest : exposed "rest" (listOf "Chain") ∈ chain.instanceFields := by decide
  have answer : chains.reprOf? chain = some .generic :=
    own.reprOf?_of_not_mem resolved
      (Scope.not_mem_flatStructs_of_element resolved rest rfl rfl rfl)
  exact Scope.categoryOf_structList rfl rfl answer

theorem hashedFields_chain : chains.hashedFields chain.instanceFields =
    [(exposed "start" (.named ⟨"Game", "Point"⟩), .ok (.struct .blittable "Point" ⟨"Game", "Point"⟩)),
      (exposed "rest" (listOf "Chain"), .ok (listCategory "Chain"))] := by
  rw [← categoryOf_start, ← categoryOf_rest]
  rfl

theorem refers_chain {part : QualifiedName} (refers : chains.Refers chain.qualifiedName part) :
    part = point.qualifiedName ∨ part = chain.qualifiedName := by
  rcases refers with ⟨type, resolved, field, member, category, answer, depends⟩
  have same : chains.resolve? chain.qualifiedName = some chain := by decide
  cases same.symm.trans resolved
  rw [hashedFields_chain] at member
  rcases List.mem_cons.mp member with rfl | later
  · cases answer
    cases depends
    exact .inl rfl
  · cases List.mem_singleton.mp later
    cases answer
    cases depends
    exact .inr rfl

theorem not_refers_point {part : QualifiedName} : ¬ chains.Refers point.qualifiedName part := by
  rintro ⟨type, resolved, field, member, category, answer, depends⟩
  have same : chains.resolve? point.qualifiedName = some point := by decide
  cases same.symm.trans resolved
  have fields : chains.hashedFields point.instanceFields =
    [(exposed "x" (.primitive .f32), chains.categoryOf (.primitive .f32) {})] := rfl
  rw [fields] at member
  cases List.mem_singleton.mp member
  have known : chains.outline (.primitive .f32) {} = .ok (.settled (.scalar .f32)) := rfl
  rw [Scope.categoryOf_eq, known] at answer
  cases answer
  cases depends

theorem tame_chain : chains.Tame chain.qualifiedName := by
  have fromPoint : ∀ {part}, chains.Reaches point.qualifiedName part → part = point.qualifiedName := by
    intro part path
    rcases ReflTransGen.cases_head path with rfl | ⟨_, refers, _⟩
    · rfl
    · exact absurd refers not_refers_point
  have fromChain : ∀ {part}, chains.Reaches chain.qualifiedName part →
      part = point.qualifiedName ∨ part = chain.qualifiedName := by
    intro part path
    induction path with
    | refl => exact .inr rfl
    | tail _ refers ih =>
      rcases ih with rfl | rfl
      · exact absurd refers not_refers_point
      · exact refers_chain refers
  intro first path second forth back
  rcases fromChain path with rfl | rfl
  · exact (fromPoint forth).symm
  · rcases fromChain forth with rfl | rfl
    · exact fromPoint back
    · rfl

end Sample

namespace Scope

theorem hashOverride?_after_queries_chains :
    (∀ query ∈ Sample.questions, query.IsResolved Sample.chains) ∧
      (∀ dependency, (Sample.listCategory "Chain").hashDependency? = some dependency →
        Sample.chains.Tame dependency) ∧
      (Sample.chains.hashOverride? ⟨"Game", "Owner"⟩ (Sample.listCategory "Chain")
          (Sample.chains.remembered Sample.questions)).1 =
        (Sample.chains.hashOverride? ⟨"Game", "Owner"⟩ (Sample.listCategory "Chain") {}).1 := by
  have tame : ∀ dependency, (Sample.listCategory "Chain").hashDependency? = some dependency →
      Sample.chains.Tame dependency := by
    rintro dependency ⟨rfl⟩
    exact Sample.tame_chain
  exact ⟨Sample.isResolved_questions, tame,
    hashOverride?_after_queries _ _ Sample.isResolved_questions _ _ tame⟩

end Scope

end NativeWeave
