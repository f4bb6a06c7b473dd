import NativeWeave.Proofs.Binding.Description
import NativeWeave.Weaving

namespace NativeWeave

/-!
# Hashes are a fixed point

Types are hashed one after another, each with the hashes that are known by then.  Hashes that are
known once stay as they are, so that in the end every hash is the digest of a description with the
hashes that are known in the end.  Where there are both orders, every hash is there when it is
needed.
-/

namespace Fingerprints

variable {known other next : Fingerprints} {bindings : Bindings} {module : Module}
  {name : QualifiedName}

/-! ## Hashes one after another -/

/-- A hash of a struct is put in front. -/
def withStruct (known : Fingerprints) (name : QualifiedName) (hash : String) : Fingerprints :=
  { known with structs := (name, hash) :: known.structs }

def withClass (known : Fingerprints) (name : QualifiedName) (hashes : ClassHashes) : Fingerprints :=
  { known with classes := (name, hashes) :: known.classes }

theorem struct?_withStruct {hash : String} {inner : QualifiedName} :
    (known.withStruct name hash).struct? inner =
      if name = inner then some hash else known.struct? inner := by
  unfold struct? withStruct
  rw [List.find?_cons]
  by_cases same : name = inner
  · rw [if_pos same, beq_iff_eq.mpr same]
    rfl
  · rw [if_neg same, beq_false_of_ne same]

theorem class?_withClass {hashes : ClassHashes} {base : QualifiedName} :
    (known.withClass name hashes).class? base =
      if name = base then some hashes else known.class? base := by
  unfold class? withClass
  rw [List.find?_cons]
  by_cases same : name = base
  · rw [if_pos same, beq_iff_eq.mpr same]
    rfl
  · rw [if_neg same, beq_false_of_ne same]

theorem addStruct_eq_ok_iff {binding : StructBinding} {hash : String} :
    known.addStruct bindings binding = .ok (hash, next) ↔
      ∃ description, known.describeStruct bindings binding = .ok description ∧
        hash = digest description [] ∧ next = known.withStruct binding.name hash := by
  unfold addStruct describeStruct
  constructor
  · intro added
    rcases bind_eq_ok_iff.mp added with ⟨members, described, final⟩
    cases final
    rw [described, ok_bind]
    exact ⟨_, rfl, rfl, rfl⟩
  · rintro ⟨description, run, rfl, rfl⟩
    rcases bind_eq_ok_iff.mp run with ⟨members, described, final⟩
    cases final
    rw [described, ok_bind]
    rfl

theorem addClass_eq_ok_iff {binding : ClassBinding} {hashes : ClassHashes} :
    known.addClass bindings module binding = .ok (hashes, next) ↔
      ∃ base description, known.baseHash bindings binding = .ok base ∧
        known.describeClass bindings binding = .ok description ∧
        hashes = ⟨digest description (binding.constructorCode module), base⟩ ∧
        next = known.withClass binding.name hashes := by
  unfold addClass describeClass
  constructor
  · intro added
    rcases bind_eq_ok_iff.mp added with ⟨base, based, added⟩
    rcases bind_eq_ok_iff.mp added with ⟨functions, each, added⟩
    rcases bind_eq_ok_iff.mp added with ⟨members, described, final⟩
    cases final
    rw [based, ok_bind, each, ok_bind, described, ok_bind]
    exact ⟨_, _, rfl, rfl, rfl, rfl⟩
  · rintro ⟨base, description, based, run, rfl, rfl⟩
    rw [based, ok_bind] at run ⊢
    rcases bind_eq_ok_iff.mp run with ⟨functions, each, run⟩
    rcases bind_eq_ok_iff.mp run with ⟨members, described, final⟩
    cases final
    rw [each, ok_bind, described, ok_bind]
    rfl

/-- Hash the struct of a name. -/
def hashStruct (bindings : Bindings) (known : Fingerprints) (name : QualifiedName) :
    Weave Fingerprints := do
  let binding ← Progress.bound (bindings.findStruct? name) name
  let (_, next) ← known.addStruct bindings binding
  return next

/-- Hash the class of a name. -/
def hashClass (bindings : Bindings) (module : Module) (known : Fingerprints)
    (name : QualifiedName) : Weave Fingerprints := do
  let binding ← Progress.bound (bindings.findClass? name) name
  let (_, next) ← known.addClass bindings module binding
  return next

end Fingerprints

namespace Bindings

/-- The hashes of structs and then of classes, one name after another. -/
def hashAll (bindings : Bindings) (module : Module) (structs classes : List QualifiedName) :
    Weave Fingerprints := do
  let hashed ← structs.foldlM (Fingerprints.hashStruct bindings) {}
  classes.foldlM (Fingerprints.hashClass bindings module) hashed

/-- The hashes of all annotated structs and classes, in the order of processing. -/
def fingerprints (bindings : Bindings) (module : Module) : Weave Fingerprints := do
  let structs ← bindings.structOrder
  let classes ← bindings.classOrder
  bindings.hashAll module structs classes

end Bindings

namespace Fingerprints

variable {known next : Fingerprints} {bindings : Bindings} {module : Module} {name : QualifiedName}

/-- Hashes that come of hashing one type after another. -/
inductive Grown (bindings : Bindings) (module : Module) : Fingerprints → Prop
  | start : Grown bindings module {}
  | ofStruct {known : Fingerprints} {binding : StructBinding} {description : Json}
    (grown : Grown bindings module known)
    (found : bindings.findStruct? binding.name = some binding)
    (described : known.describeStruct bindings binding = .ok description) :
    Grown bindings module (known.withStruct binding.name (digest description []))
  | ofClass {known : Fingerprints} {binding : ClassBinding} {base : Option String}
    {description : Json} (grown : Grown bindings module known)
    (found : bindings.findClass? binding.name = some binding)
    (based : known.baseHash bindings binding = .ok base)
    (described : known.describeClass bindings binding = .ok description) :
    Grown bindings module (known.withClass binding.name
      ⟨digest description (binding.constructorCode module), base⟩)

theorem hashStruct_eq_ok (hashed : hashStruct bindings known name = .ok next) :
    ∃ binding hash, bindings.findStruct? name = some binding ∧ binding.name = name ∧
      known.addStruct bindings binding = .ok (hash, next) := by
  rcases bind_eq_ok_iff.mp hashed with ⟨binding, bound, hashed⟩
  rcases bind_eq_ok_iff.mp hashed with ⟨⟨hash, after⟩, added, final⟩
  cases final
  have found := Weave.ofOption_eq_ok bound
  exact ⟨binding, hash, found, (Bindings.ofStruct_mem_of_findStruct? found).2, added⟩

theorem hashClass_eq_ok (hashed : hashClass bindings module known name = .ok next) :
    ∃ binding hashes, bindings.findClass? name = some binding ∧ binding.name = name ∧
      known.addClass bindings module binding = .ok (hashes, next) := by
  rcases bind_eq_ok_iff.mp hashed with ⟨binding, bound, hashed⟩
  rcases bind_eq_ok_iff.mp hashed with ⟨⟨hashes, after⟩, added, final⟩
  cases final
  have found := Weave.ofOption_eq_ok bound
  exact ⟨binding, hashes, found, (Bindings.ofClass_mem_of_findClass? found).2, added⟩

theorem Grown.hashStruct (grown : known.Grown bindings module)
    (hashed : hashStruct bindings known name = .ok next) : next.Grown bindings module := by
  rcases hashStruct_eq_ok hashed with ⟨binding, hash, found, rfl, added⟩
  rcases addStruct_eq_ok_iff.mp added with ⟨description, described, rfl, rfl⟩
  exact .ofStruct grown found described

theorem Grown.hashClass (grown : known.Grown bindings module)
    (hashed : hashClass bindings module known name = .ok next) : next.Grown bindings module := by
  rcases hashClass_eq_ok hashed with ⟨binding, hashes, found, rfl, added⟩
  rcases addClass_eq_ok_iff.mp added with ⟨base, description, based, described, rfl, rfl⟩
  exact .ofClass grown found based described

theorem struct?_addStruct {binding : StructBinding} {hash : String}
    (added : known.addStruct bindings binding = .ok (hash, next)) :
    (next.struct? binding.name).isSome = true ∧
      ∀ name, (known.struct? name).isSome = true → (next.struct? name).isSome = true := by
  rcases addStruct_eq_ok_iff.mp added with ⟨description, _, _, rfl⟩
  refine ⟨by rw [struct?_withStruct, if_pos rfl]; rfl, fun name recorded => ?_⟩
  rw [struct?_withStruct]
  split
  · rfl
  · exact recorded

theorem class?_addClass {binding : ClassBinding} {hashes : ClassHashes}
    (added : known.addClass bindings module binding = .ok (hashes, next)) :
    next.structs = known.structs ∧ (next.class? binding.name).isSome = true ∧
      ∀ name, (known.class? name).isSome = true → (next.class? name).isSome = true := by
  rcases addClass_eq_ok_iff.mp added with ⟨base, description, _, _, _, rfl⟩
  refine ⟨rfl, by rw [class?_withClass, if_pos rfl]; rfl, fun name recorded => ?_⟩
  rw [class?_withClass]
  split
  · rfl
  · exact recorded

theorem isSome_struct?_of_hashStruct (hashed : hashStruct bindings known name = .ok next) :
    (next.struct? name).isSome = true ∧
      ∀ other, (known.struct? other).isSome = true → (next.struct? other).isSome = true := by
  rcases hashStruct_eq_ok hashed with ⟨binding, hash, _, rfl, added⟩
  exact struct?_addStruct added

theorem isSome_class?_of_hashClass (hashed : hashClass bindings module known name = .ok next) :
    next.structs = known.structs ∧ (next.class? name).isSome = true ∧
      ∀ other, (known.class? other).isSome = true → (next.class? other).isSome = true := by
  rcases hashClass_eq_ok hashed with ⟨binding, hashes, _, rfl, added⟩
  exact class?_addClass added

theorem exists_addStruct {binding : StructBinding}
    (covered : ∀ inner, bindings.Holds binding.members inner →
      (known.struct? inner).isSome = true) :
    ∃ result, known.addStruct bindings binding = .ok result := by
  rcases exists_describeStruct covered with ⟨description, described⟩
  exact ⟨_, addStruct_eq_ok_iff.mpr ⟨description, described, rfl, rfl⟩⟩

theorem exists_addClass (module : Module) {binding : ClassBinding}
    (covered : ∀ inner, (bindings.findStruct? inner).isSome = true →
      (known.struct? inner).isSome = true)
    (base : ∀ base ∈ binding.base, (bindings.findClass? base).isSome = true →
      (known.class? base).isSome = true) :
    ∃ result, known.addClass bindings module binding = .ok result := by
  rcases exists_baseHash base with ⟨hash, based⟩
  rcases exists_describeClass covered based with ⟨description, described⟩
  exact ⟨_, addClass_eq_ok_iff.mpr ⟨hash, description, based, described, rfl, rfl⟩⟩

theorem exists_hashStruct {binding : StructBinding}
    (found : bindings.findStruct? name = some binding)
    (covered : ∀ inner, bindings.Holds binding.members inner →
      (known.struct? inner).isSome = true) :
    ∃ next, hashStruct bindings known name = .ok next := by
  rcases exists_addStruct covered with ⟨⟨hash, next⟩, added⟩
  refine ⟨next, ?_⟩
  unfold hashStruct Progress.bound
  rw [found]
  exact bind_eq_ok_iff.mpr ⟨binding, rfl, bind_eq_ok_iff.mpr ⟨_, added, rfl⟩⟩

theorem exists_hashClass (module : Module) {binding : ClassBinding}
    (found : bindings.findClass? name = some binding)
    (covered : ∀ inner, (bindings.findStruct? inner).isSome = true →
      (known.struct? inner).isSome = true)
    (base : ∀ base ∈ binding.base, (bindings.findClass? base).isSome = true →
      (known.class? base).isSome = true) :
    ∃ next, hashClass bindings module known name = .ok next := by
  rcases exists_addClass module covered base with ⟨⟨hashes, next⟩, added⟩
  refine ⟨next, ?_⟩
  unfold hashClass Progress.bound
  rw [found]
  exact bind_eq_ok_iff.mpr ⟨binding, rfl, bind_eq_ok_iff.mpr ⟨_, added, rfl⟩⟩

/-! ## The fixed point -/

/-- Every hash is that of a description with the hashes that are known. -/
structure Settled (known : Fingerprints) (bindings : Bindings) (module : Module) : Prop where
  structs : ∀ {name : QualifiedName} {hash : String}, known.struct? name = some hash →
    ∃ binding description, bindings.findStruct? name = some binding ∧
      known.describeStruct bindings binding = .ok description ∧ hash = digest description []
  classes : ∀ {name : QualifiedName} {hashes : ClassHashes}, known.class? name = some hashes →
    ∃ binding description, bindings.findClass? name = some binding ∧
      known.baseHash bindings binding = .ok hashes.base ∧
      known.describeClass bindings binding = .ok description ∧
      hashes.own = digest description (binding.constructorCode module)

/-- What is known stays known. -/
structure Extends (known next : Fingerprints) : Prop where
  structs : ∀ name hash, known.struct? name = some hash → next.struct? name = some hash
  classes : ∀ name hashes, known.class? name = some hashes → next.class? name = some hashes

theorem Extends.describeStruct (grows : known.Extends next) {binding : StructBinding}
    {description : Json} (run : known.describeStruct bindings binding = .ok description) :
    next.describeStruct bindings binding = .ok description :=
  describeStruct_eq_ok_of_agree (fun _ => rfl) (fun inner _ => grows.structs inner) run

theorem Extends.baseHash (grows : known.Extends next) {binding : ClassBinding}
    {hash : Option String} (run : known.baseHash bindings binding = .ok hash) :
    next.baseHash bindings binding = .ok hash :=
  baseHash_eq_ok_of_agree (fun _ => rfl) (fun base _ _ => grows.classes base) run

theorem Extends.describeClass (grows : known.Extends next) {binding : ClassBinding}
    {description : Json} (run : known.describeClass bindings binding = .ok description) :
    next.describeClass bindings binding = .ok description :=
  describeClass_eq_ok_of_agree (fun _ => rfl) (fun inner _ => grows.structs inner)
    (fun _ => grows.baseHash) run

/-- What is settled stays so when a hash is added that was not known or is known already. -/
theorem Settled.extend (settled : known.Settled bindings module) (grows : known.Extends next)
    (structs : ∀ name hash, next.struct? name = some hash → known.struct? name = some hash ∨
      ∃ binding description, bindings.findStruct? name = some binding ∧
        known.describeStruct bindings binding = .ok description ∧ hash = digest description [])
    (classes : ∀ name hashes, next.class? name = some hashes → known.class? name = some hashes ∨
      ∃ binding description, bindings.findClass? name = some binding ∧
        known.baseHash bindings binding = .ok hashes.base ∧
        known.describeClass bindings binding = .ok description ∧
        hashes.own = digest description (binding.constructorCode module)) :
    next.Settled bindings module where
  structs := by
    intro name hash recorded
    have before : ∃ binding description, bindings.findStruct? name = some binding ∧
        known.describeStruct bindings binding = .ok description ∧ hash = digest description [] :=
      (structs name hash recorded).elim settled.structs id
    rcases before with ⟨binding, description, found, described, same⟩
    exact ⟨binding, description, found, grows.describeStruct described, same⟩
  classes := by
    intro name hashes recorded
    have before : ∃ binding description, bindings.findClass? name = some binding ∧
        known.baseHash bindings binding = .ok hashes.base ∧
        known.describeClass bindings binding = .ok description ∧
        hashes.own = digest description (binding.constructorCode module) :=
      (classes name hashes recorded).elim settled.classes id
    rcases before with ⟨binding, description, found, based, described, same⟩
    exact ⟨binding, description, found, grows.baseHash based, grows.describeClass described, same⟩

/-- The induction is on the hashes.  A name that is hashed again gets the hash that it has. -/
theorem Grown.settled (grown : known.Grown bindings module) : known.Settled bindings module := by
  induction grown with
  | start =>
    constructor
    · rintro name hash ⟨⟩
    · rintro name hashes ⟨⟩
  | @ofStruct known binding description _ found described settled =>
    refine settled.extend ⟨fun name hash recorded => ?_, fun _ _ => id⟩ (fun name hash => ?_)
      (fun _ _ => .inl)
    · rw [struct?_withStruct]
      split
      · next same =>
        subst same
        rcases settled.structs recorded with ⟨other, again, found', described', rfl⟩
        cases found.symm.trans found'
        cases described.symm.trans described'
        rfl
      · exact recorded
    · rw [struct?_withStruct]
      split
      · next same =>
        subst same
        rintro ⟨⟩
        exact .inr ⟨binding, description, found, described, rfl⟩
      · exact .inl
  | @ofClass known binding base description _ found based described settled =>
    refine settled.extend ⟨fun _ _ => id, fun name hashes recorded => ?_⟩ (fun _ _ => .inl)
      (fun name hashes => ?_)
    · rw [class?_withClass]
      split
      · next same =>
        subst same
        rcases settled.classes recorded with ⟨other, again, found', based', described', own⟩
        cases found.symm.trans found'
        cases described.symm.trans described'
        cases hashes
        cases based.symm.trans based'
        cases own
        rfl
      · exact recorded
    · rw [class?_withClass]
      split
      · next same =>
        subst same
        rintro ⟨⟩
        exact .inr ⟨binding, description, found, based, described, rfl⟩
      · exact .inl

end Fingerprints

namespace Bindings

variable {bindings : Bindings} {module : Module} {known : Fingerprints}

theorem grown_of_fingerprints (run : bindings.fingerprints module = .ok known) :
    known.Grown bindings module := by
  rcases bind_eq_ok_iff.mp run with ⟨structs, _, run⟩
  rcases bind_eq_ok_iff.mp run with ⟨classes, _, run⟩
  rcases bind_eq_ok_iff.mp run with ⟨hashed, first, second⟩
  have middle := foldlM_induction (fun known => known.Grown bindings module) .start
    (fun known name next _ grown => grown.hashStruct) first
  exact foldlM_induction (fun known => known.Grown bindings module) middle
    (fun known name next _ grown => grown.hashClass) second

/-- In the end the hashes of all annotated structs and classes are known. -/
theorem recorded_of_fingerprints (run : bindings.fingerprints module = .ok known) :
    (∀ name, (bindings.findStruct? name).isSome = true → (known.struct? name).isSome = true) ∧
      ∀ name, (bindings.findClass? name).isSome = true → (known.class? name).isSome = true := by
  rcases bind_eq_ok_iff.mp run with ⟨structs, structsOrdered, run⟩
  rcases bind_eq_ok_iff.mp run with ⟨classes, classesOrdered, run⟩
  rcases bind_eq_ok_iff.mp run with ⟨hashed, first, second⟩
  have listed := foldlM_achieves (fun _ => True)
    (fun name (known : Fingerprints) => (known.struct? name).isSome = true) trivial
    (fun known name next _ _ step =>
      ⟨trivial, Fingerprints.isSome_struct?_of_hashStruct step⟩) first
  have later := foldlM_achieves (fun known : Fingerprints => known.structs = hashed.structs)
    (fun name (known : Fingerprints) => (known.class? name).isSome = true) rfl
    (fun known name next _ same step =>
      ⟨(Fingerprints.isSome_class?_of_hashClass step).1.trans same,
        (Fingerprints.isSome_class?_of_hashClass step).2⟩) second
  constructor
  · intro name bound
    rcases List.mem_map.mp (isSome_findStruct?_iff.mp bound) with ⟨binding, member, rfl⟩
    have recorded := listed.2.1 _ ((sortedBy_structOrder structsOrdered).2.2 binding member)
    rwa [Fingerprints.struct?, later.1]
  · intro name bound
    rcases List.mem_map.mp (isSome_findClass?_iff.mp bound) with ⟨binding, member, rfl⟩
    exact later.2.1 _ (mem_classOrder classesOrdered member)

/-- Structs and classes have names of their own, and none embeds itself or derives from itself. -/
structure Orderly (bindings : Bindings) : Prop where
  structs : (bindings.structs.map (·.name)).Nodup
  classes : (bindings.classes.map (·.name)).Nodup
  embedding : ∀ name, ¬ Relation.TransGen bindings.Embeds name name
  inheritance : ∀ name, ¬ Relation.TransGen bindings.Derives name name

/-- The hashes of structs can be taken in their order. -/
theorem exists_hashed_structs (distinct : (bindings.structs.map (·.name)).Nodup)
    {structs : List QualifiedName} (ordered : bindings.structOrder = .ok structs) :
    ∃ hashed, structs.foldlM (Fingerprints.hashStruct bindings) {} = .ok hashed ∧
      ∀ name ∈ structs, (hashed.struct? name).isSome = true := by
  rcases sortedBy_structOrder ordered with ⟨sorted, only, _⟩
  refine exists_foldlM (fun front (known : Fingerprints) =>
    ∀ name ∈ front, (known.struct? name).isSome = true) (List.forall_mem_nil _) ?_
  intro front name back known split covered
  have bound := only name (split ▸ List.mem_append_right _ List.mem_cons_self)
  rcases Option.isSome_iff_exists.mp bound with ⟨binding, found⟩
  have ready := (sorted front name back split).2
  rcases @Fingerprints.exists_hashStruct known bindings name binding found
    (fun inner holds => covered inner (ready inner ((embeds_iff distinct).mp
      ⟨binding, found, holds⟩))) with ⟨next, hashed⟩
  rcases Fingerprints.isSome_struct?_of_hashStruct hashed with ⟨own, kept⟩
  exact ⟨next, hashed, List.forall_mem_append.mpr
    ⟨fun other early => kept other (covered other early), List.forall_mem_singleton.mpr own⟩⟩

/-- Where there are both orders, all hashes can be taken. -/
theorem Orderly.exists_fingerprints (orderly : bindings.Orderly) (module : Module) :
    ∃ known, bindings.fingerprints module = .ok known := by
  rcases exists_structOrder orderly.structs orderly.embedding with ⟨structs, structsOrdered⟩
  rcases exists_classOrder orderly.classes orderly.inheritance with ⟨classes, classesOrdered⟩
  rcases exists_hashed_structs orderly.structs structsOrdered with ⟨hashed, first, all⟩
  rcases sortedBy_classOrder (fun _ => findClass?_eq_of_mem orderly.classes) classesOrdered with
    ⟨sorted, only⟩
  have covered : ∀ inner, (bindings.findStruct? inner).isSome = true →
      (hashed.struct? inner).isSome = true := by
    intro inner bound
    rcases List.mem_map.mp (isSome_findStruct?_iff.mp bound) with ⟨binding, member, rfl⟩
    exact all _ ((sortedBy_structOrder structsOrdered).2.2 binding member)
  have run : ∃ known, classes.foldlM (Fingerprints.hashClass bindings module) hashed = .ok known ∧
      known.structs = hashed.structs ∧ ∀ name ∈ classes, (known.class? name).isSome = true := by
    refine exists_foldlM (fun front (known : Fingerprints) => known.structs = hashed.structs ∧
      ∀ name ∈ front, (known.class? name).isSome = true) ⟨rfl, List.forall_mem_nil _⟩ ?_
    rintro front name back known split ⟨same, earlier⟩
    have bound := only name (split ▸ List.mem_append_right _ List.mem_cons_self)
    rcases Option.isSome_iff_exists.mp bound with ⟨binding, found⟩
    have ready := (sorted front name back split).2
    have structs : ∀ inner, (bindings.findStruct? inner).isSome = true →
        (known.struct? inner).isSome = true := by
      intro inner bound
      rw [Fingerprints.struct?, same]
      exact covered inner bound
    rcases Fingerprints.exists_hashClass module found structs (fun base declared bound =>
      earlier base (ready base ((mem_baseOf_iff found).mpr ⟨declared, bound⟩))) with ⟨next, hashed⟩
    rcases Fingerprints.isSome_class?_of_hashClass hashed with ⟨still, own, kept⟩
    exact ⟨next, hashed, still.trans same, List.forall_mem_append.mpr
      ⟨fun other early => kept other (earlier other early), List.forall_mem_singleton.mpr own⟩⟩
  rcases run with ⟨known, second, _⟩
  unfold fingerprints hashAll
  rw [structsOrdered, ok_bind, classesOrdered, ok_bind, first, ok_bind]
  exact ⟨known, second⟩

end Bindings

end NativeWeave
