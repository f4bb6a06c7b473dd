import NativeWeave.Proofs.Binding.Fingerprint
import NativeWeave.Proofs.Editing.Edited

namespace NativeWeave

/-!
# A change of a struct shows in all hashes that depend on it

When one struct of a module changes and its hash with it, so does the hash of every struct and class
that has a value of the struct in place inside of it, at any remove, and of every class that derives
from such a class.  No other hash changes.  A change goes up one level at a time: as long as no two
of the hashed texts collide, a type whose hash stays has a description that stays, and with it all
hashes inside.
-/

open Relation

namespace Bindings

/-- The second bindings are the first with another binding for one struct. -/
def DifferAt (first second : Bindings) (struct : QualifiedName) : Prop :=
  ∃ front one other back, first = front ++ .ofStruct one :: back ∧
    second = front ++ .ofStruct other :: back ∧ one.name = struct ∧ other.name = struct

/-- One of the values has the struct in place inside of it, at any remove. -/
def Reaches (bindings : Bindings) (values : List MemberBinding) (struct : QualifiedName) : Prop :=
  ∃ inner, bindings.Holds values inner ∧ ReflTransGen bindings.Embeds inner struct

/-- The class has the struct in a member, a parameter or a return value. -/
def ClassReaches (bindings : Bindings) (name struct : QualifiedName) : Prop :=
  ∃ binding, bindings.findClass? name = some binding ∧
    bindings.Reaches (TypeBinding.ofClass binding).values struct

namespace DifferAt

variable {first second : Bindings} {struct name : QualifiedName}

theorem classes_eq (differ : first.DifferAt second struct) : second.classes = first.classes := by
  rcases differ with ⟨front, one, other, back, rfl, rfl, _, _⟩
  rw [classes, classes, List.filterMap_append, List.filterMap_append]
  rfl

theorem enums_eq (differ : first.DifferAt second struct) : second.enums = first.enums := by
  rcases differ with ⟨front, one, other, back, rfl, rfl, _, _⟩
  rw [enums, enums, List.filterMap_append, List.filterMap_append]
  rfl

theorem findClass?_eq (differ : first.DifferAt second struct) (name : QualifiedName) :
    second.findClass? name = first.findClass? name := by
  rw [findClass?, findClass?, differ.classes_eq]

/-- Under another name both have the same struct. -/
theorem findStruct?_eq (differ : first.DifferAt second struct) (apart : name ≠ struct) :
    second.findStruct? name = first.findStruct? name := by
  rcases differ with ⟨front, one, other, back, rfl, rfl, rfl, same⟩
  have skips : ∀ binding : StructBinding, binding.name = one.name →
      findStruct? (front ++ .ofStruct binding :: back) name =
        (findStruct? front name).or (findStruct? back name) := by
    intro binding named
    have differs : ¬ (binding.name == name) = true := by
      rw [named, beq_iff_eq]
      exact fun equal => apart equal.symm
    rw [findStruct?, structs, List.filterMap_append, List.find?_append]
    exact congrArg _ (List.find?_cons_of_neg differs)
  rw [skips one rfl, skips other same]

theorem isSome_findStruct?_eq (differ : first.DifferAt second struct) (name : QualifiedName) :
    (first.findStruct? name).isSome = (second.findStruct? name).isSome := by
  have names : first.structs.map (·.name) = second.structs.map (·.name) := by
    rcases differ with ⟨front, one, other, back, rfl, rfl, rfl, same⟩
    simp only [structs, List.filterMap_append, List.map_append, List.filterMap_cons,
      TypeBinding.struct?, List.map_cons, same]
  rw [Bool.eq_iff_iff, isSome_findStruct?_iff, isSome_findStruct?_iff, names]

end DifferAt

end Bindings

namespace Fingerprints

variable {first second : Bindings} {struct name : QualifiedName} {before after : Module}
  {known other : Fingerprints}

/-- The texts that the hashes of the annotated structs and classes are taken over. -/
def texts (known : Fingerprints) (bindings : Bindings) (module : Module) : List Bytes :=
  (bindings.structs.filterMap fun binding =>
    (known.describeStruct bindings binding).toOption.map (preimage · [])) ++
  bindings.classes.filterMap fun binding =>
    (known.describeClass bindings binding).toOption.map
      (preimage · (binding.constructorCode module))

theorem preimage_mem_texts_of_struct {binding : StructBinding} {description : Json}
    (found : first.findStruct? name = some binding)
    (described : known.describeStruct first binding = .ok description) :
    preimage description [] ∈ known.texts first before := by
  refine List.mem_append_left _ (List.mem_filterMap.mpr
    ⟨binding, List.mem_of_find?_eq_some found, ?_⟩)
  rw [described]
  rfl

theorem preimage_mem_texts_of_class {binding : ClassBinding} {description : Json}
    (found : first.findClass? name = some binding)
    (described : known.describeClass first binding = .ok description) :
    preimage description (binding.constructorCode before) ∈ known.texts first before := by
  refine List.mem_append_right _ (List.mem_filterMap.mpr
    ⟨binding, List.mem_of_find?_eq_some found, ?_⟩)
  rw [described]
  rfl

/-- The own hash of a class and the hash of its annotated base class. -/
def ownHash? (known : Fingerprints) (name : QualifiedName) : Option String :=
  (known.class? name).map (·.own)

def baseHash? (known : Fingerprints) (name : QualifiedName) : Option String :=
  (known.class? name).bind (·.base)

end Fingerprints

namespace Bindings

/-- What shows that one struct has changed. -/
structure Propagates (bindings : Bindings) (struct : QualifiedName)
    (known other : Fingerprints) : Prop where
  structs : ∀ name, TransGen bindings.Embeds name struct →
    known.struct? name ≠ other.struct? name
  classes : ∀ name, bindings.ClassReaches name struct →
    known.ownHash? name ≠ other.ownHash? name
  derived : ∀ name base, bindings.ClassReaches base struct → TransGen bindings.Derives name base →
    known.ownHash? name ≠ other.ownHash? name ∧ known.baseHash? name ≠ other.baseHash? name

/-- What does not show it. -/
structure Spares (first second : Bindings) (struct : QualifiedName)
    (known other : Fingerprints) : Prop where
  structs : ∀ name, ¬ ReflTransGen first.Embeds name struct →
    known.struct? name = other.struct? name
  classes : ∀ name, (∀ ancestor, ReflTransGen first.Derives name ancestor →
    ¬ first.ClassReaches ancestor struct) → known.class? name = other.class? name
  enums : first.enums.map (·.hash) = second.enums.map (·.hash)

end Bindings

namespace Fingerprints

variable {first second : Bindings} {struct name : QualifiedName} {before after : Module}
  {known other : Fingerprints}

/-- Two sets of hashes of modules that differ in one struct only, whose constructors have the same
code. -/
structure Parallel (first second : Bindings) (struct : QualifiedName) (before after : Module)
    (known other : Fingerprints) : Prop where
  differ : first.DifferAt second struct
  code : ∀ binding ∈ first.classes,
    binding.constructorCode before = binding.constructorCode after
  settled : known.Settled first before
  settled' : other.Settled second after
  structs : ∀ name, (first.findStruct? name).isSome = true →
    (known.struct? name).isSome = true ∧ (other.struct? name).isSome = true
  classes : ∀ name, (first.findClass? name).isSome = true →
    (known.class? name).isSome = true ∧ (other.class? name).isSome = true

namespace Parallel

variable (parallel : Parallel first second struct before after known other)
include parallel

/-- What both sets of hashes say about a struct other than the one that differs. -/
theorem describes_struct (apart : name ≠ struct) {binding : StructBinding}
    (found : first.findStruct? name = some binding) :
    ∃ description description',
      known.describeStruct first binding = .ok description ∧
      other.describeStruct second binding = .ok description' ∧
      known.struct? name = some (digest description []) ∧
      other.struct? name = some (digest description' []) := by
  rcases parallel.structs name (Option.isSome_of_eq_some found) with ⟨one, two⟩
  rcases Option.isSome_iff_exists.mp one with ⟨hash, recorded⟩
  rcases Option.isSome_iff_exists.mp two with ⟨hash', recorded'⟩
  rcases parallel.settled.structs recorded with ⟨own, description, found', described, rfl⟩
  rcases parallel.settled'.structs recorded' with ⟨own', description', found'', described', rfl⟩
  rw [parallel.differ.findStruct?_eq apart] at found''
  cases found.symm.trans found'
  cases found.symm.trans found''
  exact ⟨description, description', described, described', recorded, recorded'⟩

/-- What both sets of hashes say about a class. -/
theorem describes_class {binding : ClassBinding} (found : first.findClass? name = some binding) :
    ∃ description description' base base',
      known.describeClass first binding = .ok description ∧
      other.describeClass second binding = .ok description' ∧
      known.baseHash first binding = .ok base ∧ other.baseHash second binding = .ok base' ∧
      known.class? name = some ⟨digest description (binding.constructorCode before), base⟩ ∧
      other.class? name = some ⟨digest description' (binding.constructorCode before), base'⟩ := by
  rcases parallel.classes name (Option.isSome_of_eq_some found) with ⟨one, two⟩
  rcases Option.isSome_iff_exists.mp one with ⟨⟨own, base⟩, recorded⟩
  rcases Option.isSome_iff_exists.mp two with ⟨⟨own', base'⟩, recorded'⟩
  rcases parallel.settled.classes recorded with ⟨_, description, found', based, described, rfl⟩
  rcases parallel.settled'.classes recorded' with
    ⟨_, description', found'', based', described', rfl⟩
  rw [parallel.differ.findClass?_eq] at found''
  cases found.symm.trans found'
  cases found.symm.trans found''
  rw [← parallel.code binding (List.mem_of_find?_eq_some found)] at recorded'
  exact ⟨description, description', base, base', described, described', based, based', recorded,
    recorded'⟩

/-! ## What changes -/

section Free

variable (free : Set.InjOn sha256
  {text | text ∈ known.texts first before ∨ text ∈ other.texts second after})
include free

/-- A struct has another hash where one that it embeds has. -/
theorem struct?_ne_of_embeds (apart : name ≠ struct) {inner : QualifiedName}
    (embeds : first.Embeds name inner) (differs : known.struct? inner ≠ other.struct? inner) :
    known.struct? name ≠ other.struct? name := by
  rcases embeds with ⟨binding, found, holds⟩
  rcases parallel.describes_struct apart found with
    ⟨description, description', described, described', recorded, recorded'⟩
  have found' := (parallel.differ.findStruct?_eq apart).trans found
  rw [recorded, recorded']
  intro same
  have descriptions := digest_inj free (legible_describeStruct described)
    (legible_describeStruct described') (.inl (preimage_mem_texts_of_struct found described))
    (.inr (preimage_mem_texts_of_struct found' described')) (Option.some.inj same)
  subst descriptions
  exact differs (struct?_eq_of_describeStruct parallel.differ.isSome_findStruct?_eq described
    described' holds)

/-- The change goes up from struct to struct. -/
theorem struct?_ne_of_reaches (differs : known.struct? struct ≠ other.struct? struct)
    (reaches : ReflTransGen first.Embeds name struct) :
    known.struct? name ≠ other.struct? name := by
  induction reaches using ReflTransGen.head_induction_on with
  | refl => exact differs
  | @head outer inner embeds _ ih =>
    by_cases apart : outer = struct
    · exact apart ▸ differs
    · exact parallel.struct?_ne_of_embeds free apart embeds ih

/-- Where a class has the same own hash, so have the structs inside of it and its base class. -/
theorem hashes_eq_of_own {binding : ClassBinding} (found : first.findClass? name = some binding)
    (same : known.ownHash? name = other.ownHash? name) :
    known.baseHash? name = other.baseHash? name ∧
      ∀ inner, first.Holds (TypeBinding.ofClass binding).values inner →
        known.struct? inner = other.struct? inner := by
  rcases parallel.describes_class found with ⟨description, description', base, base', described,
    described', based, based', recorded, recorded'⟩
  have found' := (parallel.differ.findClass?_eq name).trans found
  have code := parallel.code binding (List.mem_of_find?_eq_some found)
  rw [ownHash?, ownHash?, recorded, recorded'] at same
  have descriptions := digest_inj free (legible_describeClass described)
    (legible_describeClass described') (.inl (preimage_mem_texts_of_class found described))
    (.inr (code ▸ preimage_mem_texts_of_class found' described')) (Option.some.inj same)
  subst descriptions
  rcases hashes_eq_of_describeClass parallel.differ.isSome_findStruct?_eq described described' with
    ⟨⟨hash, one, two⟩, inside⟩
  cases based.symm.trans one
  cases based'.symm.trans two
  rw [baseHash?, baseHash?, recorded, recorded']
  exact ⟨rfl, inside⟩

/-- A class that has the changed struct inside of it has another own hash. -/
theorem ownHash?_ne_of_reaches (differs : known.struct? struct ≠ other.struct? struct)
    (reaches : first.ClassReaches name struct) : known.ownHash? name ≠ other.ownHash? name := by
  rcases reaches with ⟨binding, found, inner, holds, leads⟩
  intro same
  exact parallel.struct?_ne_of_reaches free differs leads
    ((parallel.hashes_eq_of_own free found same).2 inner holds)

omit free in
/-- The hash of the annotated base class is its own hash. -/
theorem baseHash?_eq_of_derives {base : QualifiedName} (derives : first.Derives name base) :
    known.baseHash? name = known.ownHash? base ∧ other.baseHash? name = other.ownHash? base := by
  rcases derives with ⟨binding, found, declared, bound⟩
  rcases parallel.describes_class found with
    ⟨_, _, hash, hash', _, _, based, based', recorded, recorded'⟩
  have bound' : (second.findClass? base).isSome = true :=
    (parallel.differ.findClass?_eq base).symm ▸ bound
  rcases (baseHash_eq_ok_iff declared bound).mp based with ⟨hashes, above, rfl⟩
  rcases (baseHash_eq_ok_iff declared bound').mp based' with ⟨hashes', above', rfl⟩
  rw [baseHash?, ownHash?, baseHash?, ownHash?, recorded, recorded', above, above']
  exact ⟨rfl, rfl⟩

theorem hashes_ne_of_base {base : QualifiedName} (derives : first.Derives name base)
    (changed : known.ownHash? base ≠ other.ownHash? base) :
    known.ownHash? name ≠ other.ownHash? name ∧ known.baseHash? name ≠ other.baseHash? name := by
  rcases parallel.baseHash?_eq_of_derives derives with ⟨one, two⟩
  have bases : known.baseHash? name ≠ other.baseHash? name := by rwa [one, two]
  rcases derives with ⟨binding, found, _⟩
  exact ⟨fun same => bases (parallel.hashes_eq_of_own free found same).1, bases⟩

/-- The change goes down from a base class to the classes that derive from it. -/
theorem hashes_ne_of_derives {base : QualifiedName} (derives : TransGen first.Derives name base)
    (changed : known.ownHash? base ≠ other.ownHash? base) :
    known.ownHash? name ≠ other.ownHash? name ∧ known.baseHash? name ≠ other.baseHash? name := by
  induction derives using TransGen.head_induction_on with
  | single step => exact parallel.hashes_ne_of_base free step changed
  | head step _ ih => exact parallel.hashes_ne_of_base free step ih.1

end Free

/-! ## What stays -/

/-- Hashes taken in the first module of what does not depend on the changed struct are known in the
second.  The induction is on the hashes: a type is hashed with hashes of types that do not depend on
the struct either. -/
theorem spares {early : Fingerprints} (grown : early.Grown first before) :
    (∀ name, ¬ ReflTransGen first.Embeds name struct → ∀ hash,
      early.struct? name = some hash → other.struct? name = some hash) ∧
    ∀ name, (∀ ancestor, ReflTransGen first.Derives name ancestor →
        ¬ first.ClassReaches ancestor struct) →
      ∀ hashes, early.class? name = some hashes → other.class? name = some hashes := by
  induction grown with
  | start => exact ⟨fun _ _ _ => nofun, fun _ _ _ => nofun⟩
  | @ofStruct early binding description _ found described ih =>
    refine ⟨fun name apart hash => ?_, ih.2⟩
    rw [struct?_withStruct]
    split
    · next same =>
      subst same
      rintro ⟨⟩
      have other' : binding.name ≠ struct := fun equal => apart (equal ▸ .refl)
      rcases parallel.describes_struct other' found with
        ⟨_, description', _, described', _, recorded⟩
      have again : other.describeStruct second binding = .ok description :=
        describeStruct_eq_ok_of_agree parallel.differ.isSome_findStruct?_eq (fun inner holds =>
          ih.1 inner fun leads => apart (.head ⟨binding, found, holds⟩ leads)) described
      cases again.symm.trans described'
      exact recorded
    · exact ih.1 name apart hash
  | @ofClass early binding base description _ found based described ih =>
    refine ⟨ih.1, fun name apart hashes => ?_⟩
    rw [class?_withClass]
    split
    · next same =>
      subst same
      rintro ⟨⟩
      rcases parallel.describes_class found with
        ⟨_, description', _, base', _, described', _, based', _, recorded⟩
      have bases : ∀ hash, early.baseHash first binding = .ok hash →
          other.baseHash second binding = .ok hash := fun hash =>
        baseHash_eq_ok_of_agree (fun name => by rw [parallel.differ.findClass?_eq])
          fun base declared bound => ih.2 base fun ancestor derives =>
            apart ancestor (.head ⟨binding, found, declared, bound⟩ derives)
      have again : other.describeClass second binding = .ok description :=
        describeClass_eq_ok_of_agree parallel.differ.isSome_findStruct?_eq (fun inner holds =>
          ih.1 inner fun leads => apart _ .refl ⟨binding, found, inner, holds, leads⟩)
          bases described
      cases again.symm.trans described'
      cases (bases base based).symm.trans based'
      exact recorded
    · exact ih.2 name apart hashes

/-- What does not depend on the changed struct has the same hashes. -/
theorem sparesAll (grown : known.Grown first before) : first.Spares second struct known other where
  structs := by
    intro name apart
    cases recorded : known.struct? name with
    | some hash => exact ((parallel.spares grown).1 name apart hash recorded).symm
    | none =>
      cases recorded' : other.struct? name with
      | none => rfl
      | some hash =>
        rcases parallel.settled'.structs recorded' with ⟨binding, _, found, _⟩
        have bound := parallel.differ.isSome_findStruct?_eq name ▸ Option.isSome_of_eq_some found
        exact absurd recorded (Option.ne_none_iff_isSome.mpr (parallel.structs name bound).1)
  classes := by
    intro name apart
    cases recorded : known.class? name with
    | some hashes => exact ((parallel.spares grown).2 name apart hashes recorded).symm
    | none =>
      cases recorded' : other.class? name with
      | none => rfl
      | some hashes =>
        rcases parallel.settled'.classes recorded' with ⟨binding, _, found, _⟩
        rw [parallel.differ.findClass?_eq] at found
        have bound := (parallel.classes name (Option.isSome_of_eq_some found)).1
        exact absurd recorded (Option.ne_none_iff_isSome.mpr bound)
  enums := by rw [parallel.differ.enums_eq]

end Parallel

end Fingerprints

namespace Progress

variable {bindings : Bindings} {progress next : Progress} {name : QualifiedName}

theorem hashStruct_of_processStruct (run : progress.processStruct bindings name = .ok next) :
    next.draft.source = progress.draft.source ∧
      Fingerprints.hashStruct bindings progress.known name = .ok next.known := by
  rcases processStruct_eq_ok run with ⟨_, _, binding, found, changes, hash, added⟩
  refine ⟨changes.source_eq, ?_⟩
  unfold Fingerprints.hashStruct bound
  rw [found]
  exact bind_eq_ok_iff.mpr ⟨binding, rfl, bind_eq_ok_iff.mpr ⟨_, added, rfl⟩⟩

theorem hashClass_of_processClass (run : progress.processClass bindings name = .ok next) :
    next.draft.source = progress.draft.source ∧
      Fingerprints.hashClass bindings progress.draft.source progress.known name =
        .ok next.known := by
  rcases processClass_eq_ok run with ⟨_, _, binding, found, changes, hash, added⟩
  refine ⟨changes.source_eq, ?_⟩
  unfold Fingerprints.hashClass bound
  rw [found]
  exact bind_eq_ok_iff.mpr ⟨binding, rfl, bind_eq_ok_iff.mpr ⟨_, added, rfl⟩⟩

end Progress

namespace Bindings

variable {first second : Bindings} {struct : QualifiedName} {before after : Module}
  {known other : Fingerprints}

theorem parallel_of_fingerprints (differ : first.DifferAt second struct)
    (code : ∀ binding ∈ first.classes,
      binding.constructorCode before = binding.constructorCode after)
    (run : first.fingerprints before = .ok known) (run' : second.fingerprints after = .ok other) :
    Fingerprints.Parallel first second struct before after known other where
  differ := differ
  code := code
  settled := (grown_of_fingerprints run).settled
  settled' := (grown_of_fingerprints run').settled
  structs := fun name bound => ⟨(recorded_of_fingerprints run).1 name bound,
    (recorded_of_fingerprints run').1 name (differ.isSome_findStruct?_eq name ▸ bound)⟩
  classes := fun name bound => ⟨(recorded_of_fingerprints run).2 name bound,
    (recorded_of_fingerprints run').2 name ((differ.findClass?_eq name).symm ▸ bound)⟩

/-- The hashes of a module that is woven are those of its bindings in their orders. -/
theorem fingerprints_of_process {scope : Scope} {progress : Progress}
    (run : scope.process first = .ok progress) :
    first.fingerprints scope.module = .ok progress.known := by
  rcases Scope.exists_stages_of_process run with ⟨structs, classes, _, _, _, stages, rfl⟩
  let same : Progress → Prop := fun progress => progress.draft.source = scope.module
  have start : same { draft := ⟨scope.config, scope.module, scope.module, []⟩ } := rfl
  rcases foldlM_view same start (fun progress name next still step =>
    (Progress.hashStruct_of_processStruct step).imp_left fun kept => kept.trans still)
    stages.first with ⟨middle, hashed⟩
  have classStep : ∀ (progress : Progress) name next, same progress →
      progress.processClass first name = .ok next → same next ∧
        Fingerprints.hashClass first scope.module progress.known name = .ok next.known := by
    intro progress name next still step
    rcases Progress.hashClass_of_processClass step with ⟨kept, hashed⟩
    exact ⟨kept.trans still, still ▸ hashed⟩
  rcases foldlM_view same middle classStep stages.second with ⟨_, hashed'⟩
  unfold fingerprints hashAll
  rw [stages.structsOrdered, ok_bind, stages.classesOrdered, ok_bind]
  exact bind_eq_ok_iff.mpr ⟨_, hashed, hashed'⟩

/-- When one struct of a module changes and the code of constructors does not, all hashes can be taken
before and after in the orders that there are.  Unless two of the hashed texts collide, another hash
of the struct means another hash of every struct and class that has it inside at any remove, and
another own hash and base hash of every class that derives from such a class.  The hashes of all
other types stay. -/
theorem fingerprints_propagate (differ : first.DifferAt second struct)
    (code : ∀ binding ∈ first.classes,
      binding.constructorCode before = binding.constructorCode after) :
    (first.Orderly → ∃ known, first.fingerprints before = .ok known) ∧
    (second.Orderly → ∃ other, second.fingerprints after = .ok other) ∧
    ∀ known other, first.fingerprints before = .ok known → second.fingerprints after = .ok other →
      (∀ name, (first.findStruct? name).isSome = true →
        (known.struct? name).isSome = true ∧ (other.struct? name).isSome = true) ∧
      (∀ name, (first.findClass? name).isSome = true →
        (known.class? name).isSome = true ∧ (other.class? name).isSome = true) ∧
      first.Spares second struct known other ∧
      (Set.InjOn sha256
          {text | text ∈ known.texts first before ∨ text ∈ other.texts second after} →
        known.struct? struct ≠ other.struct? struct → first.Propagates struct known other) := by
  refine ⟨fun orderly => orderly.exists_fingerprints before,
    fun orderly => orderly.exists_fingerprints after, fun known other run run' => ?_⟩
  have parallel := parallel_of_fingerprints differ code run run'
  refine ⟨parallel.structs, parallel.classes, parallel.sparesAll (grown_of_fingerprints run),
    fun free differs => ⟨fun name embeds => ?_, fun name => ?_, fun name base reaches derives => ?_⟩⟩
  · exact parallel.struct?_ne_of_reaches free differs embeds.to_reflTransGen
  · exact parallel.ownHash?_ne_of_reaches free differs
  · exact parallel.hashes_ne_of_derives free derives
      (parallel.ownHash?_ne_of_reaches free differs reaches)

end Bindings

/-! ## A point of a drawing -/

namespace Sketch

def coordinate : MemberBinding :=
  member "X" (.scalar .f32)

/-- Lines join points, a canvas draws along lines, and a board is a canvas.  Points have the given
members. -/
def drawing (point : List MemberBinding) : Bindings := [
  .ofClass board, .ofClass { canvas with members := [] }, .ofStruct line,
  .ofStruct { name := game "Point", nativeName := "Point", type := 5, members := point }]

def pointText (point : List MemberBinding) : Json :=
  typeDescription .structType (game "Point") "Point" (point.map (·.description none)) [] none

def lineText (point : List MemberBinding) : Json :=
  typeDescription .structType (game "Line") "Line"
    (line.members.map (·.description (some (digest (pointText point) [])))) [] none

def canvasText (point : List MemberBinding) : Json :=
  let along := (member "Along" (inPlace "Line")).description (some (digest (lineText point) []))
  typeDescription .classType (game "Canvas") "Canvas" []
    [.object [("name", .string "Draw"), ("flags", .ofNat 0), ("values", .array [along])]] none

def boardText (point : List MemberBinding) : Json :=
  typeDescription .classType (game "Board") "Board" [] [] (some (digest (canvasText point) []))

/-- The hashes in a drawing. -/
def known (point : List MemberBinding) : Fingerprints :=
  let canvasHash := digest (canvasText point) []
  { structs := [(game "Line", digest (lineText point) []),
      (game "Point", digest (pointText point) [])]
    classes := [(game "Board", ⟨digest (boardText point) [], some canvasHash⟩),
      (game "Canvas", ⟨canvasHash, none⟩)] }

def texts (point : List MemberBinding) : List Bytes :=
  [lineText point, pointText point, boardText point, canvasText point].map (preimage · [])

def blank : Module :=
  Module.empty "Sketch"

theorem fingerprints_drawing : (drawing []).fingerprints blank = .ok (known []) ∧
    (drawing [coordinate]).fingerprints blank = .ok (known [coordinate]) := by
  have structs : (drawing []).structOrder = .ok [game "Point", game "Line"] := by cbv
  have structs' : (drawing [coordinate]).structOrder = .ok [game "Point", game "Line"] := by cbv
  have classes : ∀ point, (drawing point).classOrder = .ok [game "Canvas", game "Board"] := by
    intro point
    cbv
  unfold Bindings.fingerprints
  rw [structs, structs', classes, classes, ok_bind, ok_bind, ok_bind, ok_bind]
  exact ⟨rfl, rfl⟩

set_option maxRecDepth 4096 in
/-- No two of the texts have the same hash. -/
theorem nodup_digests : ((texts [] ++ texts [coordinate]).map sha256).Nodup := by
  simp only [texts, pointText, lineText, canvasText, boardText, List.map, preimage_eq, digest_eq]
  decide +kernel

theorem digest_pointText_ne : digest (pointText []) [] ≠ digest (pointText [coordinate]) [] := by
  intro same
  have text : ∀ point, preimage (pointText point) [] ∈ texts point := fun point =>
    List.mem_map_of_mem (List.mem_cons_of_mem _ List.mem_cons_self)
  have equal := List.inj_on_of_nodup_map nodup_digests (List.mem_append_left _ (text []))
    (List.mem_append_right _ (text [coordinate])) (Bytes.toHex_inj same)
  rw [preimage_eq, preimage_eq] at equal
  exact absurd equal (by decide +kernel)

theorem embeds_line : (drawing []).Embeds (game "Line") (game "Point") :=
  ⟨line, rfl, ⟨_, List.mem_cons_self, .array _ _ (.struct _ _ _)⟩, rfl⟩

theorem canvas_reaches : (drawing []).ClassReaches (game "Canvas") (game "Point") :=
  ⟨_, rfl, game "Line", ⟨⟨_, List.mem_cons_self, .struct _ _ _⟩, rfl⟩, .single embeds_line⟩

theorem board_derives : (drawing []).Derives (game "Board") (game "Canvas") :=
  ⟨board, rfl, rfl, rfl⟩

end Sketch

/-- A coordinate of the points shows in the hashes of lines, of the canvas that draws along them, and
of boards. -/
theorem Bindings.fingerprints_propagate_drawing :
    (Sketch.drawing []).DifferAt (Sketch.drawing [Sketch.coordinate]) (Sketch.game "Point") ∧
    (∀ binding ∈ (Sketch.drawing []).classes,
      binding.constructorCode Sketch.blank = binding.constructorCode Sketch.blank) ∧
    ∃ known other, (Sketch.drawing []).fingerprints Sketch.blank = .ok known ∧
      (Sketch.drawing [Sketch.coordinate]).fingerprints Sketch.blank = .ok other ∧
      Set.InjOn sha256 {text | text ∈ known.texts (Sketch.drawing []) Sketch.blank ∨
        text ∈ other.texts (Sketch.drawing [Sketch.coordinate]) Sketch.blank} ∧
      known.struct? (Sketch.game "Point") ≠ other.struct? (Sketch.game "Point") ∧
      known.struct? (Sketch.game "Line") ≠ other.struct? (Sketch.game "Line") ∧
      known.ownHash? (Sketch.game "Canvas") ≠ other.ownHash? (Sketch.game "Canvas") ∧
      known.baseHash? (Sketch.game "Board") ≠ other.baseHash? (Sketch.game "Board") := by
  have differ :
      (Sketch.drawing []).DifferAt (Sketch.drawing [Sketch.coordinate]) (Sketch.game "Point") :=
    ⟨[_, _, _], _, _, [], rfl, rfl, rfl, rfl⟩
  have code : ∀ binding ∈ (Sketch.drawing []).classes,
      binding.constructorCode Sketch.blank = binding.constructorCode Sketch.blank :=
    fun _ _ => rfl
  rcases Sketch.fingerprints_drawing with ⟨run, run'⟩
  have free : Set.InjOn sha256
      {text | text ∈ (Sketch.known []).texts (Sketch.drawing []) Sketch.blank ∨
        text ∈ (Sketch.known [Sketch.coordinate]).texts (Sketch.drawing [Sketch.coordinate])
          Sketch.blank} := by
    intro first one second two same
    exact List.inj_on_of_nodup_map Sketch.nodup_digests (List.mem_append.mpr one)
      (List.mem_append.mpr two) same
  have changed : (Sketch.known []).struct? (Sketch.game "Point") ≠
      (Sketch.known [Sketch.coordinate]).struct? (Sketch.game "Point") :=
    fun same => Sketch.digest_pointText_ne (Option.some.inj same)
  have shows := ((fingerprints_propagate differ code).2.2 _ _ run run').2.2.2 free changed
  exact ⟨differ, code, _, _, run, run', free, changed,
    shows.structs _ (.single Sketch.embeds_line), shows.classes _ Sketch.canvas_reaches,
    (shows.derived _ _ Sketch.canvas_reaches (.single Sketch.board_derives)).2⟩

end NativeWeave
