import NativeWeave.Binding.Fingerprint
import NativeWeave.Proofs.Binding.Acyclic
import NativeWeave.Proofs.Extraction.Answers
import NativeWeave.Proofs.Naming
import NativeWeave.Proofs.Text.Json

namespace NativeWeave

/-!
# What hashes are taken over

The hash of a type is the digest of a description that holds the hashes of the structs inside of the
type and of its base class.  The description depends on these hashes only, they can be told from it,
and as long as no two of the hashed texts collide the description can be told from its hash.
-/

/-! ## Digests -/

theorem Bytes.hexDigit_inj : ∀ first < 16, ∀ second < 16,
    hexDigit first = hexDigit second → first = second := by
  decide

theorem Bytes.toHex_inj {first second : Bytes} (same : first.toHex = second.toHex) :
    first = second := by
  have digits := String.ofList_injective same
  clear same
  induction first generalizing second with
  | nil =>
    cases second with
    | nil => rfl
    | cons byte more => cases digits
  | cons byte first ih =>
    cases second with
    | nil => cases digits
    | cons other second =>
      simp only [List.flatMap_cons, List.cons_append, List.nil_append, List.cons.injEq] at digits
      have high := hexDigit_inj _ (Nat.div_lt_of_lt_mul byte.toNat_lt) _
        (Nat.div_lt_of_lt_mul other.toNat_lt) digits.1
      have low := hexDigit_inj _ (Nat.mod_lt _ (by decide)) _ (Nat.mod_lt _ (by decide)) digits.2.1
      have bytes : byte = other := UInt8.toNat_inj.mp (by omega)
      rw [bytes, ih digits.2.2]

theorem Bytes.ofString_eq_flatMap (text : String) :
    ofString text = text.toList.flatMap String.utf8EncodeChar := by
  have bytes := @String.toByteArray_ofList text.toList
  rw [String.ofList_toList] at bytes
  rw [ofString, String.toUTF8_eq_toByteArray, bytes, List.utf8Encode, List.data_toByteArray]

/-- The text that a hash is taken over. -/
def preimage (description : Json) (code : Bytes) : Bytes :=
  Bytes.ofString description.compact ++ code

/-- The text by its characters, which takes fewer steps to evaluate. -/
theorem preimage_eq (description : Json) (code : Bytes) :
    preimage description code = description.chars.flatMap String.utf8EncodeChar ++ code := by
  rw [preimage, Bytes.ofString_eq_flatMap, Json.toList_compact]

theorem digest_eq (description : Json) (code : Bytes) :
    digest description code =
      (sha256 (description.chars.flatMap String.utf8EncodeChar ++ code)).toHex := by
  rw [← preimage_eq]
  rfl

/-- Without a collision, descriptions with the same code behind them have the same hash only if they
are the same. -/
theorem digest_inj {texts : Set Bytes} (free : Set.InjOn sha256 texts) {first second : Json}
    {code : Bytes} (legible : first.Legible) (known : second.Legible)
    (one : preimage first code ∈ texts) (other : preimage second code ∈ texts)
    (same : digest first code = digest second code) : first = second := by
  have text := free one other (Bytes.toHex_inj same)
  exact legible.eq_of_compact_eq known (Bytes.ofString_inj (List.append_cancel_right text))

/-! ## Descriptions -/

namespace MemberBinding

theorem legible_description (member : MemberBinding) (nested : Option String) :
    (member.description nested).Legible := by
  refine .object ?_
  simp only [List.forall_mem_cons]
  refine ⟨.string _, .string _, .string _, .ofNat _, ?_, List.forall_mem_nil _⟩
  cases nested with
  | none => exact .null
  | some hash => exact .string hash

end MemberBinding

theorem Json.ofString?_inj {first second : Option String}
    (same : ofString? first = ofString? second) : first = second := by
  cases first <;> cases second <;> cases same <;> rfl

theorem MemberBinding.description_inj {member : MemberBinding} {first second : Option String}
    (same : member.description first = member.description second) : first = second := by
  simp only [description, Json.object.injEq, List.cons.injEq, Prod.mk.injEq, true_and,
    and_true] at same
  exact Json.ofString?_inj same

theorem legible_typeDescription {kind : NativeTypeKind} {name : QualifiedName} {nativeName : String}
    {members functions : List Json} {base : Option String}
    (each : ∀ member ∈ members, member.Legible) (every : ∀ function ∈ functions, function.Legible) :
    (typeDescription kind name nativeName members functions base).Legible := by
  refine .object ?_
  simp only [List.forall_mem_cons]
  refine ⟨.string _, .string _, .string _, .array each, .array every, ?_, List.forall_mem_nil _⟩
  cases base with
  | none => exact .null
  | some hash => exact .string hash

namespace Fingerprints

variable {known other next : Fingerprints} {first second bindings : Bindings} {module : Module}
  {owner name : QualifiedName}

/-- The description of a struct. -/
def describeStruct (known : Fingerprints) (bindings : Bindings) (binding : StructBinding) :
    Weave Json := do
  let members ← known.members bindings binding.name binding.members
  return typeDescription .structType binding.name binding.nativeName members [] none

/-- The description of a class. -/
def describeClass (known : Fingerprints) (bindings : Bindings) (binding : ClassBinding) :
    Weave Json := do
  let base ← known.baseHash bindings binding
  let functions ← binding.functions.mapM (known.function bindings binding.name)
  let members ← known.members bindings binding.name binding.members
  return typeDescription .classType binding.name binding.nativeName members functions base

theorem legible_members {values : List MemberBinding} {descriptions : List Json}
    (run : known.members bindings owner values = .ok descriptions) :
    ∀ description ∈ descriptions, description.Legible := by
  intro description inside
  rcases exists_of_mem_mapM run inside with ⟨member, _, described⟩
  rcases bind_eq_ok_iff.mp described with ⟨nested, _, final⟩
  cases final
  exact member.legible_description nested

theorem legible_function {function : FunctionBinding} {description : Json}
    (run : known.function bindings owner function = .ok description) : description.Legible := by
  rcases bind_eq_ok_iff.mp run with ⟨values, described, final⟩
  cases final
  refine .object ?_
  simp only [List.forall_mem_cons]
  exact ⟨.string _, .ofNat _, .array (legible_members described), List.forall_mem_nil _⟩

theorem legible_describeStruct {binding : StructBinding} {description : Json}
    (run : known.describeStruct bindings binding = .ok description) : description.Legible := by
  rcases bind_eq_ok_iff.mp run with ⟨members, described, final⟩
  cases final
  exact legible_typeDescription (legible_members described) (List.forall_mem_nil _)

theorem legible_describeClass {binding : ClassBinding} {description : Json}
    (run : known.describeClass bindings binding = .ok description) : description.Legible := by
  rcases bind_eq_ok_iff.mp run with ⟨base, _, run⟩
  rcases bind_eq_ok_iff.mp run with ⟨functions, each, run⟩
  rcases bind_eq_ok_iff.mp run with ⟨members, described, final⟩
  cases final
  refine legible_typeDescription (legible_members described) fun function inside => ?_
  rcases exists_of_mem_mapM each inside with ⟨source, _, described⟩
  exact legible_function described

/-! ## The hashes in descriptions -/

/-- The hash of the annotated struct inside of a member is looked up. -/
theorem nested_eq_ok_iff {member : MemberBinding} {inner : QualifiedName} {nested : Option String}
    (embeds : member.category.Embeds inner) (bound : (bindings.findStruct? inner).isSome = true) :
    known.nested bindings owner member = .ok nested ↔
      ∃ hash, known.struct? inner = some hash ∧ nested = some hash := by
  have inside : (member.category.embedded?.filter fun name => (bindings.findStruct? name).isSome) =
      some inner :=
    Option.filter_eq_some_iff.mpr ⟨Category.embedded?_eq_some_iff.mpr embeds, bound⟩
  rw [Fingerprints.nested, inside]
  dsimp only
  cases recorded : known.struct? inner with
  | none =>
    constructor
    · rintro ⟨⟩
    · rintro ⟨_, ⟨⟩, _⟩
  | some hash =>
    constructor
    · rintro ⟨⟩
      exact ⟨hash, rfl, rfl⟩
    · rintro ⟨_, ⟨rfl⟩, rfl⟩
      rfl

/-- Where no annotated struct is inside of a member, what it carries itself is its hash. -/
theorem nested_eq_override {member : MemberBinding}
    (plain : ∀ inner, member.category.Embeds inner → (bindings.findStruct? inner).isSome = false) :
    known.nested bindings owner member = .ok member.hashOverride := by
  unfold nested
  split
  · rfl
  · next inner inside =>
    rcases Option.filter_eq_some_iff.mp inside with ⟨embeds, bound⟩
    rw [plain inner (Category.embedded?_eq_some_iff.mp embeds)] at bound
    cases bound

/-- The hash of the annotated base class is looked up. -/
theorem baseHash_eq_ok_iff {binding : ClassBinding} {base : QualifiedName} {hash : Option String}
    (declared : binding.base = some base) (bound : (bindings.findClass? base).isSome = true) :
    known.baseHash bindings binding = .ok hash ↔
      ∃ hashes, known.class? base = some hashes ∧ hash = some hashes.own := by
  rw [Fingerprints.baseHash, declared, Option.filter_some, if_pos bound]
  dsimp only
  cases recorded : known.class? base with
  | none =>
    constructor
    · rintro ⟨⟩
    · rintro ⟨_, ⟨⟩, _⟩
  | some hashes =>
    constructor
    · rintro ⟨⟩
      exact ⟨hashes, rfl, rfl⟩
    · rintro ⟨_, ⟨rfl⟩, rfl⟩
      rfl

theorem baseHash_eq_none {binding : ClassBinding}
    (plain : ∀ base ∈ binding.base, (bindings.findClass? base).isSome = false) :
    known.baseHash bindings binding = .ok none := by
  unfold Fingerprints.baseHash
  split
  · rfl
  · next base found =>
    rcases Option.filter_eq_some_iff.mp found with ⟨declared, bound⟩
    rw [plain base declared] at bound
    cases bound

theorem baseHash_eq_ok_of_agree {binding : ClassBinding} {hash : Option String}
    (classes : ∀ name, (first.findClass? name).isSome = (second.findClass? name).isSome)
    (agree : ∀ base ∈ binding.base, (first.findClass? base).isSome = true →
      ∀ hashes, known.class? base = some hashes → other.class? base = some hashes)
    (run : known.baseHash first binding = .ok hash) : other.baseHash second binding = .ok hash := by
  by_cases bound : ∃ base ∈ binding.base, (first.findClass? base).isSome = true
  · rcases bound with ⟨base, declared, bound⟩
    rcases (baseHash_eq_ok_iff declared bound).mp run with ⟨hashes, recorded, rfl⟩
    exact (baseHash_eq_ok_iff declared (classes base ▸ bound)).mpr
      ⟨hashes, agree base declared bound hashes recorded, rfl⟩
  · have plain : ∀ base ∈ binding.base, (first.findClass? base).isSome = false :=
      fun base declared => Bool.eq_false_iff.mpr fun known => bound ⟨base, declared, known⟩
    rw [baseHash_eq_none plain] at run
    rw [baseHash_eq_none fun base declared => classes base ▸ plain base declared]
    exact run

section Agree

variable (same : ∀ name, (first.findStruct? name).isSome = (second.findStruct? name).isSome)
include same

/-- A member has the same description where the same hash is known of what is inside of it. -/
theorem nested_eq_ok_of_agree {member : MemberBinding} {nested : Option String}
    (agree : ∀ inner, member.category.Embeds inner → (first.findStruct? inner).isSome = true →
      ∀ hash, known.struct? inner = some hash → other.struct? inner = some hash)
    (run : known.nested first owner member = .ok nested) :
    other.nested second owner member = .ok nested := by
  by_cases inside : ∃ inner, member.category.Embeds inner ∧ (first.findStruct? inner).isSome = true
  · rcases inside with ⟨inner, embeds, bound⟩
    rcases (nested_eq_ok_iff embeds bound).mp run with ⟨hash, recorded, rfl⟩
    exact (nested_eq_ok_iff embeds (same inner ▸ bound)).mpr
      ⟨hash, agree inner embeds bound hash recorded, rfl⟩
  · have plain : ∀ inner, member.category.Embeds inner →
        (first.findStruct? inner).isSome = false :=
      fun inner embeds => Bool.eq_false_iff.mpr fun bound => inside ⟨inner, embeds, bound⟩
    rw [nested_eq_override plain] at run
    rw [nested_eq_override fun inner embeds => same inner ▸ plain inner embeds]
    exact run

theorem members_eq_ok_of_agree {values : List MemberBinding} {descriptions : List Json}
    (agree : ∀ inner, first.Holds values inner →
      ∀ hash, known.struct? inner = some hash → other.struct? inner = some hash)
    (run : known.members first owner values = .ok descriptions) :
    other.members second owner values = .ok descriptions := by
  refine mapM_eq_ok_of_imp (fun member listed description described => ?_) run
  rcases bind_eq_ok_iff.mp described with ⟨nested, looked, final⟩
  rw [nested_eq_ok_of_agree same (fun inner embeds bound =>
    agree inner ⟨⟨member, listed, embeds⟩, bound⟩) looked, ok_bind]
  exact final

theorem describeStruct_eq_ok_of_agree {binding : StructBinding} {description : Json}
    (agree : ∀ inner, first.Holds binding.members inner →
      ∀ hash, known.struct? inner = some hash → other.struct? inner = some hash)
    (run : known.describeStruct first binding = .ok description) :
    other.describeStruct second binding = .ok description := by
  rcases bind_eq_ok_iff.mp run with ⟨members, described, final⟩
  unfold describeStruct
  rw [members_eq_ok_of_agree same agree described, ok_bind]
  exact final

theorem describeClass_eq_ok_of_agree {binding : ClassBinding} {description : Json}
    (agree : ∀ inner, first.Holds (TypeBinding.ofClass binding).values inner →
      ∀ hash, known.struct? inner = some hash → other.struct? inner = some hash)
    (base : ∀ hash, known.baseHash first binding = .ok hash →
      other.baseHash second binding = .ok hash)
    (run : known.describeClass first binding = .ok description) :
    other.describeClass second binding = .ok description := by
  rcases bind_eq_ok_iff.mp run with ⟨hash, based, run⟩
  rcases bind_eq_ok_iff.mp run with ⟨functions, each, run⟩
  rcases bind_eq_ok_iff.mp run with ⟨members, described, final⟩
  have every : binding.functions.mapM (other.function second binding.name) = .ok functions := by
    refine mapM_eq_ok_of_imp (fun function listed description run => ?_) each
    rcases bind_eq_ok_iff.mp run with ⟨values, described, final⟩
    unfold Fingerprints.function
    rw [members_eq_ok_of_agree same (fun inner holds => agree inner
      ⟨holds.1.imp fun value inside => ⟨List.mem_append_right _
        (List.mem_flatMap.mpr ⟨function, listed, inside.1⟩), inside.2⟩, holds.2⟩) described, ok_bind]
    exact final
  unfold describeClass
  rw [base hash based, ok_bind, every, ok_bind, members_eq_ok_of_agree same (fun inner holds =>
    agree inner ⟨holds.1.imp fun value inside =>
      ⟨List.mem_append_left _ inside.1, inside.2⟩, holds.2⟩) described, ok_bind]
  exact final

end Agree

/-! ## Hashes that are told from descriptions -/

section Told

variable (same : ∀ name, (first.findStruct? name).isSome = (second.findStruct? name).isSome)
  {inner : QualifiedName}
include same

/-- The same descriptions have the same hashes inside. -/
theorem struct?_eq_of_members {values : List MemberBinding} {descriptions : List Json}
    (one : known.members first owner values = .ok descriptions)
    (two : other.members second owner values = .ok descriptions)
    (holds : first.Holds values inner) : known.struct? inner = other.struct? inner := by
  rcases holds with ⟨⟨member, listed, embeds⟩, bound⟩
  rcases exists_common_of_mapM one two member listed with ⟨description, described, again⟩
  rcases bind_eq_ok_iff.mp described with ⟨nested, looked, final⟩
  rcases bind_eq_ok_iff.mp again with ⟨nested', looked', final'⟩
  rcases (nested_eq_ok_iff embeds bound).mp looked with ⟨hash, recorded, rfl⟩
  rcases (nested_eq_ok_iff embeds (same inner ▸ bound)).mp looked' with ⟨hash', recorded', rfl⟩
  cases final
  rw [recorded, recorded']
  exact (MemberBinding.description_inj (Except.ok.inj final')).symm

theorem struct?_eq_of_describeStruct {binding : StructBinding} {description : Json}
    (one : known.describeStruct first binding = .ok description)
    (two : other.describeStruct second binding = .ok description)
    (holds : first.Holds binding.members inner) : known.struct? inner = other.struct? inner := by
  rcases bind_eq_ok_iff.mp one with ⟨members, described, final⟩
  rcases bind_eq_ok_iff.mp two with ⟨members', described', final'⟩
  cases final
  have parts := Except.ok.inj final'
  simp only [typeDescription, Json.object.injEq, List.cons.injEq, Prod.mk.injEq, Json.array.injEq,
    true_and, and_true] at parts
  exact struct?_eq_of_members same described (parts ▸ described') holds

theorem hashes_eq_of_describeClass {binding : ClassBinding} {description : Json}
    (one : known.describeClass first binding = .ok description)
    (two : other.describeClass second binding = .ok description) :
    (∃ hash, known.baseHash first binding = .ok hash ∧ other.baseHash second binding = .ok hash) ∧
      ∀ inner, first.Holds (TypeBinding.ofClass binding).values inner →
        known.struct? inner = other.struct? inner := by
  rcases bind_eq_ok_iff.mp one with ⟨hash, based, one⟩
  rcases bind_eq_ok_iff.mp one with ⟨functions, each, one⟩
  rcases bind_eq_ok_iff.mp one with ⟨members, described, final⟩
  rcases bind_eq_ok_iff.mp two with ⟨hash', based', two⟩
  rcases bind_eq_ok_iff.mp two with ⟨functions', each', two⟩
  rcases bind_eq_ok_iff.mp two with ⟨members', described', final'⟩
  cases final
  have parts := Except.ok.inj final'
  simp only [typeDescription, Json.object.injEq, List.cons.injEq, Prod.mk.injEq, Json.array.injEq,
    true_and, and_true] at parts
  rcases parts with ⟨rfl, rfl, bases⟩
  cases Json.ofString?_inj bases
  refine ⟨⟨hash, based, based'⟩, ?_⟩
  rintro inner ⟨⟨value, listed, embeds⟩, bound⟩
  rcases List.mem_append.mp listed with own | inFunction
  · exact struct?_eq_of_members same described described' ⟨⟨value, own, embeds⟩, bound⟩
  · rcases List.mem_flatMap.mp inFunction with ⟨function, among, inside⟩
    rcases exists_common_of_mapM each each' function among with ⟨text, written, again⟩
    rcases bind_eq_ok_iff.mp written with ⟨values, described, final⟩
    rcases bind_eq_ok_iff.mp again with ⟨values', described', final'⟩
    cases final
    have parts := Except.ok.inj final'
    simp only [Json.object.injEq, List.cons.injEq, Prod.mk.injEq, Json.array.injEq, true_and,
      and_true] at parts
    exact struct?_eq_of_members same described (parts ▸ described') ⟨⟨value, inside, embeds⟩, bound⟩

end Told

/-! ## Descriptions that can be given -/

theorem exists_members {values : List MemberBinding}
    (covered : ∀ inner, bindings.Holds values inner → (known.struct? inner).isSome = true) :
    ∃ descriptions, known.members bindings owner values = .ok descriptions := by
  refine exists_mapM fun member listed => ?_
  have looked : ∃ nested, known.nested bindings owner member = .ok nested := by
    by_cases inside : ∃ inner, member.category.Embeds inner ∧
        (bindings.findStruct? inner).isSome = true
    · rcases inside with ⟨inner, embeds, bound⟩
      rcases Option.isSome_iff_exists.mp (covered inner ⟨⟨member, listed, embeds⟩, bound⟩) with
        ⟨hash, recorded⟩
      exact ⟨some hash, (nested_eq_ok_iff embeds bound).mpr ⟨hash, recorded, rfl⟩⟩
    · exact ⟨_, nested_eq_override fun inner embeds =>
        Bool.eq_false_iff.mpr fun bound => inside ⟨inner, embeds, bound⟩⟩
  rcases looked with ⟨nested, looked⟩
  rw [looked, ok_bind]
  exact ⟨_, rfl⟩

theorem exists_describeStruct {binding : StructBinding}
    (covered : ∀ inner, bindings.Holds binding.members inner →
      (known.struct? inner).isSome = true) :
    ∃ description, known.describeStruct bindings binding = .ok description := by
  rcases @exists_members known bindings binding.name _ covered with ⟨members, described⟩
  unfold describeStruct
  rw [described, ok_bind]
  exact ⟨_, rfl⟩

theorem exists_baseHash {binding : ClassBinding}
    (covered : ∀ base ∈ binding.base, (bindings.findClass? base).isSome = true →
      (known.class? base).isSome = true) :
    ∃ hash, known.baseHash bindings binding = .ok hash := by
  unfold baseHash
  split
  · exact ⟨none, rfl⟩
  · next base found =>
    rcases Option.filter_eq_some_iff.mp found with ⟨declared, bound⟩
    rcases Option.isSome_iff_exists.mp (covered base declared bound) with ⟨hashes, recorded⟩
    rw [recorded]
    exact ⟨some hashes.own, rfl⟩

theorem exists_describeClass {binding : ClassBinding} {hash : Option String}
    (covered : ∀ inner, (bindings.findStruct? inner).isSome = true →
      (known.struct? inner).isSome = true)
    (based : known.baseHash bindings binding = .ok hash) :
    ∃ description, known.describeClass bindings binding = .ok description := by
  have functions : ∃ functions,
      binding.functions.mapM (known.function bindings binding.name) = .ok functions := by
    refine exists_mapM fun function _ => ?_
    rcases @exists_members known bindings binding.name function.values
      (fun inner holds => covered inner holds.2) with ⟨values, described⟩
    unfold Fingerprints.function
    rw [described, ok_bind]
    exact ⟨_, rfl⟩
  rcases functions with ⟨functions, each⟩
  rcases @exists_members known bindings binding.name binding.members
    (fun inner holds => covered inner holds.2) with ⟨members, described⟩
  unfold describeClass
  rw [based, ok_bind, each, ok_bind, described, ok_bind]
  exact ⟨_, rfl⟩

end Fingerprints

end NativeWeave
