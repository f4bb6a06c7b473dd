import NativeWeave.Proofs.Category.Hashing

namespace NativeWeave

/-!
# Changes of structs show in the hash

Two runs that end in the same hash have hashed the same declarations: a text tells the hashes of the
structs that its fields depend on, so that the runs go hand in hand from one field to the next.
What one run knows already the other knows, too, since a hash belongs to one declaration, and marks
look like no hash.  Every struct within reach has its declaration among those that are hashed,
although many paths to it end in a mark.
-/

open Remembering

/-! ## Hashes and marks -/

theorem Bytes.not_mem_toHex {c : Char} (other : ∀ digit < 16, hexDigit digit ≠ c) (bytes : Bytes) :
    c ∉ bytes.toHex.toList := by
  rw [toHex, String.toList_ofList]
  intro listed
  rcases List.mem_flatMap.mp listed with ⟨byte, _, digits⟩
  have := byte.toNat_lt
  rcases List.mem_cons.mp digits with high | digits
  · exact other _ (by omega) high.symm
  · exact other _ (by omega) (List.mem_singleton.mp digits).symm

theorem length_sha256 (message : Bytes) : (sha256 message).length = 32 := by
  simp [sha256, Sha256.State.digest, Sha256.wordBytes]

namespace Declaration

variable {declaration : Declaration} {name : QualifiedName}

theorem hash_eq (declaration : Declaration) : declaration.hash = (sha256 declaration.text).toHex :=
  declaredHash_eq declaration.name.full declaration.fields

/-- A hash is made of hexadecimal digits. -/
theorem not_mem_hash (declaration : Declaration) {c : Char}
    (other : ∀ digit < 16, Bytes.hexDigit digit ≠ c) : c ∉ declaration.hash.toList :=
  Bytes.not_mem_toHex other _

theorem nulFree_hash (declaration : Declaration) : NulFree declaration.hash :=
  declaration.not_mem_hash (by decide)

theorem hash_ne_empty (declaration : Declaration) : declaration.hash ≠ "" := by
  have long := length_sha256 declaration.text
  rw [hash_eq]
  cases bytes : sha256 declaration.text with
  | nil =>
    rw [bytes] at long
    cases long
  | cons byte more =>
    intro empty
    have digits := congrArg String.toList empty
    rw [Bytes.toHex, String.toList_ofList] at digits
    cases digits

/-- No hash looks like a mark. -/
theorem hash_ne_cycleMark (declaration : Declaration) (name : QualifiedName) :
    declaration.hash ≠ cycleMark name := by
  intro same
  have colon : ':' ∈ (cycleMark name).toList := by
    rw [cycleMark, String.toList_append]
    exact List.mem_append_left _ (by decide)
  rw [← same] at colon
  exact declaration.not_mem_hash (by decide) colon

end Declaration

namespace Scope

variable {scope other : Scope}

/-! ## Two runs hand in hand -/

section Fields

variable {exposed : List (Field × Except Refusal Category)} {nested : List (Option String)}

theorem map_nested_fieldsWith (long : nested.length = exposed.length) :
    (fieldsWith exposed nested).map (·.nested) = nested := by
  rw [fieldsWith, List.map_map]
  exact List.map_snd_zip (Nat.le_of_eq long)

theorem map_label_fieldsWith (long : nested.length = exposed.length) :
    (fieldsWith exposed nested).map (fun field => (field.name, field.category)) =
      exposed.map exposedLabel := by
  have fields := congrArg (List.map exposedLabel) (List.map_fst_zip (Nat.le_of_eq long.symm))
  rw [List.map_map] at fields
  rw [fieldsWith, List.map_map]
  exact fields

end Fields

/-- Runs that give the same hashes have hashed the same declarations, unless two different
declarations among them have one hash. -/
theorem Hashing.eq_of_hashes_eq {busy busy' : List QualifiedName}
    {items items' : List (Option QualifiedName)} {known after after' : List Declaration}
    {found found' : List (Option String)} (hashing : scope.Hashing busy items known found after)
    (also : other.Hashing busy' items' known found' after') (same : found = found')
    (free : ∀ first ∈ after, ∀ second ∈ after', first.hash = second.hash → first = second) :
    after = after' := by
  induction hashing generalizing busy' items' found' after' with
  | nil =>
    cases also with
    | nil => rfl
    | _ => cases same
  | plain _ ih =>
    cases also with
    | plain rest =>
      injection same with _ tails
      exact ih rest tails free
    | _ => cases same
  | @known _ _ _ known _ _ declaration recorded rest ih =>
    cases also with
    | nil | plain => cases same
    | known _ rest' =>
      injection same with _ tails
      exact ih rest' tails free
    | busy =>
      injection same with heads
      exact absurd (Option.some.inj heads) (declaration.hash_ne_cycleMark _)
    | fresh new _ _ rest' =>
      injection same with heads
      have listed := (mem_of_recorded? recorded).1
      have equal := free _ (rest.subset listed) _ (rest'.subset List.mem_cons_self)
        (Option.some.inj heads)
      rw [equal] at listed
      exact absurd rfl (ne_of_recorded? new _ listed)
  | busy _ _ _ ih =>
    cases also with
    | nil | plain => cases same
    | known =>
      injection same with heads
      exact absurd (Option.some.inj heads).symm (Declaration.hash_ne_cycleMark _ _)
    | busy _ _ rest' =>
      injection same with _ tails
      exact ih rest' tails free
    | fresh =>
      injection same with heads
      exact absurd (Option.some.inj heads).symm (Declaration.hash_ne_cycleMark _ _)
  | fresh new _ inner rest inside behind =>
    cases also with
    | nil | plain => cases same
    | known recorded rest' =>
      injection same with heads
      have listed := (mem_of_recorded? recorded).1
      have equal := free _ (rest.subset List.mem_cons_self) _ (rest'.subset listed)
        (Option.some.inj heads)
      rw [← equal] at listed
      exact absurd rfl (ne_of_recorded? new _ listed)
    | busy =>
      injection same with heads
      exact absurd (Option.some.inj heads) (Declaration.hash_ne_cycleMark _ _)
    | fresh _ _ inner' rest' =>
      injection same with heads tails
      have equal := free _ (rest.subset List.mem_cons_self) _ (rest'.subset List.mem_cons_self)
        (Option.some.inj heads)
      have nested := congrArg (fun declaration => declaration.fields.map (·.nested)) equal
      dsimp only [declaration] at nested
      rw [map_nested_fieldsWith inner.length_exposed,
        map_nested_fieldsWith inner'.length_exposed] at nested
      have middles := inside inner' nested fun first listed second listed' =>
        free first (rest.subset (List.mem_cons_of_mem _ listed)) second
          (rest'.subset (List.mem_cons_of_mem _ listed'))
      rw [← equal, ← middles] at rest'
      exact behind rest' tails free

/-! ## Declarations that can be told from their texts -/

section Plain

variable {name root part : QualifiedName} {busy : List QualifiedName}
  {items : List (Option QualifiedName)} {known after : List Declaration}
  {found : List (Option String)} (plain : scope.Plain)
include plain

/-- Names and labels of exposed fields, and the structs that these depend on, are plain. -/
theorem Plain.exposed {shown : Field × Except Refusal Category}
    (listed : shown ∈ scope.exposed name) :
    NulFree (exposedLabel shown).1 ∧ NulFree (exposedLabel shown).2 ∧
      ∀ part, exposedStruct? shown = some part → part.Plain := by
  unfold Scope.exposed at listed
  split at listed
  · next type resolved =>
    rcases List.mem_filterMap.mp listed with ⟨field, inside, entry⟩
    rcases Option.map_eq_some_iff.mp entry with ⟨attr, _, rfl⟩
    rcases (plain.resolved resolved).fields field (List.mem_of_mem_filter inside) with ⟨named, typed⟩
    cases answer : scope.categoryOf field.type attr.shape with
    | error refusal =>
      exact ⟨named, .append (by decide) (Signature.nulFree_text _ typed), nofun⟩
    | ok category =>
      have readable := plain.categoryOf field.type typed attr.shape category answer
      exact ⟨named, readable.label, readable.dependency⟩
  · cases listed

theorem Plain.structs (depends : some part ∈ scope.structs name) : part.Plain := by
  rcases List.mem_map.mp depends with ⟨shown, listed, on⟩
  exact (plain.exposed listed).2.2 part on

theorem Plain.reaches (named : root.Plain) (path : scope.Reaches root part) : part.Plain := by
  cases path with
  | refl => exact named
  | tail _ refers => exact plain.structs (refers_iff.mp refers)

end Plain

/-- Hashes and marks are texts that can be told from no hash at all. -/
theorem Hashing.readable {busy : List QualifiedName} {items : List (Option QualifiedName)}
    {known after : List Declaration} {found : List (Option String)}
    (hashing : scope.Hashing busy items known found after)
    (plain : ∀ part, some part ∈ items → part.Plain) :
    ∀ text, some text ∈ found → NulFree text ∧ text ≠ "" := by
  induction hashing with
  | nil => exact fun _ => nofun
  | plain _ ih =>
    intro text listed
    rcases List.mem_cons.mp listed with impossible | later
    · cases impossible
    · exact ih (fun part asked => plain part (List.mem_cons_of_mem _ asked)) text later
  | known _ _ ih | fresh _ _ _ _ _ ih =>
    intro text listed
    rcases List.mem_cons.mp listed with ⟨⟨⟩⟩ | later
    · exact ⟨Declaration.nulFree_hash _, Declaration.hash_ne_empty _⟩
    · exact ih (fun part asked => plain part (List.mem_cons_of_mem _ asked)) text later
  | @busy _ name _ _ _ _ _ _ _ ih =>
    intro text listed
    rcases List.mem_cons.mp listed with ⟨⟨⟩⟩ | later
    · refine ⟨.append (by decide) (plain name List.mem_cons_self).nulFree_full, fun empty => ?_⟩
      have letters := congrArg String.toList empty
      rw [cycleMark, String.toList_append] at letters
      cases letters
    · exact ih (fun part asked => plain part (List.mem_cons_of_mem _ asked)) text later

section Root

variable {root part : QualifiedName} {known known' : List Declaration}
  {found found' : List (Option String)}

/-- A hashed declaration is that of a struct within reach, and its text can be read back. -/
theorem Hashing.plain_of_mem (plain : scope.Plain) (named : root.Plain)
    (hashing : scope.Hashing [] [some root] [] found known) {declaration : Declaration}
    (listed : declaration ∈ known) :
    declaration.name.Plain ∧ ∀ field ∈ declaration.fields, field.Plain := by
  refine ⟨?_, fun field member => ?_⟩
  · rcases hashing.reaches declaration listed with impossible | ⟨part, asked, path⟩
    · cases impossible
    · cases List.mem_singleton.mp asked
      exact plain.reaches named path
  · rcases hashing.origin declaration listed with impossible | ⟨_, _, nested, _, inner, fields⟩
    · cases impossible
    rw [fields] at member
    rcases List.mem_map.mp member with ⟨⟨shown, hash⟩, paired, rfl⟩
    rcases List.of_mem_zip paired with ⟨exposed, answered⟩
    rcases plain.exposed exposed with ⟨name, label, _⟩
    have readable := inner.readable fun part => plain.structs
    refine ⟨?_, fun empty => ?_⟩
    · simp only [DeclaredField.parts, List.forall_mem_cons, List.not_mem_nil, false_imp_iff,
        implies_true, and_true]
      refine ⟨name, label, ?_⟩
      cases hash with
      | none => exact List.not_mem_nil
      | some text => exact (readable text answered).1
    · exact (readable "" (empty ▸ answered)).2 rfl

/-- The texts that are hashed for the hash of a declaration. -/
def declarationTexts (scope : Scope) (name : QualifiedName) : Set Bytes :=
  {text | ∃ found known, scope.Hashing [] [some name] [] found known ∧
    ∃ declaration ∈ known, declaration.text = text}

/-- Two hashed declarations with one hash are the same, unless their texts collide. -/
theorem Hashing.eq_of_hash_eq (plain : scope.Plain) (plain' : other.Plain) (named : root.Plain)
    (free : Set.InjOn sha256 (scope.declarationTexts root ∪ other.declarationTexts root))
    (hashing : scope.Hashing [] [some root] [] found known)
    (also : other.Hashing [] [some root] [] found' known') :
    ∀ first ∈ known, ∀ second ∈ known', first.hash = second.hash → first = second := by
  intro first listed second listed' same
  have texts : first.text = second.text :=
    free (.inl ⟨_, _, hashing, first, listed, rfl⟩) (.inr ⟨_, _, also, second, listed', rfl⟩)
      (Bytes.toHex_inj same)
  rcases hashing.plain_of_mem plain named listed with ⟨name, fields⟩
  rcases also.plain_of_mem plain' named listed' with ⟨name', fields'⟩
  rcases declarationText_inj name.nulFree_full name'.nulFree_full fields fields' texts with
    ⟨names, parts⟩
  cases first
  cases second
  rw [Declaration.mk.injEq]
  exact ⟨name.eq_of_full_eq name' names, parts⟩

/-- Every struct within reach has its declaration among those that are hashed, and no other has. -/
theorem Hashing.reaches_iff (hashing : scope.Hashing [] [some root] [] found known) :
    scope.Reaches root part ↔ ∃ declaration ∈ known, declaration.name = part := by
  constructor
  · intro path
    induction path with
    | refl =>
      rcases hashing.covers root List.mem_cons_self with impossible | recorded
      · cases impossible
      · exact recorded
    | tail _ refers ih =>
      rcases ih with ⟨declaration, listed, rfl⟩
      rcases hashing.closed declaration listed with impossible | parts
      · cases impossible
      · rcases parts _ (refers_iff.mp refers) with impossible | recorded
        · cases impossible
        · exact recorded
  · rintro ⟨declaration, listed, rfl⟩
    rcases hashing.reaches declaration listed with impossible | ⟨part, asked, path⟩
    · cases impossible
    · cases List.mem_singleton.mp asked
      exact path

/-- A hashed declaration has the names and labels of the exposed fields. -/
theorem Hashing.labels_eq (hashing : scope.Hashing [] [some root] [] found known)
    {declaration : Declaration} (listed : declaration ∈ known) :
    (scope.exposed declaration.name).map exposedLabel =
      declaration.fields.map fun field => (field.name, field.category) := by
  rcases hashing.origin declaration listed with impossible | ⟨_, _, nested, _, inner, fields⟩
  · cases impossible
  · rw [fields]
    exact (map_label_fieldsWith inner.length_exposed).symm

/-- The hash that a member contributes is that of the declaration of its struct, unless it is a mark
or the struct has a hash of its own. -/
theorem exists_hashing_of_hashOverride? {owner : QualifiedName} {category : Category} {hash : String}
    (depends : category.hashDependency? = some root)
    (told : (scope.hashOverride? owner category {}).1 = some hash) (declared : hash ≠ selfReference) :
    ∃ known, scope.Hashing [] [some root] [] [some hash] known := by
  rw [hashOverride?, depends] at told
  dsimp only at told
  split at told
  · cases told
  split at told
  · cases told
    exact absurd rfl declared
  · have nothing : ({} : Memory).hashes = ([] : List Declaration).map (·.entry) := rfl
    rcases scope.exists_hashing [] root faithful_empty.sound nothing with
      ⟨found, later, known, run, _, _, hashing⟩
    rw [bind_apply_of run] at told
    cases told
    exact ⟨known, hashing⟩

/-- If a member contributes the hash of the same declaration in two scopes, then the structs within
reach of its category are the same, and so are the names and the labels of their exposed fields.  No
name within reach has a NUL character, simple names have no dots, and no two of the hashed texts
collide. -/
theorem reaches_iff_of_hashOverride?_eq (plain : scope.Plain) (plain' : other.Plain)
    (named : root.Plain) {owner : QualifiedName} {category : Category}
    (depends : category.hashDependency? = some root) {hash : String}
    (told : (scope.hashOverride? owner category {}).1 = some hash)
    (told' : (other.hashOverride? owner category {}).1 = some hash)
    (declared : hash ≠ selfReference)
    (free : Set.InjOn sha256 (scope.declarationTexts root ∪ other.declarationTexts root)) :
    (∀ part, scope.Reaches root part ↔ other.Reaches root part) ∧
      ∀ part, scope.Reaches root part →
        (scope.exposed part).map exposedLabel = (other.exposed part).map exposedLabel := by
  rcases exists_hashing_of_hashOverride? depends told declared with ⟨known, hashing⟩
  rcases exists_hashing_of_hashOverride? depends told' declared with ⟨known', also⟩
  obtain rfl : known = known' :=
    hashing.eq_of_hashes_eq also rfl (hashing.eq_of_hash_eq plain plain' named free also)
  refine ⟨fun part => hashing.reaches_iff.trans also.reaches_iff.symm, fun part path => ?_⟩
  rcases hashing.reaches_iff.mp path with ⟨declaration, listed, rfl⟩
  exact (hashing.labels_eq listed).trans (also.labels_eq listed).symm

end Root

end Scope

/-! ## Two structs that refer to each other -/

namespace Sample

/-- Two structs that hold lists of each other, beside other structs. -/
def ringsBeside (others : List TypeDef) : Scope := scope (left :: right :: others)

section Beside

variable {others : List TypeDef} (few : others = [] ∨ others = [point])
include few

theorem reprOf?_beside {struct : TypeDef} (member : struct = left ∨ struct = right) :
    (ringsBeside others).reprOf? struct = some .generic := by
  have own : (ringsBeside others).BindsFields struct := by
    rcases few with rfl | rfl <;> rcases member with rfl | rfl <;> constructor <;> decide
  have resolved : (ringsBeside others).resolve? struct.qualifiedName = some struct := by
    rcases few with rfl | rfl <;> rcases member with rfl | rfl <;> decide
  rcases member with rfl | rfl <;>
    exact own.reprOf?_of_not_mem resolved (Scope.not_mem_flatStructs_of_element resolved
      (List.mem_singleton.mpr rfl) rfl rfl rfl)

theorem exposed_left : (ringsBeside others).exposed left.qualifiedName =
    [(exposed "others" (listOf "Right"), .ok (listCategory "Right"))] := by
  have answer : (ringsBeside others).categoryOf (listOf "Right") {} = .ok (listCategory "Right") :=
    Scope.categoryOf_structList rfl rfl (reprOf?_beside few (.inr rfl))
  rw [← answer]
  rfl

theorem exposed_right : (ringsBeside others).exposed right.qualifiedName =
    [(exposed "others" (listOf "Left"), .ok (listCategory "Left"))] := by
  have answer : (ringsBeside others).categoryOf (listOf "Left") {} = .ok (listCategory "Left") :=
    Scope.categoryOf_structList rfl rfl (reprOf?_beside few (.inl rfl))
  rw [← answer]
  rfl

end Beside

/-- The second struct is hashed while the first one is busy. -/
def rightDeclaration : Declaration :=
  ⟨right.qualifiedName,
    [⟨"others", "list:struct[generic]:Left", some (cycleMark left.qualifiedName)⟩]⟩

def leftDeclaration : Declaration :=
  ⟨left.qualifiedName, [⟨"others", "list:struct[generic]:Right", some rightDeclaration.hash⟩]⟩

section Beside

variable {others : List TypeDef} (few : others = [] ∨ others = [point])
include few

theorem hashing_left : (ringsBeside others).Hashing [] [some left.qualifiedName] []
    [some leftDeclaration.hash] [leftDeclaration, rightDeclaration] := by
  have structsLeft :
      (ringsBeside others).structs left.qualifiedName = [some right.qualifiedName] := by
    rw [Scope.structs, exposed_left few]
    rfl
  have structsRight :
      (ringsBeside others).structs right.qualifiedName = [some left.qualifiedName] := by
    rw [Scope.structs, exposed_right few]
    rfl
  have declared : (ringsBeside others).declaration right.qualifiedName
      [some (cycleMark left.qualifiedName)] = rightDeclaration := by
    rw [Scope.declaration, exposed_right few]
    rfl
  have declared' : (ringsBeside others).declaration left.qualifiedName
      [some rightDeclaration.hash] = leftDeclaration := by
    rw [Scope.declaration, exposed_left few]
    rfl
  rw [← declared', ← declared]
  refine .fresh rfl List.not_mem_nil ?_ .nil
  rw [structsLeft]
  refine .fresh rfl (by decide) ?_ .nil
  rw [structsRight]
  exact .busy rfl (by decide) .nil

theorem declarationTexts_left : (ringsBeside others).declarationTexts left.qualifiedName =
    {leftDeclaration.text, rightDeclaration.text} := by
  ext text
  constructor
  · rintro ⟨found, known, hashing, declaration, listed, rfl⟩
    rw [← ((hashing_left few).unique hashing).2] at listed
    rcases List.mem_cons.mp listed with rfl | later
    · exact .inl rfl
    · exact .inr (congrArg Declaration.text (List.mem_singleton.mp later))
  · rintro (rfl | rfl)
    · exact ⟨_, _, hashing_left few, _, List.mem_cons_self, rfl⟩
    · exact ⟨_, _, hashing_left few, _, List.mem_cons_of_mem _ (List.mem_singleton.mpr rfl), rfl⟩

theorem told_left :
    ((ringsBeside others).hashOverride? ⟨"Game", "Owner"⟩ (listCategory "Left") {}).1 =
      some leftDeclaration.hash := by
  have nothing : ({} : Memory).hashes = ([] : List Declaration).map (·.entry) := rfl
  rcases (ringsBeside others).exists_hashing [] left.qualifiedName Scope.faithful_empty.sound nothing
    with ⟨hash, later, known, run, _, _, hashing⟩
  have apart : left.qualifiedName ≠ ⟨"Game", "Owner"⟩ := by decide
  rw [Scope.hashOverride?_eq rfl rfl apart, run,
    List.singleton_inj.mp ((hashing_left few).unique hashing).1]

theorem plain_ringsBeside : (ringsBeside others).Plain := by
  rcases few with rfl | rfl <;>
    simp +decide [Scope.plain_iff, TypeDef.plain_iff, QualifiedName.plain_iff, ringsBeside, scope,
      Module.empty, Signature.Plain, Signature.PlainAll, left, right, point, struct, exposed, listOf,
      listInterface]

end Beside

theorem nodup_digests : ([leftDeclaration.text, rightDeclaration.text].map sha256).Nodup := by
  decide +kernel

end Sample

namespace Scope

/-- Another struct in the module does not show in the hash, and the structs within reach are the
same. -/
theorem reaches_iff_of_hashOverride?_eq_rings :
    (Sample.ringsBeside []).Plain ∧ (Sample.ringsBeside [Sample.point]).Plain ∧
      Sample.left.qualifiedName.Plain ∧
      (Sample.listCategory "Left").hashDependency? = some Sample.left.qualifiedName ∧
      ((Sample.ringsBeside []).hashOverride? ⟨"Game", "Owner"⟩ (Sample.listCategory "Left") {}).1 =
        some Sample.leftDeclaration.hash ∧
      ((Sample.ringsBeside [Sample.point]).hashOverride? ⟨"Game", "Owner"⟩
        (Sample.listCategory "Left") {}).1 = some Sample.leftDeclaration.hash ∧
      Sample.leftDeclaration.hash ≠ selfReference ∧
      Set.InjOn sha256 ((Sample.ringsBeside []).declarationTexts Sample.left.qualifiedName ∪
        (Sample.ringsBeside [Sample.point]).declarationTexts Sample.left.qualifiedName) ∧
      ∀ part, (Sample.ringsBeside []).Reaches Sample.left.qualifiedName part ↔
        (Sample.ringsBeside [Sample.point]).Reaches Sample.left.qualifiedName part := by
  have plain := Sample.plain_ringsBeside (.inl rfl)
  have plain' := Sample.plain_ringsBeside (.inr rfl)
  have named : Sample.left.qualifiedName.Plain := by
    rw [QualifiedName.plain_iff]
    decide
  have told := Sample.told_left (.inl rfl)
  have told' := Sample.told_left (.inr rfl)
  have declared : Sample.leftDeclaration.hash ≠ selfReference := by
    intro same
    have letter : 's' ∉ Sample.leftDeclaration.hash.toList :=
      Sample.leftDeclaration.not_mem_hash (by decide)
    rw [same] at letter
    exact letter (by decide)
  have free : Set.InjOn sha256
      ((Sample.ringsBeside []).declarationTexts Sample.left.qualifiedName ∪
        (Sample.ringsBeside [Sample.point]).declarationTexts Sample.left.qualifiedName) := by
    rw [Sample.declarationTexts_left (.inl rfl), Sample.declarationTexts_left (.inr rfl),
      Set.union_self]
    intro first one second two same
    exact List.inj_on_of_nodup_map Sample.nodup_digests (by simpa using one) (by simpa using two) same
  exact ⟨plain, plain', named, rfl, told, told', declared, free,
    (reaches_iff_of_hashOverride?_eq plain plain' named rfl told told' declared free).1⟩

end Scope

end NativeWeave
