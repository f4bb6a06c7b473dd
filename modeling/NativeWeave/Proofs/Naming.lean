import NativeWeave.Naming
import NativeWeave.Proofs.Format.Codec

namespace NativeWeave

/-!
# Full names

A full name is compared byte by byte, without building it, and it is split before its last dot.  The
comparison stays inside the given text and tells whether the full name is that text, so attributes
are looked up by the full names of their types.  Splitting gives the name back whose full name it is,
since a simple name has no dots.  Both together let an annotation that was made for a full name be
found under it.
-/

namespace Bytes

theorem ofString_append (first second : String) :
    ofString (first ++ second) = ofString first ++ ofString second := by
  simp [ofString]

/-- Different texts have different bytes. -/
theorem ofString_inj {first second : String} (same : ofString first = ofString second) :
    first = second := by
  have texts := congrArg toString? same
  rw [toString?_ofString, toString?_ofString] at texts
  exact Option.some.inj texts

/-- Bytes that start and end in a given way and have one byte in between. -/
theorem eq_append_of_affixes {bytes front back : Bytes} {middle : UInt8}
    (total : bytes.length = front.length + 1 + back.length) (starts : front <+: bytes)
    (between : bytes[front.length]? = some middle) (ends : back <:+ bytes) :
    bytes = front ++ middle :: back := by
  rcases starts with ⟨rest, rfl⟩
  rw [List.getElem?_append_right (Nat.le_refl _), Nat.sub_self] at between
  cases rest with
  | nil => cases between
  | cons first more =>
    cases between
    rw [List.length_append, List.length_cons] at total
    have long : back.length = more.length := by omega
    have tail : more <:+ front ++ middle :: more :=
      (List.suffix_cons middle more).trans (List.suffix_append front _)
    have within : back <:+ more := List.suffix_of_suffix_length_le ends tail (Nat.le_of_eq long)
    rw [within.eq_of_length long]

/-- What is put together from two sequences and one byte in between starts and ends with them. -/
theorem affixes_of_eq_append {bytes front back : Bytes} {middle : UInt8}
    (whole : bytes = front ++ middle :: back) :
    (bytes.length = front.length + 1 + back.length ∧ front <+: bytes) ∧
      bytes[front.length]? = some middle ∧ back <:+ bytes := by
  subst whole
  refine ⟨⟨?_, List.prefix_append _ _⟩, ?_, ?_⟩
  · rw [List.length_append, List.length_cons]
    omega
  · rw [List.getElem?_append_right (Nat.le_refl _), Nat.sub_self]
    rfl
  · exact (List.suffix_cons _ _).trans (List.suffix_append _ _)

end Bytes

namespace QualifiedName

variable {name : QualifiedName} {text : String}

theorem full_of_isEmpty (bare : name.namespaceName.isEmpty = true) : name.full = name.name := by
  rw [full, if_pos bare]

theorem full_of_not_isEmpty (within : name.namespaceName.isEmpty = false) :
    name.full = name.namespaceName ++ "." ++ name.name := by
  rw [full, if_neg (by simp [within])]

/-- Within a namespace a text is the full name if its bytes are those of the namespace, a dot and
those of the simple name. -/
theorem full_eq_iff (within : name.namespaceName.isEmpty = false) :
    name.full = text ↔ Bytes.ofString text =
      Bytes.ofString name.namespaceName ++ 46 :: Bytes.ofString name.name := by
  have bytes : Bytes.ofString name.full =
      Bytes.ofString name.namespaceName ++ 46 :: Bytes.ofString name.name := by
    rw [full_of_not_isEmpty within, Bytes.ofString_append, Bytes.ofString_append,
      List.append_assoc]
    rfl
  rw [← bytes]
  constructor
  · rintro rfl
    rfl
  · exact fun same => Bytes.ofString_inj same.symm

/-- The comparison with a full name stays inside the text, and it is right. -/
theorem isFull?_eq (name : QualifiedName) (text : String) :
    name.isFull? text = some (name.full == text) := by
  unfold isFull?
  cases within : name.namespaceName.isEmpty with
  | true => rw [if_pos rfl, full_of_isEmpty within]
  | false =>
    rw [if_neg Bool.false_ne_true]
    dsimp only
    split
    case isTrue fits =>
      rw [Bool.and_eq_true, beq_iff_eq, List.isPrefixOf_iff_prefix] at fits
      obtain ⟨total, starts⟩ := fits
      -- The lengths add up, so there is a byte behind the namespace.
      have inside : (Bytes.ofString name.namespaceName).length < (Bytes.ofString text).length := by
        omega
      rw [List.getElem?_eq_getElem inside, Option.map_some, Option.some.injEq, Bool.eq_iff_iff,
        Bool.and_eq_true, beq_iff_eq, beq_iff_eq, List.isSuffixOf_iff_suffix, full_eq_iff within]
      constructor
      · rintro ⟨between, ends⟩
        exact Bytes.eq_append_of_affixes total starts
          (List.getElem?_eq_some_iff.mpr ⟨inside, between⟩) ends
      · intro whole
        obtain ⟨-, between, ends⟩ := Bytes.affixes_of_eq_append whole
        exact ⟨(List.getElem?_eq_some_iff.mp between).2, ends⟩
    case isFalse misfits =>
      rw [Bool.and_eq_true, beq_iff_eq, List.isPrefixOf_iff_prefix] at misfits
      rw [Option.some.injEq, eq_comm, beq_eq_false_iff_ne]
      intro same
      exact misfits (Bytes.affixes_of_eq_append ((full_eq_iff within).mp same)).1

theorem isFull_iff : name.isFull text = true ↔ name.full = text := by
  rw [isFull, isFull?_eq, beq_iff_eq, Option.some.injEq, beq_iff_eq]

/-- The last segment of a text is what follows its last dot. -/
theorem parse_append {space simple : String} (plain : '.' ∉ simple.toList) :
    parse (space ++ "." ++ simple) = ⟨space, simple⟩ := by
  have segment : (((space ++ "." ++ simple).toList.reverse).takeWhile (· != '.')).reverse =
      simple.toList := by
    have reversed : (space ++ "." ++ simple).toList.reverse =
        simple.toList.reverse ++ '.' :: space.toList.reverse := by
      simp
    have all : ∀ char ∈ simple.toList.reverse, (char != '.') = true := by
      intro char member
      rw [bne_iff_ne]
      rintro rfl
      exact plain (List.mem_reverse.mp member)
    rw [reversed, List.takeWhile_append_of_pos all]
    simp
  unfold parse
  rw [segment]
  dsimp only
  have before : (space ++ "." ++ simple).length - simple.toList.length - 1 =
      space.toList.length := by
    simp only [String.length_append, String.length_toList]
    change space.length + 1 + simple.length - simple.length - 1 = space.length
    omega
  rw [before]
  simp

end QualifiedName

namespace Attribute

variable {attr : Attribute} {attributes : List Attribute} {text : String}

/-- The type of the attribute has the full name, and none before it in the list has. -/
def FirstNamed (attributes : List Attribute) (full : String) (attr : Attribute) : Prop :=
  attr.type.full = full ∧ ∃ before after, attributes = before ++ attr :: after ∧
    ∀ other ∈ before, other.type.full ≠ full

theorem isNamed_iff : attr.isNamed text = true ↔ attr.type.full = text :=
  QualifiedName.isFull_iff

theorem find?_eq_some_iff : find? attributes text = some attr ↔ FirstNamed attributes text attr := by
  rw [find?, List.find?_eq_some_iff_append, isNamed_iff]
  simp only [Bool.not_eq_true', Bool.eq_false_iff, ne_eq, isNamed_iff]
  rfl

theorem find?_eq_none_iff :
    find? attributes text = none ↔ ∀ attr ∈ attributes, attr.type.full ≠ text := by
  rw [find?, List.find?_eq_none]
  exact forall₂_congr fun attr _ => not_congr isNamed_iff

/-- An attribute answers to a text exactly if the text is the full name of its type; the comparison
has an answer for every text, since the byte that it looks at lies inside.  So the first attribute of
a full name is found under it, and nothing is found only if no attribute has the name. -/
theorem lookup_by_full (text : String) :
    (∀ attr : Attribute, attr.type.isFull? text = some (attr.type.full == text) ∧
      (attr.isNamed text = true ↔ attr.type.full = text)) ∧
    ∀ attributes : List Attribute,
      (∀ attr, find? attributes text = some attr ↔ FirstNamed attributes text attr) ∧
      (find? attributes text = none ↔ ∀ attr ∈ attributes, attr.type.full ≠ text) := by
  constructor
  · intro attr
    exact ⟨attr.type.isFull?_eq text, isNamed_iff⟩
  · intro attributes
    exact ⟨fun attr => find?_eq_some_iff, find?_eq_none_iff⟩

/-- A name within "ä" and one within "ä.b" may share their full name. -/
example : find? [{ type := ⟨"ä.b", "b.c"⟩ }, { type := ⟨"ä", "b.c"⟩ }, { type := ⟨"ä.b", "c"⟩ }]
    "ä.b.c" = some { type := ⟨"ä", "b.c"⟩ } := by
  decide +kernel

end Attribute

namespace Config

variable {config : Config} {first second : List Attribute} {simple : String}

/-- Annotations that come later have no part in what is found first. -/
theorem findAnnotation?_append_of_isAnnotated (annotated : config.isAnnotated first simple = true) :
    config.findAnnotation? (first ++ second) simple = config.findAnnotation? first simple := by
  rcases Option.isSome_iff_exists.mp annotated with ⟨attr, found⟩
  unfold findAnnotation? Attribute.find? at found ⊢
  rw [List.find?_append, found]
  rfl

/-- An annotation is present exactly if the full name of some attribute's type is that of the
annotation. -/
theorem isAnnotated_iff : config.isAnnotated first simple = true ↔
    ∃ attr ∈ first, attr.type.full = config.annotationName simple := by
  rw [isAnnotated, findAnnotation?, ← Option.ne_none_iff_isSome, ne_eq, Attribute.find?_eq_none_iff]
  simp only [ne_eq, not_forall, not_not, exists_prop]

theorem isAnnotated_append :
    config.isAnnotated (first ++ second) simple =
      (config.isAnnotated first simple || config.isAnnotated second simple) := by
  rw [Bool.eq_iff_iff, Bool.or_eq_true, isAnnotated_iff, isAnnotated_iff, isAnnotated_iff]
  simp only [List.mem_append, or_and_right, exists_or]

/-- An annotation that is made for a simple name is found under it. -/
theorem isAnnotated_parse_annotationName (within : config.attributeNamespace.isEmpty = false)
    (plain : '.' ∉ simple.toList) :
    config.isAnnotated [{ type := QualifiedName.parse (config.annotationName simple) }] simple =
      true := by
  rw [isAnnotated_iff]
  refine ⟨_, List.mem_singleton_self _, ?_⟩
  dsimp only
  rw [annotationName, QualifiedName.parse_append plain, QualifiedName.full_of_not_isEmpty within]

end Config

end NativeWeave
