import Mathlib
import NativeWeave.Text.Json.Parser

namespace NativeWeave

/-!
# Compact texts tell values apart

The compact text of a value is read from its front: the first character tells what kind of value it
is, a string ends with the first quote that is not escaped, items and members end with a comma or
with the closing mark, and a number ends with the first character that is no digit.  Nothing that
follows the text is taken for a part of it, and two values with one text are the same.
-/

/-- In a joined list, every part but the first stands behind a separator. -/
theorem intercalate_singleton_cons {α : Type} (separator : α) (first : List α)
    (more : List (List α)) :
    [separator].intercalate (first :: more) = first ++ more.flatMap (separator :: ·) := by
  induction more generalizing first with
  | nil => rw [List.intercalate_singleton, List.flatMap_nil, List.append_nil]
  | cons second others ih =>
    rw [List.intercalate_cons_cons, ih, List.flatMap_cons, List.append_assoc]
    rfl

namespace Json

/-! ## String literals -/

theorem hexNumber?_hexDigit : ∀ value < 32,
    hexNumber? ['0', '0', Bytes.hexDigit (value / 16), Bytes.hexDigit (value % 16)] =
      some value := by
  decide

/-- The reader takes an escaped character for what it stands for. -/
theorem readUnits_escapedChar (limit : Nat) (c : Char) (rest : List Char) :
    readUnits (limit + 1) (escapedChar c ++ rest) =
      (readUnits limit rest).map fun (others, after) => (some c :: others, after) := by
  rw [Option.map_eq_bind]
  unfold escapedChar
  split_ifs with quote slash back feed line carriage tab control
  · subst quote; rfl
  · subst slash; rfl
  · subst back; rfl
  · subst feed; rfl
  · subst line; rfl
  · subst carriage; rfl
  · subst tab; rfl
  · have unit := hexNumber?_hexDigit c.toNat control
    have plain : isHighSurrogate c.toNat = false ∧ isLowSurrogate c.toNat = false := by
      simp only [isHighSurrogate, isLowSurrogate, Bool.and_eq_false_iff, decide_eq_false_iff_not]
      omega
    simp [readUnits, readUnit?, unit, plain.1, plain.2]
  · rw [List.singleton_append, readUnits, if_neg (not_or.mpr ⟨control, slash⟩)]
    · rfl
    · exact quote
    · exact fun _ escape _ => slash escape
    · exact fun _ _ escape _ => slash escape

/-- The reader ends a string where its literal ends. -/
theorem readUnits_escaped {limit : Nat} {text : List Char} (enough : text.length < limit)
    (rest : List Char) :
    readUnits limit (text.flatMap escapedChar ++ '"' :: rest) = some (text.map some, rest) := by
  induction text generalizing limit with
  | nil =>
    cases limit with
    | zero => cases enough
    | succ limit => rfl
  | cons c text ih =>
    cases limit with
    | zero => cases enough
    | succ limit =>
      rw [List.flatMap_cons, List.append_assoc, readUnits_escapedChar,
        ih (Nat.lt_of_succ_lt_succ enough)]
      rfl

/-- The characters of a string literal. -/
def literalChars (text : String) : List Char :=
  '"' :: (text.toList.flatMap escapedChar ++ ['"'])

theorem toList_literal (text : String) : (literal text).toList = literalChars text :=
  String.toList_ofList

theorem literalChars_append_inj {first second : String} {front back : List Char}
    (same : literalChars first ++ front = literalChars second ++ back) :
    first = second ∧ front = back := by
  simp only [literalChars, List.cons_append, List.append_assoc, List.nil_append,
    List.cons.injEq, true_and] at same
  let limit := first.length + second.length + 1
  have one := @readUnits_escaped limit first.toList
    (by simp only [String.length_toList]; omega) front
  have other := @readUnits_escaped limit second.toList
    (by simp only [String.length_toList]; omega) back
  rw [same, other] at one
  simp only [Option.some.injEq, Prod.mk.injEq] at one
  have texts := List.map_injective_iff.mpr (fun _ _ => Option.some.inj) one.1
  exact ⟨(String.toList_inj.mp texts).symm, one.2.symm⟩

/-! ## Texts one after another -/

/-- What follows does not go on with a number. -/
def Ends (rest : List Char) : Prop :=
  ∀ c ∈ rest.head?, c.isDigit = false

theorem digits_append_inj {digits others front back : List Char}
    (digit : ∀ c ∈ digits, c.isDigit = true) (other : ∀ c ∈ others, c.isDigit = true)
    (ends : Ends front) (ends' : Ends back) (same : digits ++ front = others ++ back) :
    digits = others ∧ front = back := by
  have stops : ∀ {rest : List Char}, Ends rest → rest.takeWhile (·.isDigit) = [] := by
    intro rest ends
    cases rest with
    | nil => rfl
    | cons c more => rw [List.takeWhile_cons, ends c rfl, if_neg Bool.false_ne_true]
  have heads := congrArg (List.takeWhile (·.isDigit)) same
  rw [List.takeWhile_append_of_pos digit, List.takeWhile_append_of_pos other, stops ends,
    stops ends', List.append_nil, List.append_nil] at heads
  exact ⟨heads, List.append_cancel_left (heads ▸ same)⟩

section Listed

variable {Item : Type} {legible : Item → Prop} {text : Item → List Char} {close : Char}
  {items others : List Item} {front back : List Char}

/-- Whatever follows, the text is that of no other item and none of it belongs to what follows. -/
def Apart (legible : Item → Prop) (text : Item → List Char) (item : Item) : Prop :=
  ∀ other, legible other → ∀ front back, Ends front → Ends back →
    text item ++ front = text other ++ back → item = other ∧ front = back

/-- Texts with commas between them, taken apart behind the first one. -/
theorem intercalate_cons_append (first : List Char) (more : List (List Char)) (rest : List Char) :
    [','].intercalate (first :: more) ++ rest = first ++ (more.flatMap (',' :: ·) ++ rest) := by
  rw [intercalate_singleton_cons, List.append_assoc]

variable (closes : close.isDigit = false) (comma : close ≠ ',')
include closes

theorem ends_more (items : List Item) (text : Item → List Char) (front : List Char) :
    Ends ((items.map text).flatMap (',' :: ·) ++ close :: front) := by
  cases items with
  | nil =>
    rintro c ⟨⟩
    exact closes
  | cons item more =>
    rintro c ⟨⟩
    decide

include comma

/-- Items that each come behind a comma are told apart up to the closing mark. -/
theorem more_inj (apart : ∀ item ∈ items, Apart legible text item)
    (known : ∀ other ∈ others, legible other)
    (same : (items.map text).flatMap (',' :: ·) ++ close :: front =
      (others.map text).flatMap (',' :: ·) ++ close :: back) : items = others ∧ front = back := by
  induction items generalizing others with
  | nil =>
    cases others with
    | nil => exact ⟨rfl, List.tail_eq_of_cons_eq same⟩
    | cons other others => exact absurd (List.head_eq_of_cons_eq same) comma
  | cons item items ih =>
    cases others with
    | nil => exact absurd (List.head_eq_of_cons_eq same).symm comma
    | cons other others =>
      rw [List.forall_mem_cons] at apart known
      simp only [List.map_cons, List.flatMap_cons, List.cons_append, List.append_assoc,
        List.cons.injEq, true_and] at same
      rcases apart.1 other known.1 _ _ (ends_more closes _ _ _) (ends_more closes _ _ _) same with
        ⟨rfl, rest⟩
      rcases ih apart.2 known.2 rest with ⟨rfl, after⟩
      exact ⟨rfl, after⟩

/-- Items with commas between them are told apart up to the closing mark, with which no item begins. -/
theorem listed_inj (apart : ∀ item ∈ items, Apart legible text item)
    (mine : ∀ item ∈ items, legible item) (known : ∀ other ∈ others, legible other)
    (opens : ∀ item, legible item → ∃ c more, text item = c :: more ∧ c ≠ close)
    (same : [','].intercalate (items.map text) ++ close :: front =
      [','].intercalate (others.map text) ++ close :: back) : items = others ∧ front = back := by
  have empty : [','].intercalate ([] : List (List Char)) = [] := rfl
  cases items with
  | nil =>
    cases others with
    | nil => exact ⟨rfl, List.tail_eq_of_cons_eq same⟩
    | cons other others =>
      rcases opens other (known other List.mem_cons_self) with ⟨c, more, begins, differs⟩
      rw [List.map_cons, intercalate_cons_append, begins] at same
      exact absurd (List.head_eq_of_cons_eq same).symm differs
  | cons item items =>
    cases others with
    | nil =>
      rcases opens item (mine item List.mem_cons_self) with ⟨c, more, begins, differs⟩
      rw [List.map_cons, intercalate_cons_append, begins] at same
      exact absurd (List.head_eq_of_cons_eq same) differs
    | cons other others =>
      rw [List.forall_mem_cons] at apart known
      rw [List.map_cons, List.map_cons, intercalate_cons_append, intercalate_cons_append] at same
      rcases apart.1 other known.1 _ _ (ends_more closes _ _ _) (ends_more closes _ _ _) same with
        ⟨rfl, rest⟩
      rcases more_inj closes comma apart.2 known.2 rest with ⟨rfl, after⟩
      exact ⟨rfl, after⟩

end Listed

/-! ## Values -/

/-- The value has texts and whole numbers only, so that its compact text is a text of it alone. -/
inductive Legible : Json → Prop
  | null : Legible .null
  | bool (value : Bool) : Legible (.bool value)
  | ofNat (value : Nat) : Legible (.ofNat value)
  | string (text : String) : Legible (.string text)
  | array {items : List Json} (each : ∀ item ∈ items, Legible item) : Legible (.array items)
  | object {members : List (String × Json)} (each : ∀ member ∈ members, Legible member.2) :
    Legible (.object members)

mutual

/-- The characters of the compact text. -/
def chars : Json → List Char
  | .null | .unpaired => ['n', 'u', 'l', 'l']
  | .bool value => if value then ['t', 'r', 'u', 'e'] else ['f', 'a', 'l', 's', 'e']
  | .number spelling => spelling.toList
  | .string text => literalChars text
  | .array items => '[' :: ([','].intercalate (itemChars items) ++ [']'])
  | .object members => '\x7b' :: ([','].intercalate (memberChars members) ++ ['\x7d'])

def itemChars : List Json → List (List Char)
  | [] => []
  | item :: more => item.chars :: itemChars more

def memberChars : List (String × Json) → List (List Char)
  | [] => []
  | (key, value) :: more => (literalChars key ++ ':' :: value.chars) :: memberChars more

end

mutual

theorem toList_compact (value : Json) : value.compact.toList = value.chars := by
  cases value with
  | null => rfl
  | bool value => cases value <;> rfl
  | number spelling => rfl
  | string text => exact toList_literal text
  | unpaired => rfl
  | array items =>
    rw [compact, chars, String.toList_append, String.toList_append, String.toList_intercalate,
      toList_compactItems]
    rfl
  | object members =>
    rw [compact, chars, String.toList_append, String.toList_append, String.toList_intercalate,
      toList_compactMembers]
    rfl

theorem toList_compactItems (items : List Json) :
    (compactItems items).map String.toList = itemChars items := by
  cases items with
  | nil => rfl
  | cons item more =>
    rw [compactItems, itemChars, List.map_cons, toList_compact, toList_compactItems]

theorem toList_compactMembers (members : List (String × Json)) :
    (compactMembers members).map String.toList = memberChars members := by
  cases members with
  | nil => rfl
  | cons member more =>
    rcases member with ⟨key, value⟩
    rw [compactMembers, memberChars, List.map_cons, String.toList_append, String.toList_append,
      toList_literal, List.append_assoc, toList_compact, toList_compactMembers]
    rfl

end

theorem itemChars_eq_map (items : List Json) : itemChars items = items.map chars := by
  induction items with
  | nil => rfl
  | cons item more ih => rw [itemChars, List.map_cons, ih]

/-- The characters of one member. -/
def pairChars (member : String × Json) : List Char :=
  literalChars member.1 ++ ':' :: member.2.chars

theorem memberChars_eq_map (members : List (String × Json)) :
    memberChars members = members.map pairChars := by
  induction members with
  | nil => rfl
  | cons member more ih => rw [memberChars, List.map_cons, ih, pairChars]

theorem chars_ofNat (value : Nat) : (ofNat value).chars = Nat.toDigits 10 value := by
  rw [ofNat, chars]
  exact (congrArg String.toList Nat.repr_eq_ofList_toDigits).trans String.toList_ofList

/-- The kinds of values, numbered. -/
def sort : Json → Nat
  | null => 0
  | bool _ => 1
  | number _ => 2
  | string _ => 3
  | unpaired => 4
  | array _ => 5
  | object _ => 6

/-- The kind of the values whose texts begin with a character. -/
def sortOf (c : Char) : Nat :=
  if c.isDigit then 2
  else if c = 'n' then 0
  else if c = '"' then 3
  else if c = '[' then 5
  else if c = '\x7b' then 6
  else if c = 't' ∨ c = 'f' then 1
  else 4

theorem Legible.begins {value : Json} (legible : Legible value) :
    ∃ c more, value.chars = c :: more ∧ sortOf c = value.sort := by
  cases legible with
  | null => exact ⟨_, _, rfl, rfl⟩
  | bool value => cases value <;> exact ⟨_, _, rfl, rfl⟩
  | string text => exact ⟨_, _, rfl, rfl⟩
  | array => exact ⟨_, _, rfl, rfl⟩
  | object => exact ⟨_, _, rfl, rfl⟩
  | ofNat value =>
    rw [chars_ofNat]
    cases digits : Nat.toDigits 10 value with
    | nil => exact absurd digits Nat.toDigits_ne_nil
    | cons c more =>
      have digit : c.isDigit = true :=
        Nat.isDigit_of_mem_toDigits (by decide) (by decide) (digits ▸ List.mem_cons_self)
      exact ⟨c, more, rfl, if_pos digit⟩

/-- The text of a value tells what kind of value it is. -/
theorem Legible.sort_eq {value other : Json} (legible : Legible value) (known : Legible other)
    {front back : List Char} (same : value.chars ++ front = other.chars ++ back) :
    value.sort = other.sort := by
  rcases legible.begins with ⟨c, more, begins, kind⟩
  rcases known.begins with ⟨d, rest, starts, other⟩
  rw [begins, starts] at same
  rw [← kind, ← other, List.head_eq_of_cons_eq same]

theorem apart_pairChars {member : String × Json} (apart : Apart Legible chars member.2) :
    Apart (fun member => Legible member.2) pairChars member := by
  intro other known front back ends ends' same
  simp only [pairChars, List.append_assoc, List.cons_append] at same
  rcases literalChars_append_inj same with ⟨keys, rest⟩
  rcases apart other.2 known front back ends ends' (List.tail_eq_of_cons_eq rest) with
    ⟨values, after⟩
  exact ⟨Prod.ext keys values, after⟩

/-- The text of an object is told from what follows it, whatever that is. -/
theorem object_append_inj {members others : List (String × Json)} {front back : List Char}
    (apart : ∀ member ∈ members, Apart Legible chars member.2)
    (each : ∀ member ∈ members, member.2.Legible) (known : ∀ other ∈ others, other.2.Legible)
    (same : (object members).chars ++ front = (object others).chars ++ back) :
    members = others ∧ front = back := by
  simp only [chars, memberChars_eq_map, List.cons_append, List.append_assoc, List.nil_append,
    List.cons.injEq, true_and] at same
  have opens : ∀ member : String × Json, Legible member.2 →
      ∃ c more, pairChars member = c :: more ∧ c ≠ '\x7d' := by
    exact fun member _ => ⟨_, _, rfl, by decide⟩
  exact listed_inj rfl (by decide) (fun member inside => apart_pairChars (apart member inside))
    each known opens same

/-- The text of a value is told from the text of every other value and from what follows it.  The
induction follows the value into its items and members. -/
theorem Legible.apart {value : Json} (legible : Legible value) : Apart Legible chars value := by
  induction legible with
  | null =>
    intro other known front back _ _ same
    have kind := Legible.null.sort_eq known same
    cases known <;> cases kind
    exact ⟨rfl, List.append_cancel_left same⟩
  | bool value =>
    intro other known front back _ _ same
    have kind := (Legible.bool value).sort_eq known same
    cases known <;> cases kind
    next other =>
    cases value <;> cases other
    · exact ⟨rfl, List.append_cancel_left same⟩
    · cases same
    · cases same
    · exact ⟨rfl, List.append_cancel_left same⟩
  | ofNat value =>
    intro other known front back ends ends' same
    have kind := (Legible.ofNat value).sort_eq known same
    cases known <;> cases kind
    next other =>
    have digit : ∀ number, ∀ c ∈ Nat.toDigits 10 number, c.isDigit = true :=
      fun _ _ => Nat.isDigit_of_mem_toDigits (by decide) (by decide)
    rw [chars_ofNat, chars_ofNat] at same
    rcases digits_append_inj (digit value) (digit other) ends ends' same with ⟨digits, rest⟩
    have number : value.repr = other.repr := by
      rw [Nat.repr_eq_ofList_toDigits, Nat.repr_eq_ofList_toDigits, digits]
    exact ⟨congrArg Json.ofNat (Nat.repr_inj.mp number), rest⟩
  | string text =>
    intro other known front back _ _ same
    have kind := (Legible.string text).sort_eq known same
    cases known <;> cases kind
    rw [chars, chars] at same
    rcases literalChars_append_inj same with ⟨rfl, rest⟩
    exact ⟨rfl, rest⟩
  | array each apart =>
    intro other known front back _ _ same
    have kind := (Legible.array each).sort_eq known same
    cases known <;> cases kind
    next others known =>
    simp only [chars, itemChars_eq_map, List.cons_append, List.append_assoc, List.nil_append,
      List.cons.injEq, true_and] at same
    have opens : ∀ item, Legible item → ∃ c more, item.chars = c :: more ∧ c ≠ ']' := by
      intro item legible
      rcases legible.begins with ⟨c, more, begins, kind⟩
      refine ⟨c, more, begins, ?_⟩
      rintro rfl
      cases legible <;> cases kind
    rcases listed_inj rfl (by decide) apart each known opens same with ⟨rfl, rest⟩
    exact ⟨rfl, rest⟩
  | object each apart =>
    intro other known front back _ _ same
    have kind := (Legible.object each).sort_eq known same
    cases known <;> cases kind
    next others known =>
    rcases object_append_inj apart each known same with ⟨rfl, rest⟩
    exact ⟨rfl, rest⟩

/-- Values with one compact text are the same. -/
theorem Legible.eq_of_compact_eq {value other : Json} (legible : Legible value)
    (known : Legible other) (same : value.compact = other.compact) : value = other :=
  (legible.apart other known [] [] nofun nofun (by
    rw [← toList_compact, ← toList_compact, same])).1

end Json

end NativeWeave
