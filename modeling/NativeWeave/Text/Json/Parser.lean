import NativeWeave.Text.Json.Basic

namespace NativeWeave

/-!
# Reading the JavaScript object notation

The reader accepts exactly one value with blanks around it.  It accepts string literals that hold
half of a surrogate pair, and leaves it to the user of the value to refuse them where a text is
needed.  Every value takes at least one character, so the number of characters bounds both the
depth and the number of items.
-/

namespace Json

def isBlank (c : Char) : Bool :=
  c = ' ' || c = '\t' || c = '\n' || c = '\r'

def skipBlanks (input : List Char) : List Char :=
  input.dropWhile isBlank

/-- The characters behind an expected word. -/
def expect? : (word : List Char) → List Char → Option (List Char)
  | [], rest => some rest
  | c :: word, d :: rest => if c = d then expect? word rest else none
  | _ :: _, [] => none

def hexValue? (c : Char) : Option Nat :=
  if '0' ≤ c ∧ c ≤ '9' then some (c.toNat - 48)
  else if 'a' ≤ c ∧ c ≤ 'f' then some (c.toNat - 87)
  else if 'A' ≤ c ∧ c ≤ 'F' then some (c.toNat - 55)
  else none

/-- The number that hexadecimal digits spell. -/
def hexNumber? : List Char → Option Nat
  | digits => digits.foldl (fun value c => do
    let high ← value
    let digit ← hexValue? c
    return 16 * high + digit) (some 0)

/-- The sixteen-bit unit that four hexadecimal digits spell. -/
def readUnit? : List Char → Option (Nat × List Char)
  | a :: b :: c :: d :: rest => (hexNumber? [a, b, c, d]).map (·, rest)
  | _ => none

/-- The character that a one-letter escape means. -/
def shortEscape? : Char → Option Char
  | '"' => some '"'
  | '\\' => some '\\'
  | '/' => some '/'
  | 'b' => some '\x08'
  | 'f' => some '\x0c'
  | 'n' => some '\n'
  | 'r' => some '\r'
  | 't' => some '\t'
  | _ => none

def isHighSurrogate (unit : Nat) : Bool := 0xD800 ≤ unit && unit < 0xDC00
def isLowSurrogate (unit : Nat) : Bool := 0xDC00 ≤ unit && unit < 0xE000

/-- Read a string literal behind its opening quote; units of sixteen bits without a partner show up
as `none`. -/
def readUnits : (limit : Nat) → List Char → Option (List (Option Char) × List Char)
  | 0, _ => none
  | limit + 1, input =>
    match input with
    | '"' :: rest => some ([], rest)
    | '\\' :: 'u' :: rest => do
      let (unit, rest) ← readUnit? rest
      if isHighSurrogate unit then
        match rest with
        | '\\' :: 'u' :: after =>
          let (second, afterPair) ← readUnit? after
          if isLowSurrogate second then
            let code := 0x10000 + (unit - 0xD800) * 0x400 + (second - 0xDC00)
            let (others, rest) ← readUnits limit afterPair
            return (some (Char.ofNat code) :: others, rest)
          else
            let (others, rest) ← readUnits limit rest
            return (none :: others, rest)
        | _ =>
          let (others, rest) ← readUnits limit rest
          return (none :: others, rest)
      else
        let (others, rest) ← readUnits limit rest
        return ((if isLowSurrogate unit then none else some (Char.ofNat unit)) :: others, rest)
    | '\\' :: c :: rest => do
      let meant ← shortEscape? c
      let (others, rest) ← readUnits limit rest
      return (some meant :: others, rest)
    | c :: rest =>
      if c.toNat < 32 ∨ c = '\\' then
        none
      else do
        let (others, rest) ← readUnits limit rest
        return (some c :: others, rest)
    | [] => none

/-- Read a string literal behind its opening quote. -/
def readString? (input : List Char) : Option (Json × List Char) := do
  let (units, rest) ← readUnits (input.length + 1) input
  match units.mapM id with
  | some chars => return (.string (String.ofList chars), rest)
  | none => return (.unpaired, rest)

/-- At least one decimal digit, and the characters behind the digits. -/
def readDigits? (input : List Char) : Option (List Char × List Char) :=
  let digits := input.takeWhile (·.isDigit)
  if digits.isEmpty then none else some (digits, input.dropWhile (·.isDigit))

/-- The whole part of a number: a zero, or digits that do not begin with one. -/
def readWhole? : List Char → Option (List Char × List Char)
  | '0' :: rest =>
    if rest.head?.any (·.isDigit) then none else some (['0'], rest)
  | input => readDigits? input

/-- The digits behind a decimal point, if there is one. -/
def readFraction? : List Char → Option (List Char × List Char)
  | '.' :: rest => (readDigits? rest).map fun (digits, after) => ('.' :: digits, after)
  | input => some ([], input)

/-- The exponent, if there is one. -/
def readExponent? : List Char → Option (List Char × List Char)
  | c :: rest =>
    if c = 'e' ∨ c = 'E' then
      match rest with
      | sign :: after =>
        if sign = '+' ∨ sign = '-' then
          (readDigits? after).map fun (digits, after) => (c :: sign :: digits, after)
        else
          (readDigits? rest).map fun (digits, after) => (c :: digits, after)
      | [] => none
    else
      some ([], c :: rest)
  | [] => some ([], [])

/-- A number. -/
def readNumber? (input : List Char) : Option (Json × List Char) := do
  let (sign, rest) := match input with
    | '-' :: rest => (['-'], rest)
    | _ => ([], input)
  let (whole, rest) ← readWhole? rest
  let (fraction, rest) ← readFraction? rest
  let (exponent, rest) ← readExponent? rest
  return (.number (String.ofList (sign ++ whole ++ fraction ++ exponent)), rest)

/-- The text of a string. -/
def text? : Json → Option String
  | string text => some text
  | _ => none

/-- The object with the given members, if every key spells a text. -/
def ofMembers (members : List (Option String × Json)) : Json :=
  match members.mapM fun (key, value) => key.map (·, value) with
  | some named => .object named
  | none => .unpaired

mutual

/-- Read a value that starts with the first character. -/
def readValue : (limit : Nat) → List Char → Option (Json × List Char)
  | 0, _ => none
  | limit + 1, input =>
    match input with
    | '"' :: rest => readString? rest
    | '[' :: rest =>
      match skipBlanks rest with
      | ']' :: after => some (.array [], after)
      | first => (readItems limit first).map fun (items, after) => (.array items, after)
    | '\x7b' :: rest =>
      match skipBlanks rest with
      | '\x7d' :: after => some (.object [], after)
      | first => (readMembers limit first).map fun (members, after) => (ofMembers members, after)
    | 'n' :: _ => (expect? "null".toList input).map (.null, ·)
    | 't' :: _ => (expect? "true".toList input).map (.bool true, ·)
    | 'f' :: _ => (expect? "false".toList input).map (.bool false, ·)
    | _ => readNumber? input

/-- Read the items of an array up to its end. -/
def readItems : (limit : Nat) → List Char → Option (List Json × List Char)
  | 0, _ => none
  | limit + 1, input => do
    let (item, rest) ← readValue limit input
    match skipBlanks rest with
    | ',' :: more =>
      let (items, after) ← readItems limit (skipBlanks more)
      return (item :: items, after)
    | ']' :: after => return ([item], after)
    | _ => none

/-- Read the members of an object up to its end.  A key that spells no text shows up as `none`. -/
def readMembers : (limit : Nat) → List Char →
    Option (List (Option String × Json) × List Char)
  | 0, _ => none
  | limit + 1, input => do
    let '"' :: start := input | none
    let (key, rest) ← readString? start
    let ':' :: rest := skipBlanks rest | none
    let (value, rest) ← readValue limit (skipBlanks rest)
    let member := (key.text?, value)
    match skipBlanks rest with
    | ',' :: more =>
      let (members, after) ← readMembers limit (skipBlanks more)
      return (member :: members, after)
    | '\x7d' :: after => return ([member], after)
    | _ => none

end

/-- Read a text that consists of one value with blanks around it. -/
def parse? (text : String) : Option Json :=
  let input := skipBlanks text.toList
  match readValue (2 * input.length + 2) input with
  | some (value, rest) => if (skipBlanks rest).isEmpty then some value else none
  | none => none

end Json

end NativeWeave
