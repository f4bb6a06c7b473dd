import NativeWeave.Bytes.Basic

namespace NativeWeave

/-!
# Values of the JavaScript object notation and their texts

Reports and diagnostics are written in this notation, and structural hashes are taken over it.  A
value has a compact text without any spaces and a text spread over lines with an indentation of
two spaces.  Members of an object keep their order.
-/

/-- A value of the notation.  Numbers are kept as they are spelled. -/
inductive Json
  | null
  | bool (value : Bool)
  | number (spelling : String)
  | string (text : String)
  /-- A string literal that holds half of a surrogate pair and therefore spells no text, or an
  object with such a key. -/
  | unpaired
  | array (items : List Json)
  | object (members : List (String × Json))
deriving Repr

namespace Json

instance : Inhabited Json := ⟨.null⟩

def ofNat (value : Nat) : Json :=
  .number (toString value)

def strings (texts : List String) : Json :=
  .array (texts.map .string)

/-- The text, or null when there is none. -/
def ofString? : Option String → Json
  | some text => .string text
  | none => .null

/-- How a character is written inside a string literal: quotes, backslashes and control characters
are escaped, and everything else stands for itself. -/
def escapedChar (c : Char) : List Char :=
  if c = '"' then ['\\', '"']
  else if c = '\\' then ['\\', '\\']
  else if c = '\x08' then ['\\', 'b']
  else if c = '\x0c' then ['\\', 'f']
  else if c = '\n' then ['\\', 'n']
  else if c = '\r' then ['\\', 'r']
  else if c = '\t' then ['\\', 't']
  else if c.toNat < 32 then
    ['\\', 'u', '0', '0', Bytes.hexDigit (c.toNat / 16), Bytes.hexDigit (c.toNat % 16)]
  else [c]

/-- A string literal. -/
def literal (text : String) : String :=
  String.ofList ('"' :: text.toList.flatMap escapedChar ++ ['"'])

mutual

/-- The text of a value without spaces. -/
def compact : Json → String
  | .null | .unpaired => "null"
  | .bool value => if value then "true" else "false"
  | .number spelling => spelling
  | .string text => literal text
  | .array items => "[" ++ ",".intercalate (compactItems items) ++ "]"
  | .object members => "\x7b" ++ ",".intercalate (compactMembers members) ++ "\x7d"

/-- The texts of the items of an array. -/
def compactItems : List Json → List String
  | [] => []
  | item :: more => item.compact :: compactItems more

/-- The texts of the members of an object. -/
def compactMembers : List (String × Json) → List String
  | [] => []
  | (key, value) :: more => (literal key ++ ":" ++ value.compact) :: compactMembers more

end

/-- Put each text on a line of its own between an opening and a closing mark.  Without texts the
marks stand together. -/
def spread (depth : Nat) (opening closing : String) (texts : List String) : String :=
  let margin := fun count => "\n" ++ String.ofList (List.replicate (2 * count) ' ')
  if texts.isEmpty then
    opening ++ closing
  else
    opening ++ ",".intercalate (texts.map (margin (depth + 1) ++ ·)) ++ margin depth ++ closing

mutual

/-- The text of a value at a depth of nesting, spread over lines. -/
def prettyAt (depth : Nat) : Json → String
  | .null | .unpaired => "null"
  | .bool value => if value then "true" else "false"
  | .number spelling => spelling
  | .string text => literal text
  | .array items => spread depth "[" "]" (prettyItems (depth + 1) items)
  | .object members => spread depth "\x7b" "\x7d" (prettyMembers (depth + 1) members)

/-- The texts of the items of an array. -/
def prettyItems (depth : Nat) : List Json → List String
  | [] => []
  | item :: more => item.prettyAt depth :: prettyItems depth more

/-- The texts of the members of an object. -/
def prettyMembers (depth : Nat) : List (String × Json) → List String
  | [] => []
  | (key, value) :: more =>
    (literal key ++ ": " ++ value.prettyAt depth) :: prettyMembers depth more

end

/-- The text of a value spread over lines. -/
def pretty (value : Json) : String :=
  value.prettyAt 0

/-- Put a member where its key belongs in the order of keys. -/
def insertMember (key : String) (value : Json) : List (String × Json) → List (String × Json)
  | [] => [(key, value)]
  | (other, held) :: more =>
    if key < other then (key, value) :: (other, held) :: more
    else (other, held) :: insertMember key value more

mutual

/-- The value with the members of every object in the order of their keys. -/
def sorted : Json → Json
  | .array items => .array (sortedItems items)
  | .object members => .object (sortedMembers members)
  | other => other

/-- Items with sorted objects. -/
def sortedItems : List Json → List Json
  | [] => []
  | item :: more => item.sorted :: sortedItems more

/-- Members in the order of their keys, with sorted values. -/
def sortedMembers : List (String × Json) → List (String × Json)
  | [] => []
  | (key, value) :: more => insertMember key value.sorted (sortedMembers more)

end

end Json

end NativeWeave
