import NativeWeave.Text.Decimal

namespace NativeWeave

/-!
# Reading configuration files in TOML

A document is a sequence of lines: a key with a value, the header of a table, or the header of one
more table of an array of tables.  The reader builds the tables as it goes, and refuses a document
that defines a key twice or reopens a table that is complete.  Of numbers and dates only the
spelling is checked, since no setting is a number or a date.
-/

/-- How a table came to be, which decides how it may be extended. -/
inductive TableOrigin
  /-- Its own header defined it. -/
  | header
  /-- The header of a table inside it named it. -/
  | implied
  /-- A dotted key named it. -/
  | dotted
deriving DecidableEq, Repr

/-- A value of a document. -/
inductive Toml
  | string (text : String)
  | boolean (value : Bool)
  | number
  /-- A date, a time of day, or both. -/
  | date
  | array (items : List Toml)
  | inlineTable (entries : List (String × Toml))
  | table (origin : TableOrigin) (entries : List (String × Toml))
  | tables (items : List (List (String × Toml)))
deriving Repr

namespace Toml

instance : Inhabited Toml := ⟨.number⟩

/-- The entries of a table. -/
def entries? : Toml → Option (List (String × Toml))
  | inlineTable entries => some entries
  | table _ entries => some entries
  | _ => none

/-- The items of an array. -/
def items? : Toml → Option (List Toml)
  | array items => some items
  | tables items => some (items.map (table .header))
  | _ => none

/-! ## Tables under construction -/

abbrev Entries := List (String × Toml)

/-- The value of a key. -/
def find? (entries : Entries) (key : String) : Option Toml :=
  (entries.find? (·.1 == key)).map (·.2)

/-- Give a key its value, in its old place or at the end. -/
def put (entries : Entries) (key : String) (value : Toml) : Entries :=
  if entries.any (·.1 == key) then
    entries.map fun (name, held) => (name, if name == key then value else held)
  else
    entries ++ [(key, value)]

/-- Change the last table of an array of tables. -/
def changeLast (change : Entries → Option Entries) (items : List Entries) :
    Option (List Entries) := do
  let last ← items.getLast?
  let changed ← change last
  return items.dropLast ++ [changed]

/-- Change the table that a header path leads to.  Tables on the way that do not exist are implied
by the path, and of an array of tables the last one is meant. -/
def changeUnder (change : Entries → Option Entries) :
    (path : List String) → Entries → Option Entries
  | [], entries => change entries
  | key :: path, entries =>
    match find? entries key with
    | none => (changeUnder change path []).map fun inner => put entries key (.table .implied inner)
    | some (.table origin inner) =>
      (changeUnder change path inner).map fun inner => put entries key (.table origin inner)
    | some (.tables items) =>
      (changeLast (changeUnder change path) items).map fun items => put entries key (.tables items)
    | some _ => none

/-- Define a table by its header. -/
def defineTable (key : String) (entries : Entries) : Option Entries :=
  match find? entries key with
  | none => some (put entries key (.table .header []))
  | some (.table .implied inner) => some (put entries key (.table .header inner))
  | some _ => none

/-- Add a table to an array of tables by its header. -/
def defineItem (key : String) (entries : Entries) : Option Entries :=
  match find? entries key with
  | none => some (put entries key (.tables [[]]))
  | some (.tables items) => some (put entries key (.tables (items ++ [[]])))
  | some _ => none

/-- Define a key of the table at hand. -/
def defineKey (key : String) (value : Toml) (entries : Entries) : Option Entries :=
  if entries.any (·.1 == key) then none else some (entries ++ [(key, value)])

/-- Define a dotted key.  The last table that it goes through has to be one that dotted keys made,
and no table with a header of its own may lie on the way. -/
def defineDotted (key : String) (value : Toml) : (path : List String) → Entries → Option Entries
  | [], entries => defineKey key value entries
  | step :: path, entries =>
    match find? entries step with
    | none =>
      (defineDotted key value path []).map fun inner => put entries step (.table .dotted inner)
    | some (.table origin inner) =>
      if origin = .header ∨ (path.isEmpty ∧ origin ≠ .dotted) then
        none
      else
        (defineDotted key value path inner).map fun inner => put entries step (.table origin inner)
    | some (.tables items) =>
      if path.isEmpty then
        none
      else
        (changeLast (defineDotted key value path) items).map fun items =>
          put entries step (.tables items)
    | some _ => none

/-! ## Characters and blanks -/

/-- The rest of the input behind what was read. -/
abbrev Rest := List Char

def isBlank (c : Char) : Bool := c = ' ' || c = '\t'

def skipBlanks (input : Rest) : Rest := input.dropWhile isBlank

/-- A character that text and comments may hold: no control character but the tab. -/
def isPlain (c : Char) : Bool := c = '\t' || (32 ≤ c.toNat && c.toNat ≠ 127)

/-- Skip a comment up to the end of its line. -/
def skipComment : Rest → Option Rest
  | '#' :: rest =>
    match rest.dropWhile isPlain with
    | [] => some []
    | '\n' :: after => some ('\n' :: after)
    | '\r' :: '\n' :: after => some ('\n' :: after)
    | _ => none
  | input => some input

/-- Skip one line break. -/
def newline? : Rest → Option Rest
  | '\n' :: rest => some rest
  | '\r' :: '\n' :: rest => some rest
  | _ => none

/-- Skip blanks, line breaks and comments, as they may stand between the items of an array. -/
def skipLines : (limit : Nat) → Rest → Option Rest
  | 0, input => some input
  | limit + 1, input =>
    match skipBlanks input with
    | '#' :: rest => do
      let rest ← skipComment ('#' :: rest)
      skipLines limit rest
    | rest =>
      match newline? rest with
      | some after => skipLines limit after
      | none => some rest

/-! ## Strings and keys -/

def hexDigit? (c : Char) : Option Nat :=
  if '0' ≤ c ∧ c ≤ '9' then some (c.toNat - 48)
  else if 'a' ≤ c ∧ c ≤ 'f' then some (c.toNat - 87)
  else if 'A' ≤ c ∧ c ≤ 'F' then some (c.toNat - 55)
  else none

/-- The character whose number the first digits spell. -/
def codePoint? (digits : Nat) (input : Rest) : Option (Char × Rest) := do
  let values ← (input.take digits).mapM hexDigit?
  if values.length < digits then none
  let code := values.foldl (16 * · + ·) 0
  if code < 0xD800 ∨ (0xDFFF < code ∧ code < 0x110000) then
    return (Char.ofNat code, input.drop digits)
  else
    none

/-- The character that an escape behind a backslash means. -/
def escape? : Rest → Option (Char × Rest)
  | 'b' :: rest => some ('\x08', rest)
  | 't' :: rest => some ('\t', rest)
  | 'n' :: rest => some ('\n', rest)
  | 'f' :: rest => some ('\x0c', rest)
  | 'r' :: rest => some ('\r', rest)
  | '"' :: rest => some ('"', rest)
  | '\\' :: rest => some ('\\', rest)
  | 'u' :: rest => codePoint? 4 rest
  | 'U' :: rest => codePoint? 8 rest
  | _ => none

/-- Read a string on one line behind its opening double quote. -/
def basic : (limit : Nat) → Rest → Option (List Char × Rest)
  | 0, _ => none
  | limit + 1, input =>
    match input with
    | '"' :: rest => some ([], rest)
    | '\\' :: rest => do
      let (c, rest) ← escape? rest
      let (others, rest) ← basic limit rest
      return (c :: others, rest)
    | c :: rest =>
      if isPlain c then (basic limit rest).map fun (others, rest) => (c :: others, rest) else none
    | [] => none

/-- Read a string on one line behind its opening single quote. -/
def literal? (input : Rest) : Option (List Char × Rest) :=
  let isInner := fun c => isPlain c && c != '\''
  match input.dropWhile isInner with
  | '\'' :: rest => some (input.takeWhile isInner, rest)
  | _ => none

/-- Up to two quotes that belong to the text in front of the three closing ones. -/
def closing? (quote : Char) (input : Rest) : Option (List Char × Rest) :=
  let run := (input.takeWhile (· = quote)).length
  if 3 ≤ run then
    let extra := min (run - 3) 2
    some (List.replicate extra quote, input.drop (extra + 3))
  else
    none

/-- Skip blanks and line breaks.  A carriage return alone is no line break. -/
def skipSpace : Rest → Rest
  | '\r' :: '\n' :: rest => skipSpace rest
  | c :: rest => if isBlank c || c = '\n' then skipSpace rest else c :: rest
  | [] => []

/-- Read a string of several lines behind its opening quotes.  In double quotes a backslash at the
end of a line removes the line break and the blanks behind it. -/
def multiline (quote : Char) : (limit : Nat) → Rest → Option (List Char × Rest)
  | 0, _ => none
  | limit + 1, input =>
    match closing? quote input with
    | some ending => some ending
    | none =>
      let goOn := fun (c : Char) (rest : Rest) =>
        (multiline quote limit rest).map fun (others, rest) => (c :: others, rest)
      match input with
      | '\r' :: '\n' :: rest => goOn '\n' rest
      | '\n' :: rest => goOn '\n' rest
      | '\\' :: rest =>
        if quote = '"' then
          if (newline? (skipBlanks rest)).isSome then
            multiline quote limit (skipSpace rest)
          else do
            let (c, rest) ← escape? rest
            goOn c rest
        else
          goOn '\\' rest
      | c :: rest => if isPlain c then goOn c rest else none
      | [] => none

/-- Skip the line break that may follow the opening quotes. -/
def skipFirstNewline (input : Rest) : Rest :=
  (newline? input).getD input

/-- Read a string of any of the four kinds. -/
def string? : Rest → Option (List Char × Rest)
  | '"' :: '"' :: '"' :: rest => multiline '"' (rest.length + 1) (skipFirstNewline rest)
  | '\'' :: '\'' :: '\'' :: rest => multiline '\'' (rest.length + 1) (skipFirstNewline rest)
  | '"' :: rest => basic (rest.length + 1) rest
  | '\'' :: rest => literal? rest
  | _ => none

def isBare (c : Char) : Bool := c.isAlphanum || c = '_' || c = '-'

/-- One part of a dotted key. -/
def simpleKey? : Rest → Option (String × Rest)
  | '"' :: rest => (basic (rest.length + 1) rest).map fun (key, rest) => (String.ofList key, rest)
  | '\'' :: rest => (literal? rest).map fun (key, rest) => (String.ofList key, rest)
  | input =>
    let key := input.takeWhile isBare
    if key.isEmpty then none else some (String.ofList key, input.dropWhile isBare)

/-- How deep arrays and inline tables may nest, and how many parts a key may have. -/
def maxNesting : Nat := 79

/-- A key of at most `limit` parts with dots between them, and blanks around the dots. -/
def keyParts? : (limit : Nat) → Rest → Option (List String × Rest)
  | 0, _ => none
  | limit + 1, input => do
    let (part, rest) ← simpleKey? (skipBlanks input)
    match skipBlanks rest with
    | '.' :: more =>
      let (parts, rest) ← keyParts? limit more
      return (part :: parts, rest)
    | rest => return ([part], rest)

/-- A key. -/
def key? (input : Rest) : Option (List String × Rest) :=
  keyParts? maxNesting input

/-! ## Numbers and dates -/

/-- Digits with single underscores between them. -/
def digitsOk (isDigit : Char → Bool) : (token : List Char) → Bool
  | [] => false
  | [c] => isDigit c
  | c :: '_' :: rest => isDigit c && digitsOk isDigit rest
  | c :: next :: rest => isDigit c && digitsOk isDigit (next :: rest)

/-- The number that digits spell, underscores left out. -/
def valueOf (base : Nat) (token : List Char) : Nat :=
  (token.filterMap hexDigit?).foldl (base * · + ·) 0

/-- Decimal digits without a leading zero. -/
def wholeOk (token : List Char) : Bool :=
  token = ['0'] || (digitsOk (·.isDigit) token && token.head? != some '0')

def unsigned (token : List Char) : List Char :=
  match token with
  | '+' :: rest => rest
  | '-' :: rest => rest
  | _ => token

/-- One more than the largest integer. -/
def integerLimit : Nat := 9223372036854775808

/-- An integer that fits into 64 bits with its sign. -/
def isInteger (token : List Char) : Bool :=
  match token with
  | '0' :: 'x' :: rest =>
    digitsOk (fun c => (hexDigit? c).isSome) rest && valueOf 16 rest < integerLimit
  | '0' :: 'o' :: rest =>
    digitsOk (fun c => '0' ≤ c && c ≤ '7') rest && valueOf 8 rest < integerLimit
  | '0' :: 'b' :: rest =>
    digitsOk (fun c => c = '0' || c = '1') rest && valueOf 2 rest < integerLimit
  | _ =>
    let limit := if token.head? = some '-' then integerLimit + 1 else integerLimit
    wholeOk (unsigned token) && valueOf 10 (unsigned token) < limit

def exponentOk (token : List Char) : Bool :=
  digitsOk (·.isDigit) (unsigned token)

def exponentValue (token : List Char) : Int :=
  let size : Int := valueOf 10 (unsigned token)
  if token.head? = some '-' then -size else size

/-- The number `count · 10 ^ power` rounds to a finite one of double precision: it lies below the
middle between the largest such number and the power of two behind it.  Powers of ten that are far
off need no exact comparison. -/
def isFinite (count : Nat) (power : Int) : Bool :=
  let places : Int := (Nat.toDigits 10 count).length + power
  if count = 0 ∨ places ≤ 308 then true
  else if 310 ≤ places then false
  else
    count * Decimal.tenTo power.toNat
      < (Decimal.twoTo 1024 - Decimal.twoTo 970) * Decimal.tenTo (-power).toNat

/-- A number with a fraction, an exponent or both, or one of the special words.  A number without a
minus sign must not be too large to be finite. -/
def isFloat (token : List Char) : Bool :=
  let body := unsigned token
  let isExponent := fun c => c = 'e' || c = 'E'
  let whole := body.takeWhile fun c => c != '.' && !isExponent c
  let hasPoint := (body.drop whole.length).head? = some '.'
  let fraction :=
    if hasPoint then (body.drop (whole.length + 1)).takeWhile (!isExponent ·) else []
  let exponent := body.dropWhile (!isExponent ·)
  if hasPoint || !exponent.isEmpty then
    let digits := (whole ++ fraction).filter (·.isDigit)
    let power := exponentValue (exponent.drop 1) - (fraction.filter (·.isDigit)).length
    wholeOk whole && (!hasPoint || digitsOk (·.isDigit) fraction)
      && (exponent.isEmpty || exponentOk (exponent.drop 1))
      && (token.head? = some '-' || isFinite (valueOf 10 digits) power)
  else
    body = "inf".toList || body = "nan".toList

/-- A number of exactly so many digits between two bounds. -/
def fieldOk (digits low high : Nat) (token : List Char) : Bool :=
  token.length = digits && token.all (·.isDigit) && low ≤ valueOf 10 token
    && valueOf 10 token ≤ high

def daysIn (year month : Nat) : Nat :=
  if month = 2 then
    if year % 4 = 0 ∧ (year % 100 ≠ 0 ∨ year % 400 = 0) then 29 else 28
  else if month = 4 ∨ month = 6 ∨ month = 9 ∨ month = 11 then 30
  else 31

def isDate (token : List Char) : Bool :=
  let year := token.take 4
  let month := (token.drop 5).take 2
  fieldOk 4 0 9999 year && token[4]? = some '-' && fieldOk 2 1 12 month && token[7]? = some '-'
    && fieldOk 2 1 (daysIn (valueOf 10 year) (valueOf 10 month)) (token.drop 8)

def isTime (token : List Char) : Bool :=
  fieldOk 2 0 23 (token.take 2) && token[2]? = some ':'
    && fieldOk 2 0 59 ((token.drop 3).take 2) && token[5]? = some ':'
    && fieldOk 2 0 60 ((token.drop 6).take 2)
    && match token.drop 8 with
      | [] => true
      | '.' :: fraction => !fraction.isEmpty && fraction.all (·.isDigit)
      | _ => false

/-- The distance from universal time that may stand behind a date and a time. -/
def isOffset (token : List Char) : Bool :=
  match token with
  | [] => true
  | [c] => c = 'Z' || c = 'z'
  | c :: rest =>
    (c = '+' || c = '-') && fieldOk 2 0 23 (rest.take 2) && rest[2]? = some ':'
      && fieldOk 2 0 59 (rest.drop 3)

def isDateTime (token : List Char) : Bool :=
  if isDate (token.take 10) then
    match token.drop 10 with
    | [] => true
    | c :: rest =>
      let time := rest.takeWhile fun c => c.isDigit || c = ':' || c = '.'
      (c = 'T' || c = 't' || c = ' ') && isTime time && isOffset (rest.drop time.length)
  else
    isTime token

/-- Read a number or a date.  A blank belongs to it where it parts a date from a time. -/
def scalar? (input : Rest) : Option (Toml × Rest) :=
  let isInner := fun c => c.isAlphanum || c = '_' || c = '+' || c = '-' || c = '.' || c = ':'
  let token := input.takeWhile isInner
  let rest := input.drop token.length
  let longer := match rest with
    | ' ' :: c :: more =>
      if isDate token && c.isDigit then token ++ ' ' :: (c :: more).takeWhile isInner else token
    | _ => token
  let rest := input.drop longer.length
  if isInteger longer || isFloat longer then some (.number, rest)
  else if isDateTime longer then some (.date, rest)
  else none

/-! ## Values and documents -/

/-- The characters behind an expected word. -/
def word? : (word : List Char) → Rest → Option Rest
  | [], rest => some rest
  | c :: word, d :: rest => if c = d then word? word rest else none
  | _ :: _, [] => none

/-- Read the items of an array behind its bracket; a comma may follow the last one. -/
def arrayItems (value : Rest → Option (Toml × Rest)) : (limit : Nat) → Rest →
    Option (List Toml × Rest)
  | 0, _ => none
  | limit + 1, input => do
    match ← skipLines input.length input with
    | ']' :: rest => return ([], rest)
    | start =>
      let (item, rest) ← value start
      match ← skipLines rest.length rest with
      | ',' :: more =>
        let (items, rest) ← arrayItems value limit more
        return (item :: items, rest)
      | ']' :: rest => return ([item], rest)
      | _ => none

/-- Read a key, the equals sign and a value, with blanks around the sign. -/
def keyValue? (value : Rest → Option (Toml × Rest)) (input : Rest) :
    Option ((List String × Toml) × Rest) := do
  let (key, rest) ← key? input
  let '=' :: rest := skipBlanks rest | none
  let (value, rest) ← value (skipBlanks rest)
  return ((key, value), rest)

/-- Define a dotted key in a table. -/
def define (key : List String) (value : Toml) (entries : Entries) : Option Entries := do
  let last ← key.getLast?
  defineDotted last value key.dropLast entries

/-- Read the entries of an inline table behind its brace; none may be missing behind a comma. -/
def inlineEntries (value : Rest → Option (Toml × Rest)) : (limit : Nat) → Rest → Entries →
    Option (Entries × Rest)
  | 0, _, _ => none
  | limit + 1, input, entries => do
    let ((key, held), rest) ← keyValue? value input
    let entries ← define key held entries
    match skipBlanks rest with
    | ',' :: more => inlineEntries value limit more entries
    | '\x7d' :: rest => return (entries, rest)
    | _ => none

/-- Read a value that is no array and no inline table. -/
def simpleValue? (input : Rest) : Option (Toml × Rest) :=
  match input with
  | '"' :: _ | '\'' :: _ =>
    (string? input).map fun (text, rest) => (.string (String.ofList text), rest)
  | 't' :: _ => (word? "true".toList input).map (.boolean true, ·)
  | 'f' :: _ => (word? "false".toList input).map (.boolean false, ·)
  | _ => scalar? input

/-- Read a value in which arrays and inline tables nest at most `depth` levels deep. -/
def value? : (depth : Nat) → Rest → Option (Toml × Rest)
  | 0, input => simpleValue? input
  | depth + 1, input =>
    match input with
    | '[' :: rest =>
      (arrayItems (value? depth) (rest.length + 1) rest).map fun (items, rest) =>
        (.array items, rest)
    | '\x7b' :: rest =>
      match skipBlanks rest with
      | '\x7d' :: rest => some (.inlineTable [], rest)
      | start =>
        (inlineEntries (value? depth) (start.length + 1) start []).map fun (entries, rest) =>
          (.inlineTable entries, rest)
    | _ => simpleValue? input

/-- A document as far as it has been read: all its tables, and the path of the current one. -/
structure Document where
  entries : Entries := []
  current : List String := []

/-- Read the rest of a line, which may hold blanks and a comment. -/
def endLine? (input : Rest) : Option Rest := do
  match ← skipComment (skipBlanks input) with
  | [] => return []
  | rest => newline? rest

/-- Read one line of a document. -/
def line? (document : Document) (input : Rest) : Option (Document × Rest) :=
  match skipBlanks input with
  | '[' :: '[' :: rest => do
    let (key, rest) ← key? rest
    let ']' :: ']' :: rest := rest | none
    let last ← key.getLast?
    let entries ← changeUnder (defineItem last) key.dropLast document.entries
    let rest ← endLine? rest
    return ({ entries, current := key }, rest)
  | '[' :: rest => do
    let (key, rest) ← key? rest
    let ']' :: rest := rest | none
    let last ← key.getLast?
    let entries ← changeUnder (defineTable last) key.dropLast document.entries
    let rest ← endLine? rest
    return ({ entries, current := key }, rest)
  | start =>
    match endLine? start with
    | some rest => some (document, rest)
    | none => do
      let ((key, held), rest) ← keyValue? (value? maxNesting) start
      let entries ← changeUnder (define key held) document.current document.entries
      let rest ← endLine? rest
      return ({ document with entries }, rest)

/-- Read the lines of a document to its end. -/
def readLines : (limit : Nat) → Document → Rest → Option Entries
  | 0, document, _ => some document.entries
  | limit + 1, document, input =>
    if input.isEmpty then
      some document.entries
    else do
      let (document, rest) ← line? document input
      readLines limit document rest

/-- The entries of the top table of a document. -/
def parse? (text : String) : Option Entries :=
  let input := match text.toList with
    | '\uFEFF' :: rest => rest
    | input => input
  readLines (input.length + 1) {} input

end Toml

end NativeWeave
