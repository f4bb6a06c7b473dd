import NativeWeave.Bytes.Basic

namespace NativeWeave

/-!
# Reading bytes from front to back

A decoder moves a cursor over a byte sequence.  It either gives a value and the cursor behind it,
or the cause of its failure and the cursor where it stopped.  Causes carry absolute offsets,
so that a fault inside a large module can be located.
-/

/-- What kind of tagged item a tag byte belongs to. -/
inductive TagKind
  | typeSignature
  | attributeValue
  | attributeType
  | access
  | typeKind
  | memberReference
  | nativeKind
deriving DecidableEq, Repr

/-- The words by which a message names the kind of a tag. -/
def TagKind.label : TagKind → String
  | typeSignature => "type signature"
  | attributeValue => "attribute value"
  | attributeType => "attribute type"
  | access => "access"
  | typeKind => "type kind"
  | memberReference => "member reference"
  | nativeKind => "native kind"

/-- Why bytes could not be decoded.  Offsets count from the first byte of the input. -/
inductive DecodeError
  /-- The input ended before an item that starts at the offset was complete. -/
  | unexpectedEnd (offset : Nat)
  /-- The text that starts at the offset is no UTF-8. -/
  | invalidUtf8 (offset : Nat)
  | invalidOpcode (byte : UInt8) (offset : Nat)
  | invalidTag (kind : TagKind) (tag : UInt8) (offset : Nat)
  /-- The branch at the offset leads to a place that is not the start of an instruction. -/
  | invalidBranchTarget (offset : Nat) (target : Int)
deriving DecidableEq, Repr

/-- Text of a decoding error. -/
def DecodeError.message : DecodeError → String
  | unexpectedEnd offset => s!"Unexpected end of bytecode at offset {offset}"
  | invalidUtf8 offset => s!"Invalid UTF-8 string at offset {offset}"
  | invalidOpcode byte offset =>
    "Invalid opcode 0x" ++ Bytes.toHex [byte] ++ s!" at offset {offset}"
  | invalidTag kind tag offset => s!"Invalid {kind.label} tag {tag} at offset {offset}"
  | invalidBranchTarget offset target =>
    s!"Branch at offset {offset} targets {target}, which is not an instruction boundary"

/-- A place in a byte sequence: how many bytes lie before it, and the bytes from there on. -/
structure Cursor where
  offset : Nat
  rest : Bytes
deriving DecidableEq, Repr

/-- The cursor at the start of the bytes. -/
def Cursor.start (bytes : Bytes) : Cursor := ⟨0, bytes⟩

/-- A reading step: a value and the cursor after it, or a failure and the cursor where it struck. -/
abbrev Decoder := EStateM DecodeError Cursor

namespace Decoder

variable {α : Type}

/-- The value read, or the cause of failure, without the cursor. -/
def outcome : EStateM.Result DecodeError Cursor α → Except DecodeError α
  | .ok value _ => .ok value
  | .error cause _ => .error cause

/-- Decode from the first byte on; bytes after the value are ignored. -/
def decode (decoder : Decoder α) (bytes : Bytes) : Except DecodeError α :=
  outcome (decoder (.start bytes))

/-- The offset of the next byte. -/
def offset : Decoder Nat :=
  fun cursor => .ok cursor.offset cursor

/-- Take exactly `count` bytes.  When there are fewer, the cursor stays. -/
def take (count : Nat) : Decoder Bytes :=
  fun cursor =>
    match Bytes.splitAt? count cursor.rest with
    | some (front, rest) => .ok front ⟨cursor.offset + count, rest⟩
    | none => .error (.unexpectedEnd cursor.offset) cursor

/-- Read a little-endian number of the given width. -/
def word (width : Nat) : Decoder Nat :=
  Bytes.toNat <$> take width

/-- Read one item after another, `count` of them. -/
def times (item : Decoder α) : (count : Nat) → Decoder (List α)
  | 0 => pure []
  | count + 1 => do
    let first ← item
    let others ← times item count
    pure (first :: others)

theorem take_append (front rest : Bytes) (offset : Nat) :
    take front.length ⟨offset, front ++ rest⟩ = .ok front ⟨offset + front.length, rest⟩ := by
  simp [take, Bytes.splitAt?_append]

end Decoder

end NativeWeave
