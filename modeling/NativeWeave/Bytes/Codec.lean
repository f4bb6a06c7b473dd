import NativeWeave.Bytes.Decoder

namespace NativeWeave

/-!
# Formats as pairs of a writer and a reader

A stored item is described once, and the description is both how it is written and how it is
read.  Larger formats are put together from smaller ones, so that the two directions cannot drift
apart: a sequence is a count and its items, an optional item is a presence byte and the item, a
tagged item is a tag byte and the body that belongs to the tag.
-/

/-- A way to write values of a type as bytes, and to read them back. -/
structure Codec (α : Type) where
  encode : α → Bytes
  decode : Decoder α

namespace Codec

variable {α β : Type}

/-- Carry a format along a pair of conversions. -/
def convert (codec : Codec α) (into : α → β) (back : β → α) : Codec β where
  encode value := codec.encode (back value)
  decode := into <$> codec.decode

/-- One item and then another. -/
def and (first : Codec α) (second : Codec β) : Codec (α × β) where
  encode pair := first.encode pair.1 ++ second.encode pair.2
  decode := do
    let left ← first.decode
    let right ← second.decode
    pure (left, right)

/-- A little-endian number of fixed width; higher bytes of a larger number are cut off. -/
def word (width : Nat) : Codec Nat where
  encode := Bytes.littleEndian width
  decode := Decoder.word width

def u8 : Codec UInt8 := (word 1).convert UInt8.ofNat UInt8.toNat
def u16 : Codec UInt16 := (word 2).convert UInt16.ofNat UInt16.toNat
def u32 : Codec UInt32 := (word 4).convert UInt32.ofNat UInt32.toNat
def u64 : Codec UInt64 := (word 8).convert UInt64.ofNat UInt64.toNat
def i32 : Codec Int32 := u32.convert UInt32.toInt32 Int32.toUInt32
def i64 : Codec Int64 := u64.convert UInt64.toInt64 Int64.toUInt64

/-- A truth value in one byte.  Every byte but zero reads as true. -/
def flag : Codec Bool := u8.convert (· != 0) (if · then 1 else 0)

/-- Bytes behind their number. -/
def blob : Codec Bytes where
  encode bytes := (word 4).encode bytes.length ++ bytes
  decode := do
    let count ← (word 4).decode
    Decoder.take count

/-- UTF-8 text behind the number of its bytes.  A fault in the text is reported at its first byte,
and the cursor stays behind the text. -/
def string : Codec String where
  encode text := blob.encode (Bytes.ofString text)
  decode := do
    let count ← (word 4).decode
    let start ← Decoder.offset
    let bytes ← Decoder.take count
    match Bytes.toString? bytes with
    | some text => pure text
    | none => throw (.invalidUtf8 start)

/-- Items behind their number. -/
def list (item : Codec α) : Codec (List α) where
  encode items := (word 4).encode items.length ++ items.flatMap item.encode
  decode := do
    let count ← (word 4).decode
    Decoder.times item.decode count

/-- A presence byte and, when it is not zero, the item. -/
def option (item : Codec α) : Codec (Option α) where
  encode
    | none => [0]
    | some value => 1 :: item.encode value
  decode := do
    if ← flag.decode then
      some <$> item.decode
    else
      pure none

/-- A tag byte and the body that belongs to it.  `body?` gives the reader of the body for every
tag in use; another tag is an error at the offset of the tag byte. -/
def tagged (kind : TagKind) (tag : α → UInt8) (body : α → Bytes)
    (body? : UInt8 → Option (Decoder α)) : Codec α where
  encode value := tag value :: body value
  decode := do
    let start ← Decoder.offset
    let found ← u8.decode
    match body? found with
    | some reader => reader
    | none => throw (.invalidTag kind found start)

/-- A value that is nothing but its tag. -/
def enumeration (kind : TagKind) (tag : α → UInt8) (ofTag? : UInt8 → Option α) : Codec α :=
  tagged kind tag (fun _ => []) fun found => (ofTag? found).map pure

/-- Read a value from the first byte on; bytes behind it are ignored. -/
def parse (codec : Codec α) (bytes : Bytes) : Except DecodeError α :=
  codec.decode.decode bytes

end Codec

end NativeWeave
