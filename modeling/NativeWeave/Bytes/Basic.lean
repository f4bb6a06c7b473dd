namespace NativeWeave

/-!
# Byte sequences and the little-endian words in them

A stored module is a plain sequence of bytes.  Every number in it has a fixed width and is
written with its least significant byte first; text is stored as UTF-8.  The conversions here
are the only place where a number becomes bytes or is read back from them.
-/

/-- A sequence of bytes. -/
abbrev Bytes := List UInt8

namespace Bytes

/-- The `width` low bytes of `value`, least significant first. -/
def littleEndian : (width : Nat) → (value : Nat) → Bytes
  | 0, _ => []
  | width + 1, value => UInt8.ofNat value :: littleEndian width (value / 256)

/-- The number whose bytes, least significant first, are given. -/
def toNat : Bytes → Nat
  | [] => 0
  | byte :: more => byte.toNat + 256 * toNat more

@[simp] theorem length_littleEndian (width value : Nat) :
    (littleEndian width value).length = width := by
  induction width generalizing value with
  | zero => rfl
  | succ width ih => simp [littleEndian, ih]

/-- Reading back the low bytes of a number gives it modulo the width. -/
theorem toNat_littleEndian (width value : Nat) :
    toNat (littleEndian width value) = value % Nat.pow 256 width := by
  induction width generalizing value with
  | zero => exact (Nat.mod_one value).symm
  | succ width ih =>
    have next : Nat.pow 256 (width + 1) = 256 * Nat.pow 256 width := Nat.mul_comm _ _
    rw [littleEndian, toNat, ih, next, Nat.mod_mul]
    simp

/-- The UTF-8 bytes of a text. -/
def ofString (text : String) : Bytes :=
  text.toUTF8.data.toList

/-- The text that the bytes spell, unless they are no valid UTF-8. -/
def toString? (bytes : Bytes) : Option String :=
  String.fromUTF8? ⟨bytes.toArray⟩

/-- The first `count` bytes and the bytes after them; `none` when there are fewer. -/
def splitAt? : (count : Nat) → Bytes → Option (Bytes × Bytes)
  | 0, rest => some ([], rest)
  | _ + 1, [] => none
  | count + 1, byte :: rest =>
    (splitAt? count rest).map fun (front, after) => (byte :: front, after)

theorem splitAt?_append (front rest : Bytes) :
    splitAt? front.length (front ++ rest) = some (front, rest) := by
  induction front with
  | nil => rfl
  | cons byte front ih => simp [splitAt?, ih]

/-- A split cuts its input in two and its first part has the length that was asked for. -/
theorem splitAt?_eq_some {count : Nat} {bytes front rest : Bytes}
    (cut : splitAt? count bytes = some (front, rest)) :
    bytes = front ++ rest ∧ front.length = count := by
  induction count generalizing bytes front with
  | zero => simp_all [splitAt?]
  | succ count ih =>
    cases bytes with
    | nil => simp [splitAt?] at cut
    | cons byte bytes =>
      simp only [splitAt?, Option.map_eq_some_iff, Prod.mk.injEq, Prod.exists] at cut
      obtain ⟨inner, after, split, rfl, rfl⟩ := cut
      obtain ⟨rfl, rfl⟩ := ih split
      simp

/-- Overwrite the bytes from `offset` on with others; they have to lie within the sequence. -/
def overwrite? (bytes : Bytes) (offset : Nat) (replacement : Bytes) : Option Bytes :=
  if offset + replacement.length ≤ bytes.length then
    some (bytes.take offset ++ replacement ++ bytes.drop (offset + replacement.length))
  else
    none

/-- Digit of a hexadecimal numeral, in lower case. -/
def hexDigit (value : Nat) : Char :=
  if value < 10 then Char.ofNat (48 + value) else Char.ofNat (87 + value)

/-- Two lower-case hexadecimal digits per byte. -/
def toHex (bytes : Bytes) : String :=
  String.ofList (bytes.flatMap fun byte => [hexDigit (byte.toNat / 16), hexDigit (byte.toNat % 16)])

end Bytes

/-! ## The cyclic redundancy check of IEEE 802.3

The check word of a byte sequence is the remainder of a polynomial division over the two-element
field, in the reflected form: bits are taken from the least significant end, the register starts
with all ones, and the result is complemented.
-/

namespace Crc32

/-- The generator polynomial with its bits reversed. -/
def polynomial : UInt32 := 0xEDB88320

/-- Shift one bit out of the register, subtracting the generator when it was set. -/
def shiftBit (register : UInt32) : UInt32 :=
  if register &&& 1 = 1 then (register >>> 1) ^^^ polynomial else register >>> 1

/-- Shift `count` bits out of the register. -/
def shiftBits : (count : Nat) → UInt32 → UInt32
  | 0, register => register
  | count + 1, register => shiftBits count (shiftBit register)

/-- Take one byte into the register. -/
def step (register : UInt32) (byte : UInt8) : UInt32 :=
  shiftBits 8 (register ^^^ byte.toUInt32)

end Crc32

/-- The check word of a byte sequence. -/
def crc32 (bytes : Bytes) : UInt32 :=
  ~~~ bytes.foldl Crc32.step 0xFFFFFFFF

end NativeWeave
