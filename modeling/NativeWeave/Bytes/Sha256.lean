import NativeWeave.Bytes.Basic

namespace NativeWeave

/-!
# The secure hash algorithm with 256-bit digests

The message is padded to whole 64-byte blocks, and each block is mixed into a state of eight
words by 64 rounds.  Words are big-endian, in the blocks as in the digest.
-/

namespace Sha256

/-- The eight chaining words. -/
structure State where
  a : UInt32
  b : UInt32
  c : UInt32
  d : UInt32
  e : UInt32
  f : UInt32
  g : UInt32
  h : UInt32
deriving DecidableEq, Repr

/-- The state before the first block: fractional parts of the square roots of the first primes. -/
def State.initial : State where
  a := 0x6a09e667
  b := 0xbb67ae85
  c := 0x3c6ef372
  d := 0xa54ff53a
  e := 0x510e527f
  f := 0x9b05688c
  g := 0x1f83d9ab
  h := 0x5be0cd19

/-- The round constants: fractional parts of the cube roots of the first 64 primes. -/
def constants : List UInt32 := [
  0x428a2f98, 0x71374491, 0xb5c0fbcf, 0xe9b5dba5, 0x3956c25b, 0x59f111f1, 0x923f82a4, 0xab1c5ed5,
  0xd807aa98, 0x12835b01, 0x243185be, 0x550c7dc3, 0x72be5d74, 0x80deb1fe, 0x9bdc06a7, 0xc19bf174,
  0xe49b69c1, 0xefbe4786, 0x0fc19dc6, 0x240ca1cc, 0x2de92c6f, 0x4a7484aa, 0x5cb0a9dc, 0x76f988da,
  0x983e5152, 0xa831c66d, 0xb00327c8, 0xbf597fc7, 0xc6e00bf3, 0xd5a79147, 0x06ca6351, 0x14292967,
  0x27b70a85, 0x2e1b2138, 0x4d2c6dfc, 0x53380d13, 0x650a7354, 0x766a0abb, 0x81c2c92e, 0x92722c85,
  0xa2bfe8a1, 0xa81a664b, 0xc24b8b70, 0xc76c51a3, 0xd192e819, 0xd6990624, 0xf40e3585, 0x106aa070,
  0x19a4c116, 0x1e376c08, 0x2748774c, 0x34b0bcb5, 0x391c0cb3, 0x4ed8aa4a, 0x5b9cca4f, 0x682e6ff3,
  0x748f82ee, 0x78a5636f, 0x84c87814, 0x8cc70208, 0x90befffa, 0xa4506ceb, 0xbef9a3f7, 0xc67178f2]

/-- Rotate a word to the right. -/
def rotate (word : UInt32) (count : UInt32) : UInt32 :=
  (word >>> count) ||| (word <<< (32 - count))

/-- The word that follows the sixteen given ones in the message schedule. -/
def nextWord (w0 w1 w9 w14 : UInt32) : UInt32 :=
  let small0 := rotate w1 7 ^^^ rotate w1 18 ^^^ (w1 >>> 3)
  let small1 := rotate w14 17 ^^^ rotate w14 19 ^^^ (w14 >>> 10)
  w0 + small0 + w9 + small1

/-- Mix one schedule word and its constant into the state. -/
def round (s : State) (constant word : UInt32) : State :=
  let big1 := rotate s.e 6 ^^^ rotate s.e 11 ^^^ rotate s.e 25
  let choice := (s.e &&& s.f) ^^^ (~~~ s.e &&& s.g)
  let first := s.h + big1 + choice + constant + word
  let big0 := rotate s.a 2 ^^^ rotate s.a 13 ^^^ rotate s.a 22
  let majority := (s.a &&& s.b) ^^^ (s.a &&& s.c) ^^^ (s.b &&& s.c)
  ⟨first + (big0 + majority), s.a, s.b, s.c, s.d + first, s.e, s.f, s.g⟩

/-- One round per constant.  The sixteen words at hand are the current one and those after it; the
head is used up and the schedule word sixteen places on is appended. -/
def rounds : (constants : List UInt32) → (words : List UInt32) → State → State
  | [], _, state => state
  | constant :: constants, words, state =>
    let word := words.headD 0
    let next := nextWord word (words.getD 1 0) (words.getD 9 0) (words.getD 14 0)
    rounds constants (words.drop 1 ++ [next]) (round state constant word)

/-- Add two states word by word. -/
def State.add (s t : State) : State :=
  ⟨s.a + t.a, s.b + t.b, s.c + t.c, s.d + t.d, s.e + t.e, s.f + t.f, s.g + t.g, s.h + t.h⟩

/-- Take one block of sixteen words into the state. -/
def compress (state : State) (words : List UInt32) : State :=
  state.add (rounds constants words state)

/-- The big-endian words in a byte sequence; fewer than four bytes at its end are dropped. -/
def words : Bytes → List UInt32
  | b0 :: b1 :: b2 :: b3 :: more =>
    ((b0.toUInt32 <<< 24) ||| (b1.toUInt32 <<< 16) ||| (b2.toUInt32 <<< 8) ||| b3.toUInt32)
      :: words more
  | _ => []

/-- The big-endian bytes of a word. -/
def wordBytes (word : UInt32) : Bytes :=
  (Bytes.littleEndian 4 word.toNat).reverse

/-- The message, a one bit, zeros up to a whole block less eight bytes, and the length in bits. -/
def padded (message : Bytes) : Bytes :=
  let zeros := (119 - message.length % 64) % 64
  message ++ 0x80 :: List.replicate zeros 0
    ++ (Bytes.littleEndian 8 (8 * message.length)).reverse

/-- Take whole blocks into the state, `count` of them. -/
def absorb : (count : Nat) → List UInt32 → State → State
  | 0, _, state => state
  | count + 1, words, state => absorb count (words.drop 16) (compress state (words.take 16))

/-- The digest of a state. -/
def State.digest (s : State) : Bytes :=
  [s.a, s.b, s.c, s.d, s.e, s.f, s.g, s.h].flatMap wordBytes

end Sha256

/-- The 32-byte digest of a message. -/
def sha256 (message : Bytes) : Bytes :=
  let words := Sha256.words (Sha256.padded message)
  (Sha256.absorb (words.length / 16) words .initial).digest

end NativeWeave
