import Mathlib.Logic.Function.Basic
import NativeWeave.Proofs.Format.Module

namespace NativeWeave

/-!
# A changed byte does not go unnoticed

The header is read item by item before the payload is looked at.  A byte of the magic number or of the
version is compared with what is expected, a byte of the check word with the word of the payload, and
a byte of the payload changes the word that it is compared with.  Only the flags are compared with
nothing.
-/

/-! ## The check word tells bytes apart

Shifting a bit out of the register can be undone: the generator has its highest bit set, and a plain
shift leaves that bit clear, so that the highest bit tells whether the generator was subtracted.
Hence no two registers become one when the same byte is taken in, and neither do two bytes that are
taken into one register.  Two sequences that differ in a single byte have different check words. -/

namespace Crc32

section Shift

variable (register other : UInt32)

theorem low_eq_one_iff : register &&& 1 = 1 ↔ register.toNat % 2 = 1 := by
  rw [← UInt32.toNat_inj, UInt32.toNat_and]
  change register.toNat &&& 1 = 1 ↔ _
  rw [Nat.and_one_is_mod]

theorem toNat_half : (register >>> 1).toNat = register.toNat / 2 := by
  rw [UInt32.toNat_shiftRight]
  rfl

/-- A plain shift clears the highest bit. -/
theorem testBit_half : (register >>> 1).toNat.testBit 31 = false := by
  rw [toNat_half]
  apply Nat.testBit_lt_two_pow
  have := register.toNat_lt
  omega

/-- A shift with subtraction sets the highest bit. -/
theorem testBit_reduced : (register >>> 1 ^^^ polynomial).toNat.testBit 31 = true := by
  rw [UInt32.toNat_xor, Nat.testBit_xor, testBit_half]
  decide

theorem reduced_ne_half : register >>> 1 ^^^ polynomial ≠ other >>> 1 := by
  intro same
  have bit := testBit_reduced register
  rw [same, testBit_half] at bit
  cases bit

variable {register other}

/-- A register is known from its half and its lowest bit. -/
theorem eq_of_half_eq (halves : register >>> 1 = other >>> 1)
    (bits : register.toNat % 2 = other.toNat % 2) : register = other := by
  have quotients := congrArg UInt32.toNat halves
  rw [toNat_half, toNat_half] at quotients
  apply UInt32.toNat_inj.mp
  omega

end Shift

theorem shiftBit_injective : Function.Injective shiftBit := by
  intro first second same
  unfold shiftBit at same
  simp only [low_eq_one_iff] at same
  split at same <;> split at same
  · next odd also =>
    exact eq_of_half_eq ((UInt32.xor_left_inj polynomial).mp same) (odd.trans also.symm)
  · exact absurd same (reduced_ne_half first second)
  · exact absurd same.symm (reduced_ne_half second first)
  · next even also => exact eq_of_half_eq same (by omega)

theorem shiftBits_injective (count : Nat) : Function.Injective (shiftBits count) := by
  induction count with
  | zero => exact Function.injective_id
  | succ count ih => exact ih.comp shiftBit_injective

/-- Different registers stay different when a byte is taken in. -/
theorem step_left_injective (byte : UInt8) : Function.Injective (step · byte) :=
  fun _ _ same => (UInt32.xor_left_inj _).mp (shiftBits_injective 8 same)

/-- Different bytes make different registers. -/
theorem step_right_injective (register : UInt32) : Function.Injective (step register) := by
  intro first second same
  have words := (UInt32.xor_right_inj _).mp (shiftBits_injective 8 same)
  have numbers := congrArg UInt32.toNat words
  rw [UInt8.toNat_toUInt32, UInt8.toNat_toUInt32] at numbers
  exact UInt8.toNat_inj.mp numbers

theorem foldl_step_injective (bytes : Bytes) : Function.Injective (bytes.foldl step ·) := by
  induction bytes with
  | nil => exact Function.injective_id
  | cons byte more ih => exact ih.comp (step_left_injective byte)

end Crc32

/-- Sequences that differ in one byte have different check words. -/
theorem crc32_append_cons_ne (front back : Bytes) {first second : UInt8}
    (different : first ≠ second) :
    crc32 (front ++ first :: back) ≠ crc32 (front ++ second :: back) := by
  intro same
  have registers := UInt32.not_inj.mp same
  rw [List.foldl_append, List.foldl_append] at registers
  exact different (Crc32.step_right_injective _ (Crc32.foldl_step_injective back registers))

theorem crc32_set_ne {bytes : Bytes} {place : Nat} {found byte : UInt8}
    (here : bytes[place]? = some found) (different : found ≠ byte) :
    crc32 (bytes.set place byte) ≠ crc32 bytes := by
  rcases List.getElem?_eq_some_iff.mp here with ⟨inside, rfl⟩
  have whole : bytes = bytes.take place ++ bytes[place] :: bytes.drop (place + 1) := by
    rw [List.getElem_cons_drop, List.take_append_drop]
  have changed : bytes.set place byte = bytes.take place ++ byte :: bytes.drop (place + 1) :=
    List.set_eq_take_append_cons_drop.trans (if_pos inside)
  have apart := crc32_append_cons_ne (bytes.take place) (bytes.drop (place + 1)) different.symm
  rwa [← changed, ← whole] at apart

/-! ## The parts of a file -/

namespace Bytes

/-- A byte in one of two parts is changed in that part. -/
theorem set_append_cases {front back : Bytes} {place : Nat} {found : UInt8}
    (here : (front ++ back)[place]? = some found) (byte : UInt8) :
    (place < front.length ∧ front[place]? = some found ∧
      (front ++ back).set place byte = front.set place byte ++ back) ∨
    (front.length ≤ place ∧ back[place - front.length]? = some found ∧
      (front ++ back).set place byte = front ++ back.set (place - front.length) byte) := by
  rcases Nat.lt_or_ge place front.length with inside | behind
  · rw [List.getElem?_append_left inside] at here
    exact .inl ⟨inside, here, List.set_append_left place byte inside⟩
  · rw [List.getElem?_append_right behind] at here
    exact .inr ⟨behind, here, List.set_append_right place byte behind⟩

theorem set_ne {bytes : Bytes} {place : Nat} {found byte : UInt8}
    (here : bytes[place]? = some found) (different : found ≠ byte) :
    bytes.set place byte ≠ bytes := by
  intro same
  have there := List.getElem?_set_self (a := byte) (List.getElem?_eq_some_iff.mp here).1
  rw [same, here] at there
  exact different (Option.some.inj there)

end Bytes

namespace Codec

theorem length_encode_u32 (value : UInt32) : (u32.encode value).length = 4 :=
  Bytes.length_littleEndian 4 value.toNat

/-- Four bytes are the bytes of some number. -/
theorem exists_encode_u32 {bytes : Bytes} (four : bytes.length = 4) :
    ∃ value, u32.encode value = bytes := by
  refine ⟨UInt32.ofNat (Bytes.toNat bytes), ?_⟩
  have small : Bytes.toNat bytes < 2 ^ 32 := by
    have := Bytes.toNat_lt bytes
    rwa [four] at this
  change Bytes.littleEndian 4 (UInt32.ofNat (Bytes.toNat bytes)).toNat = bytes
  rw [UInt32.toNat_ofNat_of_lt' small, ← four, Bytes.littleEndian_toNat]

/-- Another byte in the bytes of a number makes those of another number. -/
theorem exists_encode_u32_set {value : UInt32} {place : Nat} {found byte : UInt8}
    (here : (u32.encode value)[place]? = some found) (different : found ≠ byte) :
    ∃ other, other ≠ value ∧ (u32.encode value).set place byte = u32.encode other := by
  have four : ((u32.encode value).set place byte).length = 4 := by
    rw [List.length_set, length_encode_u32]
  rcases exists_encode_u32 four with ⟨other, written⟩
  refine ⟨other, ?_, written.symm⟩
  rintro rfl
  exact Bytes.set_ne here different written.symm

end Codec

namespace Module

variable {magic payload : Bytes} {version flags stored : UInt32}

/-- A header, whatever it holds, and a payload. -/
def layout (magic : Bytes) (version flags stored : UInt32) (payload : Bytes) : Bytes :=
  magic ++ (Codec.u32.encode version ++ (Codec.u32.encode flags
    ++ (Codec.u32.encode stored ++ payload)))

theorem encode_eq_layout (module : Module) :
    module.encode = layout module.magic module.version module.flags
      (crc32 (Payload.codec.encode module.payload)) (Payload.codec.encode module.payload) := by
  simp only [encode, layout, List.append_assoc]

theorem decode_of_magic_ne (four : magic.length = 4) (different : magic ≠ expectedMagic) :
    decode (layout magic version flags stored payload) = .error (.invalidMagic magic) := by
  rw [decode, Cursor.start, layout, ← four, readItem_of_reads (Decoder.reads_take magic)]
  simp only [bind, Except.bind, if_pos different]
  rfl

theorem decode_of_version_ne (different : version ≠ currentVersion) :
    decode (layout expectedMagic version flags stored payload)
      = .error (.unsupportedVersion version) := by
  rw [decode, Cursor.start, layout, show 4 = expectedMagic.length from rfl,
    readItem_of_reads (Decoder.reads_take expectedMagic)]
  simp only [bind, Except.bind, readItem_of_reads (Codec.restores_u32 _), ne_eq, different,
    not_true_eq_false, not_false_eq_true, if_true, if_false]
  rfl

theorem decode_of_crc32_ne (different : stored ≠ crc32 payload) :
    decode (layout expectedMagic currentVersion flags stored payload)
      = .error (.checksumMismatch stored (crc32 payload)) := by
  rw [decode, Cursor.start, layout, show 4 = expectedMagic.length from rfl,
    readItem_of_reads (Decoder.reads_take expectedMagic)]
  simp only [bind, Except.bind, readItem_of_reads (Codec.restores_u32 _), ne_eq, different,
    not_true_eq_false, not_false_eq_true, if_true, if_false]
  rfl

/-- Outside the flags, another byte makes a header or a payload that is not accepted. -/
theorem decode_set_layout {place : Nat} {found byte : UInt8} (outside : place < 8 ∨ 12 ≤ place)
    (here : (layout expectedMagic currentVersion flags (crc32 payload) payload)[place]? = some found)
    (different : found ≠ byte) :
    ∃ error,
      decode ((layout expectedMagic currentVersion flags (crc32 payload) payload).set place byte)
        = .error error ∧
      ((place < 4 ∧ ∃ magic, error = .invalidMagic magic) ∨
        (4 ≤ place ∧ place < 8 ∧ ∃ version, error = .unsupportedVersion version) ∨
        (12 ≤ place ∧ ∃ stored actual, error = .checksumMismatch stored actual)) := by
  have magicFour : expectedMagic.length = 4 := rfl
  have versionFour := Codec.length_encode_u32 currentVersion
  have flagsFour := Codec.length_encode_u32 flags
  have storedFour := Codec.length_encode_u32 (crc32 payload)
  unfold layout at here ⊢
  rcases Bytes.set_append_cases here byte with ⟨inMagic, there, changed⟩ | ⟨_, here, changed⟩
  · rw [changed]
    exact ⟨_, decode_of_magic_ne (by rw [List.length_set, magicFour]) (Bytes.set_ne there different),
      .inl ⟨by omega, _, rfl⟩⟩
  rw [changed]
  rcases Bytes.set_append_cases here byte with ⟨inVersion, there, changed⟩ | ⟨_, here, changed⟩
  · rcases Codec.exists_encode_u32_set there different with ⟨other, apart, written⟩
    rw [changed, written]
    exact ⟨_, decode_of_version_ne apart, .inr (.inl ⟨by omega, by omega, _, rfl⟩)⟩
  rw [changed]
  rcases Bytes.set_append_cases here byte with ⟨inFlags, _, _⟩ | ⟨_, here, changed⟩
  · omega
  rw [changed]
  rcases Bytes.set_append_cases here byte with ⟨inStored, there, changed⟩ | ⟨_, here, changed⟩
  · rcases Codec.exists_encode_u32_set there different with ⟨other, apart, written⟩
    rw [changed, written]
    exact ⟨_, decode_of_crc32_ne apart, .inr (.inr ⟨by omega, _, _, rfl⟩)⟩
  · rw [changed]
    exact ⟨_, decode_of_crc32_ne (crc32_set_ne here different).symm,
      .inr (.inr ⟨by omega, _, _, rfl⟩)⟩

/-- Whichever byte outside the flags is replaced by another one, the module is not read, and the fault
is that of the part which the byte belongs to. -/
theorem decode_set_encode (module : Module) (magic : module.magic = [0x54, 0x45, 0x54, 0x48])
    (version : module.version = 1) {place : Nat} {found byte : UInt8}
    (outside : place < 8 ∨ 12 ≤ place) (here : module.encode[place]? = some found)
    (different : found ≠ byte) :
    ∃ error, decode (module.encode.set place byte) = .error error ∧
      ((place < 4 ∧ ∃ magic, error = .invalidMagic magic) ∨
        (4 ≤ place ∧ place < 8 ∧ ∃ version, error = .unsupportedVersion version) ∨
        (12 ≤ place ∧ ∃ stored actual, error = .checksumMismatch stored actual)) := by
  rcases module with ⟨_, _, flags, types, tables, name, references⟩
  obtain rfl := magic
  obtain rfl := version
  rw [encode_eq_layout] at here ⊢
  exact decode_set_layout outside here different

theorem decode_set_encode_sample :
    sample.magic = [0x54, 0x45, 0x54, 0x48] ∧ sample.version = 1 ∧ sample.encode[20]? = some 4 ∧
      ∃ error, decode (sample.encode.set 20 5) = .error error ∧
        ∃ stored actual, error = .checksumMismatch stored actual := by
  have here : sample.encode[20]? = some 4 := by decide +kernel
  have different : (4 : UInt8) ≠ 5 := by decide
  rcases decode_set_encode sample rfl rfl (.inr (by decide)) here different
    with ⟨error, rejected, early | middle | late⟩
  · exact absurd early.1 (by decide)
  · exact absurd middle.2.1 (by decide)
  · exact ⟨rfl, rfl, here, error, rejected, late.2⟩

end Module

end NativeWeave
