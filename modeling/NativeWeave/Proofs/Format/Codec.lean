import Mathlib.Algebra.Ring.Nat
import NativeWeave.Bytes.Codec

namespace NativeWeave

/-!
# Laws of formats

A reader takes bytes for a value if it gives that value whenever the bytes stand in front, wherever
that is, and goes on right behind them.  A format restores a value if its reader takes what its
writer writes.  Both are laws of the small formats that the combinators carry over to the large ones,
under the condition that numbers of items and of bytes fit into their four bytes.

The law in the other direction holds of some formats only: a format is canonical if nothing but what
the writer writes is read.  A truth value is not, since every byte except zero reads as true.
-/

namespace Bytes

theorem toNat_lt (bytes : Bytes) : toNat bytes < 256 ^ bytes.length := by
  induction bytes with
  | nil => simp [toNat]
  | cons byte more ih =>
    have := byte.toNat_lt
    rw [toNat, List.length_cons, Nat.pow_succ]
    omega

/-- The bytes of the number that some bytes spell are these bytes. -/
theorem littleEndian_toNat (bytes : Bytes) : littleEndian bytes.length (toNat bytes) = bytes := by
  induction bytes with
  | nil => rfl
  | cons byte more ih =>
    have low := byte.toNat_lt
    have quotient : (byte.toNat + 256 * toNat more) / 256 = toNat more := by omega
    rw [List.length_cons, toNat, littleEndian, quotient, ih]
    simp

theorem toString?_ofString (text : String) : toString? (ofString text) = some text := by
  have same : (⟨(ofString text).toArray⟩ : ByteArray) = text.toByteArray := by
    simp [ofString]
  unfold toString?
  rw [same]
  exact dif_pos text.isValidUTF8

end Bytes

namespace Decoder

variable {α β : Type}

/-- The reader takes these bytes for the value, at every offset and whatever follows them. -/
def Reads (decoder : Decoder α) (bytes : Bytes) (value : α) : Prop :=
  ∀ offset rest, decoder ⟨offset, bytes ++ rest⟩ = .ok value ⟨offset + bytes.length, rest⟩

theorem Reads.pure (value : α) : Reads (Pure.pure value) [] value :=
  fun _ _ => rfl

theorem Reads.bind {decoder : Decoder α} {next : α → Decoder β} {front back : Bytes}
    {first : α} {second : β} (reads : decoder.Reads front first)
    (later : (next first).Reads back second) : (decoder >>= next).Reads (front ++ back) second := by
  intro offset rest
  have start := reads offset (back ++ rest)
  have finish := later (offset + front.length) rest
  simp only [Bind.bind, EStateM.bind, List.append_assoc, start, finish, List.length_append,
    Nat.add_assoc]

/-- A step that only looks at the value before it. -/
theorem Reads.bind_nil {decoder : Decoder α} {next : α → Decoder β} {bytes : Bytes} {first : α}
    {second : β} (reads : decoder.Reads bytes first) (later : (next first).Reads [] second) :
    (decoder >>= next).Reads bytes second := by
  have whole := reads.bind later
  rwa [List.append_nil] at whole

theorem Reads.map {decoder : Decoder α} {bytes : Bytes} {value : α} (f : α → β)
    (reads : decoder.Reads bytes value) : (f <$> decoder).Reads bytes (f value) := by
  intro offset rest
  simp only [Functor.map, EStateM.map, reads offset rest]

/-- What happens at an offset does not depend on the offset. -/
theorem Reads.offset_bind {next : Nat → Decoder α} {bytes : Bytes} {value : α}
    (reads : ∀ start, (next start).Reads bytes value) :
    (Decoder.offset >>= next).Reads bytes value :=
  fun offset rest => reads offset offset rest

theorem reads_take (bytes : Bytes) : (take bytes.length).Reads bytes bytes :=
  fun offset rest => take_append bytes rest offset

theorem reads_word {width value : Nat} (fits : value < 256 ^ width) :
    (word width).Reads (Bytes.littleEndian width value) value := by
  have whole := (reads_take (Bytes.littleEndian width value)).map Bytes.toNat
  rw [Bytes.length_littleEndian, Bytes.toNat_littleEndian] at whole
  rwa [show value % Nat.pow 256 width = value from Nat.mod_eq_of_lt fits] at whole

/-- Items behind each other are read one by one. -/
theorem reads_times {item : Decoder α} {encode : α → Bytes} {items : List α}
    (reads : ∀ value ∈ items, item.Reads (encode value) value) :
    (times item items.length).Reads (items.flatMap encode) items := by
  induction items with
  | nil => exact .pure []
  | cons first others ih =>
    rw [List.forall_mem_cons] at reads
    exact reads.1.bind ((ih reads.2).bind_nil (.pure (first :: others)))

/-- The reader takes nothing but what the writer writes for the value that it gives. -/
def Inverts (decoder : Decoder α) (encode : α → Bytes) : Prop :=
  ∀ {cursor value after}, decoder cursor = .ok value after →
    cursor.rest = encode value ++ after.rest

theorem bind_eq_ok_iff {decoder : Decoder α} {next : α → Decoder β} {cursor after : Cursor}
    {result : β} :
    (decoder >>= next) cursor = .ok result after ↔
      ∃ value middle, decoder cursor = .ok value middle ∧ next value middle = .ok result after := by
  simp only [Bind.bind, EStateM.bind]
  cases decoder cursor with
  | error cause middle => simp
  | ok value middle =>
    refine ⟨fun run => ⟨value, middle, rfl, run⟩, ?_⟩
    rintro ⟨_, _, ⟨rfl, rfl⟩, run⟩
    exact run

theorem map_eq_ok_iff {decoder : Decoder α} {f : α → β} {cursor after : Cursor} {result : β} :
    (f <$> decoder) cursor = .ok result after ↔
      ∃ value, decoder cursor = .ok value after ∧ f value = result := by
  simp only [Functor.map, EStateM.map]
  cases decoder cursor with
  | error cause middle => simp
  | ok value middle =>
    constructor
    · rintro ⟨rfl, rfl⟩
      exact ⟨value, rfl, rfl⟩
    · rintro ⟨_, ⟨rfl, rfl⟩, rfl⟩
      rfl

/-- Taken bytes stood in front, and they are as many as were asked for. -/
theorem take_eq_ok {count : Nat} {cursor after : Cursor} {front : Bytes}
    (taken : take count cursor = .ok front after) :
    cursor.rest = front ++ after.rest ∧ front.length = count := by
  unfold take at taken
  split at taken
  · rename_i first rest cut
    obtain ⟨rfl, rfl⟩ := by simpa using taken
    exact Bytes.splitAt?_eq_some cut
  · simp at taken

theorem inverts_word (width : Nat) : (word width).Inverts (Bytes.littleEndian width) := by
  intro cursor value after read
  rcases map_eq_ok_iff.mp read with ⟨front, taken, rfl⟩
  rcases take_eq_ok taken with ⟨whole, rfl⟩
  rwa [Bytes.littleEndian_toNat]

theorem word_lt {width value : Nat} {cursor after : Cursor}
    (read : word width cursor = .ok value after) : value < 256 ^ width := by
  rcases map_eq_ok_iff.mp read with ⟨front, taken, rfl⟩
  rw [← (take_eq_ok taken).2]
  exact Bytes.toNat_lt front

end Decoder

namespace Codec

variable {α β : Type}

/-- The format reads back a value that it has written. -/
def Restores (codec : Codec α) (value : α) : Prop :=
  codec.decode.Reads (codec.encode value) value

/-! ## Combinators -/

theorem Restores.convert {codec : Codec α} {into : α → β} {back : β → α} {value : β}
    (restores : codec.Restores (back value)) (inverse : into (back value) = value) :
    (codec.convert into back).Restores value := by
  have reads := Decoder.Reads.map into restores
  rwa [inverse] at reads

theorem Restores.and {first : Codec α} {second : Codec β} {left : α} {right : β}
    (front : first.Restores left) (back : second.Restores right) :
    (first.and second).Restores (left, right) :=
  Decoder.Reads.bind front (Decoder.Reads.bind_nil back (.pure (left, right)))

theorem restores_word {width value : Nat} (fits : value < 256 ^ width) :
    (word width).Restores value :=
  Decoder.reads_word fits

theorem restores_count {count : Nat} (few : count < 2 ^ 32) : (word 4).Restores count :=
  restores_word few

/-- Items are restored behind their number. -/
theorem Restores.list {item : Codec α} {items : List α} (few : items.length < 2 ^ 32)
    (restores : ∀ value ∈ items, item.Restores value) : item.list.Restores items :=
  (restores_count few).bind (Decoder.reads_times restores)

/-! ## Numbers -/

theorem restores_u8 (value : UInt8) : u8.Restores value :=
  (restores_word value.toNat_lt).convert (by simp)

theorem restores_u16 (value : UInt16) : u16.Restores value :=
  (restores_word value.toNat_lt).convert (by simp)

theorem restores_u32 (value : UInt32) : u32.Restores value :=
  (restores_word value.toNat_lt).convert (by simp)

theorem restores_u64 (value : UInt64) : u64.Restores value :=
  (restores_word value.toNat_lt).convert (by simp)

theorem restores_i32 (value : Int32) : i32.Restores value :=
  (restores_u32 value.toUInt32).convert (by simp)

theorem restores_i64 (value : Int64) : i64.Restores value :=
  (restores_u64 value.toUInt64).convert (by simp)

theorem restores_flag (value : Bool) : flag.Restores value :=
  (restores_u8 _).convert (by cases value <;> rfl)

/-! ## Tags -/

theorem encode_u8 (byte : UInt8) : u8.encode byte = [byte] := by
  simp [u8, convert, word, Bytes.littleEndian]

/-- What follows a tag byte goes on with that byte. -/
theorem reads_tag_bind {next : UInt8 → Decoder α} {tag : UInt8} {bytes : Bytes} {value : α}
    (later : (next tag).Reads bytes value) : (u8.decode >>= next).Reads (tag :: bytes) value := by
  have byte := restores_u8 tag
  unfold Restores at byte
  rw [encode_u8] at byte
  exact byte.bind later

/-- A tagged item is restored if its tag is in use and the reader that belongs to the tag takes what
is written behind it. -/
theorem Restores.tagged {kind : TagKind} {tag : α → UInt8} {body : α → Bytes}
    {body? : UInt8 → Option (Decoder α)} {value : α} {reader : Decoder α}
    (used : body? (tag value) = some reader) (reads : reader.Reads (body value) value) :
    (tagged kind tag body body?).Restores value := by
  refine Decoder.Reads.offset_bind fun start => reads_tag_bind ?_
  rw [used]
  exact reads

/-- A value that is nothing but its tag is restored if its tag is recognized. -/
theorem Restores.enumeration {kind : TagKind} {tag : α → UInt8} {ofTag? : UInt8 → Option α}
    {value : α} (recognized : ofTag? (tag value) = some value) :
    (Codec.enumeration kind tag ofTag?).Restores value :=
  Restores.tagged (by rw [recognized]; rfl) (.pure value)

/-! ## Sequences -/

/-- An optional item is restored if the item is, should there be one. -/
theorem Restores.option {item : Codec α} {value : Option α}
    (restores : ∀ found ∈ value, item.Restores found) : item.option.Restores value := by
  cases value with
  | none => exact (restores_flag false).bind (.pure none)
  | some found => exact (restores_flag true).bind ((restores found rfl).map some)

theorem restores_blob {bytes : Bytes} (few : bytes.length < 2 ^ 32) : blob.Restores bytes :=
  (restores_count few).bind (Decoder.reads_take bytes)

theorem restores_string {text : String} (few : text.utf8ByteSize < 2 ^ 32) :
    string.Restores text := by
  have taken := Decoder.reads_take (Bytes.ofString text)
  refine (restores_count few).bind (.offset_bind fun start => taken.bind_nil ?_)
  rw [Bytes.toString?_ofString]
  exact .pure text

/-! ## Canonical formats -/

/-- Nothing is read but what is written. -/
def Canonical (codec : Codec α) : Prop :=
  codec.decode.Inverts codec.encode

theorem Canonical.convert {codec : Codec α} {into : α → β} {back : β → α}
    (canonical : codec.Canonical)
    (inverse : ∀ {cursor value after}, codec.decode cursor = .ok value after →
      back (into value) = value) : (codec.convert into back).Canonical := by
  intro cursor value after read
  rcases Decoder.map_eq_ok_iff.mp read with ⟨inner, found, rfl⟩
  change cursor.rest = codec.encode (back (into inner)) ++ after.rest
  rw [inverse found]
  exact canonical found

theorem canonical_u8 : u8.Canonical :=
  Canonical.convert (Decoder.inverts_word 1) fun read =>
    UInt8.toNat_ofNat_of_lt (Decoder.word_lt read)

theorem canonical_u16 : u16.Canonical :=
  Canonical.convert (Decoder.inverts_word 2) fun read =>
    UInt16.toNat_ofNat_of_lt (Decoder.word_lt read)

theorem canonical_u32 : u32.Canonical :=
  Canonical.convert (Decoder.inverts_word 4) fun read =>
    UInt32.toNat_ofNat_of_lt (Decoder.word_lt read)

theorem canonical_u64 : u64.Canonical :=
  Canonical.convert (Decoder.inverts_word 8) fun read =>
    UInt64.toNat_ofNat_of_lt (Decoder.word_lt read)

theorem canonical_i32 : i32.Canonical :=
  canonical_u32.convert fun _ => UInt32.toUInt32_toInt32 _

theorem canonical_i64 : i64.Canonical :=
  canonical_u64.convert fun _ => UInt64.toUInt64_toInt64 _

/-- A step that reads one byte and decides by it alone takes nothing but the byte of its value. -/
theorem inverts_byte {tag : α → UInt8} {next : Nat → UInt8 → Decoder α}
    (decides : ∀ {start byte cursor value after}, next start byte cursor = .ok value after →
      tag value = byte ∧ after = cursor) :
    Decoder.Inverts (do
      let start ← Decoder.offset
      let byte ← u8.decode
      next start byte) fun value => [tag value] := by
  intro cursor value after read
  rcases Decoder.bind_eq_ok_iff.mp read with ⟨start, _, located, tail⟩
  cases located
  rcases Decoder.bind_eq_ok_iff.mp tail with ⟨byte, middle, found, decided⟩
  rcases decides decided with ⟨rfl, rfl⟩
  change cursor.rest = [tag value] ++ after.rest
  rw [← encode_u8]
  exact canonical_u8 found

theorem canonical_enumeration {kind : TagKind} {tag : α → UInt8} {ofTag? : UInt8 → Option α}
    (sound : ∀ {byte value}, ofTag? byte = some value → tag value = byte) :
    (Codec.enumeration kind tag ofTag?).Canonical := by
  refine inverts_byte fun {start byte cursor value after} read => ?_
  cases recognized : ofTag? byte with
  | none =>
    simp only [recognized, Option.map_none] at read
    cases read
  | some found =>
    simp only [recognized, Option.map_some] at read
    cases read
    exact ⟨sound recognized, rfl⟩

end Codec

end NativeWeave
