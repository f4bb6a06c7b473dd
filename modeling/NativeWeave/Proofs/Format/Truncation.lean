import NativeWeave.Proofs.Format.Module

namespace NativeWeave

/-!
# Cut bytes are not read as something else

More bytes behind the end do not change what a reader has already found: a value stays, and so does
every fault but the one that the bytes have come to an end.  The combinators carry this over from the
small readers to that of a whole payload.  A reader that takes some bytes for a value can therefore
only come to the end in a part of them, whatever tags and counts lie before the cut.
-/

/-- The cursor with more bytes behind what is left. -/
def Cursor.extend (cursor : Cursor) (more : Bytes) : Cursor :=
  ⟨cursor.offset, cursor.rest ++ more⟩

namespace Decoder

variable {α β : Type}

/-- What is found with more bytes at hand agrees with what was found without them. -/
inductive Persists (more : Bytes) :
    EStateM.Result DecodeError Cursor α → EStateM.Result DecodeError Cursor α → Prop
  | value (value : α) (cursor : Cursor) :
    Persists more (.ok value cursor) (.ok value (cursor.extend more))
  | fault (cause : DecodeError) (cursor later : Cursor) :
    Persists more (.error cause cursor) (.error cause later)
  /-- Bytes that have come to an end say nothing about longer ones. -/
  | ended (place : Nat) (cursor : Cursor) (result : EStateM.Result DecodeError Cursor α) :
    Persists more (.error (.unexpectedEnd place) cursor) result

/-- The second reader agrees on longer bytes with the first one. -/
def Continues (short long : Decoder α) : Prop :=
  ∀ cursor more, Persists more (short cursor) (long (cursor.extend more))

theorem continues_pure (value : α) : (pure value : Decoder α).Continues (pure value) :=
  fun cursor _ => .value value cursor

theorem continues_throw (cause : DecodeError) :
    (throw cause : Decoder α).Continues (throw cause) :=
  fun cursor more => .fault cause cursor (cursor.extend more)

theorem continues_offset : offset.Continues offset :=
  fun cursor _ => .value cursor.offset cursor

theorem continues_take (count : Nat) : (take count).Continues (take count) := by
  intro cursor more
  cases cut : Bytes.splitAt? count cursor.rest with
  | none =>
    rw [show take count cursor = .error (.unexpectedEnd cursor.offset) cursor by simp [take, cut]]
    exact .ended cursor.offset cursor _
  | some parts =>
    rcases parts with ⟨front, rest⟩
    rcases Bytes.splitAt?_eq_some cut with ⟨whole, rfl⟩
    have before := take_append front rest cursor.offset
    have behind := take_append front (rest ++ more) cursor.offset
    rw [← whole] at before
    rw [← List.append_assoc, ← whole] at behind
    rw [before, Cursor.extend, behind]
    exact .value front ⟨cursor.offset + front.length, rest⟩

theorem Continues.bind {short long : Decoder α} {next later : α → Decoder β}
    (first : short.Continues long) (second : ∀ value, (next value).Continues (later value)) :
    (short >>= next).Continues (long >>= later) := by
  intro cursor more
  have found := first cursor more
  simp only [Bind.bind, EStateM.bind]
  generalize short cursor = outcome at found
  generalize long (cursor.extend more) = extended at found
  cases found with
  | value value middle => exact second value middle more
  | fault cause middle after => exact .fault cause middle after
  | ended place middle _ => exact .ended place middle _

theorem Continues.map {short long : Decoder α} (f : α → β) (first : short.Continues long) :
    (f <$> short).Continues (f <$> long) := by
  intro cursor more
  have found := first cursor more
  simp only [Functor.map, EStateM.map]
  generalize short cursor = outcome at found
  generalize long (cursor.extend more) = extended at found
  cases found with
  | value value middle => exact .value (f value) middle
  | fault cause middle after => exact .fault cause middle after
  | ended place middle _ => exact .ended place middle _

theorem continues_word (width : Nat) : (word width).Continues (word width) :=
  (continues_take width).map Bytes.toNat

theorem Continues.times {short long : Decoder α} (item : short.Continues long) (count : Nat) :
    (times short count).Continues (times long count) := by
  induction count with
  | zero => exact continues_pure []
  | succ count ih =>
    exact item.bind fun first => ih.bind fun others => continues_pure (first :: others)

/-- A value that leaves nothing of the bytes behind the cut was not found before it. -/
theorem Persists.ended_of_nil {more : Bytes} {result : EStateM.Result DecodeError Cursor α}
    {value : α} {offset : Nat} (left : more ≠ [])
    (found : Persists more result (.ok value ⟨offset, []⟩)) :
    ∃ place after, result = .error (.unexpectedEnd place) after := by
  generalize complete : (.ok value ⟨offset, []⟩ : EStateM.Result DecodeError Cursor α) = extended
    at found
  cases found with
  | value other cursor =>
    injection complete with _ cursors
    have nothing : cursor.rest ++ more = [] := congrArg Cursor.rest cursors.symm
    exact absurd (List.append_eq_nil_iff.mp nothing).2 left
  | fault cause cursor later => cases complete
  | ended place cursor _ => exact ⟨place, cursor, rfl⟩

/-- In a part of the bytes that it takes for a value, a reader that agrees with itself on longer bytes
comes to the end. -/
theorem Reads.ends {decoder : Decoder α} {bytes : Bytes} {value : α}
    (reads : decoder.Reads bytes value) (continues : decoder.Continues decoder) (offset : Nat)
    {kept : Nat} (short : kept < bytes.length) :
    ∃ place after, decoder ⟨offset, bytes.take kept⟩ = .error (.unexpectedEnd place) after := by
  have found := continues ⟨offset, bytes.take kept⟩ (bytes.drop kept)
  have whole := reads offset []
  rw [List.append_nil] at whole
  rw [Cursor.extend, List.take_append_drop, whole] at found
  refine found.ended_of_nil fun nothing => ?_
  have := List.drop_eq_nil_iff.mp nothing
  omega

end Decoder

namespace Codec

variable {α β : Type}

/-- The reader of the format agrees with itself on longer bytes. -/
def Steady (codec : Codec α) : Prop :=
  codec.decode.Continues codec.decode

theorem Steady.convert {codec : Codec α} (steady : codec.Steady) (into : α → β) (back : β → α) :
    (codec.convert into back).Steady :=
  Decoder.Continues.map into steady

theorem Steady.and {first : Codec α} {second : Codec β} (front : first.Steady)
    (back : second.Steady) : (first.and second).Steady :=
  Decoder.Continues.bind front fun left =>
    Decoder.Continues.bind back fun right => Decoder.continues_pure (left, right)

theorem steady_word (width : Nat) : (word width).Steady :=
  Decoder.continues_word width

theorem steady_u8 : u8.Steady := (steady_word 1).convert _ _
theorem steady_u32 : u32.Steady := (steady_word 4).convert _ _
theorem steady_u64 : u64.Steady := (steady_word 8).convert _ _
theorem steady_i64 : i64.Steady := steady_u64.convert _ _
theorem steady_flag : flag.Steady := steady_u8.convert _ _

theorem steady_blob : blob.Steady :=
  (Decoder.continues_word 4).bind Decoder.continues_take

theorem steady_string : string.Steady := by
  refine (Decoder.continues_word 4).bind fun count => Decoder.continues_offset.bind fun start =>
    (Decoder.continues_take count).bind fun bytes => ?_
  cases Bytes.toString? bytes with
  | none => exact Decoder.continues_throw (.invalidUtf8 start)
  | some text => exact Decoder.continues_pure text

theorem Steady.list {item : Codec α} (steady : item.Steady) : item.list.Steady :=
  (Decoder.continues_word 4).bind fun count => Decoder.Continues.times steady count

theorem Steady.option {item : Codec α} (steady : item.Steady) : item.option.Steady := by
  refine steady_flag.bind fun present => ?_
  cases present with
  | false => exact Decoder.continues_pure none
  | true => exact Decoder.Continues.map some steady

theorem Steady.tagged {kind : TagKind} {tag : α → UInt8} {body : α → Bytes}
    {body? : UInt8 → Option (Decoder α)}
    (steady : ∀ {found reader}, body? found = some reader → reader.Continues reader) :
    (tagged kind tag body body?).Steady := by
  refine Decoder.continues_offset.bind fun start => steady_u8.bind fun found => ?_
  cases used : body? found with
  | none => exact Decoder.continues_throw (.invalidTag kind found start)
  | some reader => exact steady used

theorem steady_enumeration {kind : TagKind} {tag : α → UInt8} {ofTag? : UInt8 → Option α} :
    (enumeration kind tag ofTag?).Steady := by
  refine .tagged fun {found reader} used => ?_
  rcases Option.map_eq_some_iff.mp used with ⟨value, _, rfl⟩
  exact Decoder.continues_pure value

end Codec

/-! ## Signatures -/

theorem QualifiedName.steady : QualifiedName.codec.Steady :=
  (Codec.steady_string.and Codec.steady_string).convert _ _

namespace Signature

/-- A reader that may go deeper agrees on longer bytes with one that may not. -/
theorem continues_decodeNested {depth deeper : Nat} (further : depth ≤ deeper) :
    (decodeNested depth).Continues (decodeNested deeper) := by
  induction depth generalizing deeper with
  | zero => exact fun cursor more => .ended cursor.offset cursor _
  | succ depth ih =>
    rcases Nat.exists_eq_add_of_le' further with ⟨extra, rfl⟩
    have inner : (decodeNested depth).Continues (decodeNested (extra + depth)) := ih (by omega)
    refine Decoder.continues_offset.bind fun start => Codec.steady_u8.bind fun tag => ?_
    split
    · exact Decoder.continues_pure _
    · exact Decoder.Continues.map Signature.named QualifiedName.steady
    · exact Decoder.Continues.bind QualifiedName.steady fun base =>
        (Decoder.continues_word 4).bind fun count =>
          (inner.times count).map (Signature.generic base)
    · exact inner.map Signature.array
    · exact inner.map Signature.byRef
    · exact Decoder.continues_throw _

theorem steady : Signature.codec.Steady := by
  intro cursor more
  refine continues_decodeNested ?_ cursor more
  simp [Cursor.extend]

end Signature

/-! ## Records -/

theorem AttributeValue.steady : AttributeValue.codec.Steady := by
  refine .tagged fun {found reader} used => ?_
  unfold AttributeValue.body? at used
  split at used <;> cases used
  · exact Decoder.continues_pure AttributeValue.null
  · exact Codec.steady_flag.map AttributeValue.bool
  · exact Codec.steady_i64.map AttributeValue.int
  · exact Codec.steady_string.map AttributeValue.string
  · exact Signature.steady.map AttributeValue.type

namespace Attribute

theorem steady_type : typeCodec.Steady := by
  refine Decoder.continues_offset.bind fun start =>
    Decoder.Continues.bind Signature.steady fun signature => ?_
  split
  · next name => exact Decoder.continues_pure name
  · exact Decoder.continues_throw (.invalidTag .attributeType 0 start)

theorem steady : Attribute.codec.Steady :=
  (steady_type.and (AttributeValue.steady.list.and
    (Codec.steady_string.and AttributeValue.steady).list)).convert _ _

end Attribute

theorem SourceLocation.steady : SourceLocation.codec.Steady :=
  (Codec.steady_string.and (Codec.steady_u32.and Codec.steady_u32)).convert _ _

theorem Field.steady : Field.codec.Steady :=
  (Codec.steady_string.and (Signature.steady.and (Codec.steady_enumeration.and
    (Codec.steady_u32.and (Codec.steady_i64.option.and (Attribute.steady.list.and
      SourceLocation.steady.option)))))).convert _ _

theorem Property.steady : Property.codec.Steady :=
  (Codec.steady_string.and (Signature.steady.and (Codec.steady_u32.option.and
    (Codec.steady_u32.option.and (Attribute.steady.list.and
      SourceLocation.steady.option))))).convert _ _

theorem Parameter.steady : Parameter.codec.Steady :=
  (Codec.steady_string.and (Signature.steady.and
    (Codec.steady_u32.and Attribute.steady.list))).convert _ _

theorem LineEntry.steady : LineEntry.codec.Steady :=
  (Codec.steady_u32.and (Codec.steady_u32.and Codec.steady_u32)).convert _ _

theorem Body.steady : Body.codec.Steady :=
  (Signature.steady.list.and (Codec.steady_blob.and LineEntry.steady.list)).convert _ _

theorem Method.steady : Method.codec.Steady :=
  (Codec.steady_string.and (Codec.steady_enumeration.and (Codec.steady_u32.and
    (Parameter.steady.list.and (Signature.steady.and (Body.steady.option.and
      (Attribute.steady.list.and SourceLocation.steady.option))))))).convert _ _

theorem TypeDef.steady : TypeDef.codec.Steady :=
  (Codec.steady_string.and (Codec.steady_string.and (Codec.steady_enumeration.and
    (Codec.steady_u32.and (Signature.steady.option.and (Signature.steady.option.and
      (Attribute.steady.list.and (Field.steady.list.and (Property.steady.list.and
        (Method.steady.list.and SourceLocation.steady.option)))))))))).convert _ _

theorem MethodSignature.steady : MethodSignature.codec.Steady :=
  (Codec.steady_flag.and (Signature.steady.list.and Signature.steady)).convert _ _

theorem MemberKind.steady : MemberKind.codec.Steady := by
  refine .tagged fun {found reader} used => ?_
  unfold MemberKind.body? at used
  split at used <;> cases used
  · exact (Signature.steady.and Codec.steady_flag).map _
  · exact MethodSignature.steady.map MemberKind.method

theorem MemberRef.steady : MemberRef.codec.Steady :=
  (Signature.steady.and (Codec.steady_string.and MemberKind.steady)).convert _ _

/-! ## Modules -/

/-- The faults by which a cut shows: the bytes come to an end, or they are not those of the check
word. -/
inductive ModuleError.OfCut : ModuleError → Prop
  | ended (place : Nat) : OfCut (.decode (.unexpectedEnd place))
  | mismatch (stored actual : UInt32) : OfCut (.checksumMismatch stored actual)

namespace Module

theorem steady_payload : Payload.codec.Steady :=
  (Codec.steady_string.list.and (TypeDef.steady.list.and (MemberRef.steady.list.and
    (Signature.steady.list.and (Codec.steady_string.and Codec.steady_string.list))))).convert _ _

/-- Read a stored module whose check word is computed in some way. -/
def decodeWith (check : Bytes → UInt32) (bytes : Bytes) : Except ModuleError Module := do
  let (magic, cursor) ← readItem (Decoder.take 4) (.start bytes)
  if magic ≠ expectedMagic then
    throw (.invalidMagic magic)
  let (version, cursor) ← readItem Codec.u32.decode cursor
  if version ≠ currentVersion then
    throw (.unsupportedVersion version)
  let (flags, cursor) ← readItem Codec.u32.decode cursor
  let (stored, cursor) ← readItem Codec.u32.decode cursor
  let actual := check cursor.rest
  if stored ≠ actual then
    throw (.checksumMismatch stored actual)
  let (payload, _) ← readItem Payload.codec.decode cursor
  return {
    magic, version, flags
    types := payload.types
    tables := payload.tables
    name := payload.name
    references := payload.references }

theorem decode_eq_decodeWith : decode = decodeWith crc32 := rfl

/-- The input is rejected, and the fault is one by which a cut shows. -/
def RejectsCut {α : Type} (result : Except ModuleError α) : Prop :=
  ∃ error, result = .error error ∧ error.OfCut

section Cut

variable {α β : Type} {decoder : Decoder α} {bytes rest : Bytes} {value : α} {offset kept : Nat}
  {next : α × Cursor → Except ModuleError β}

/-- A cut inside an item shows there; behind a complete item it is nearer by the bytes of the item. -/
theorem RejectsCut.bind (reads : decoder.Reads bytes value) (continues : decoder.Continues decoder)
    (short : kept < (bytes ++ rest).length)
    (later : kept - bytes.length < rest.length →
      RejectsCut (next (value, ⟨offset + bytes.length, rest.take (kept - bytes.length)⟩))) :
    RejectsCut (readItem decoder ⟨offset, (bytes ++ rest).take kept⟩ >>= next) := by
  rcases Nat.lt_or_ge kept bytes.length with inside | behind
  · rcases reads.ends continues offset inside with ⟨place, after, ended⟩
    refine ⟨.decode (.unexpectedEnd place), ?_, .ended place⟩
    rw [List.take_append_of_le_length (Nat.le_of_lt inside), readItem, ended]
    rfl
  · rw [List.take_append, List.take_of_length_le behind, readItem_of_reads reads]
    rw [List.length_append] at short
    exact later (by omega)

end Cut

/-- Whatever the check word of the payload is computed as, a cut module is not read. -/
theorem rejectsCut_decodeWith {module : Module} (magic : module.magic = [0x54, 0x45, 0x54, 0x48])
    (version : module.version = 1) (fits : module.Fits) {kept : Nat}
    (short : kept < module.encode.length) (check : Bytes → UInt32) :
    RejectsCut (decodeWith check (module.encode.take kept)) := by
  rcases module with ⟨found, number, flags, types, tables, name, references⟩
  obtain rfl : found = expectedMagic := magic
  obtain rfl : number = currentVersion := version
  have payload := restores_payload fits
  simp only [encode, List.append_assoc] at short ⊢
  refine .bind (Decoder.reads_take expectedMagic) (Decoder.continues_take 4) short fun short => ?_
  refine .bind (Codec.restores_u32 currentVersion) Codec.steady_u32 short fun short => ?_
  refine .bind (Codec.restores_u32 flags) Codec.steady_u32 short fun short => ?_
  refine .bind (Codec.restores_u32 _) Codec.steady_u32 short fun short => ?_
  dsimp only
  split
  · exact ⟨_, rfl, .mismatch _ _⟩
  rw [← List.append_nil (Payload.codec.encode _)] at short ⊢
  exact .bind payload steady_payload short fun nothing => absurd nothing (Nat.not_lt_zero _)

theorem not_rejectsCut_decode_encode {module : Module}
    (magic : module.magic = [0x54, 0x45, 0x54, 0x48]) (version : module.version = 1)
    (fits : module.Fits) : ¬ RejectsCut (decode module.encode) := by
  have written := decode_of_reads module.flags (restores_payload fits)
  rcases module with ⟨found, number, flags, types, tables, name, references⟩
  obtain rfl : found = expectedMagic := magic
  obtain rfl : number = currentVersion := version
  rintro ⟨error, rejected, -⟩
  cases written.symm.trans rejected

/-- A module that is cut anywhere is not read, whatever its check word is compared with, and the fault
is that the bytes end or that they are not those of the check word.  Hence the bytes of one module
do not begin with all those of another. -/
theorem decode_take_encode (module : Module) (magic : module.magic = [0x54, 0x45, 0x54, 0x48])
    (version : module.version = 1) (fits : module.Fits) :
    (∀ kept < module.encode.length,
      (∃ error, decode (module.encode.take kept) = .error error ∧ error.OfCut) ∧
      ∀ check, ∃ error, decodeWith check (module.encode.take kept) = .error error ∧ error.OfCut) ∧
    ∀ other : Module, other.magic = [0x54, 0x45, 0x54, 0x48] → other.version = 1 → other.Fits →
      other.encode <+: module.encode → other.encode = module.encode := by
  have rejects := @rejectsCut_decodeWith module magic version fits
  refine ⟨fun kept short => ⟨decode_eq_decodeWith ▸ rejects short crc32, rejects short⟩, ?_⟩
  intro other otherMagic otherVersion otherFits begins
  have part := List.prefix_iff_eq_take.mp begins
  rcases Nat.lt_or_ge other.encode.length module.encode.length with shorter | whole
  · have rejected := rejects shorter crc32
    rw [← part, ← decode_eq_decodeWith] at rejected
    exact absurd rejected (not_rejectsCut_decode_encode otherMagic otherVersion otherFits)
  · rwa [List.take_of_length_le whole] at part

theorem decode_take_encode_sample :
    sample.magic = [0x54, 0x45, 0x54, 0x48] ∧ sample.version = 1 ∧ sample.Fits ∧
      40 < sample.encode.length ∧
      ∃ error, decode (sample.encode.take 40) = .error error ∧ error.OfCut := by
  have long : 40 < sample.encode.length := by decide +kernel
  have cut := (decode_take_encode sample rfl rfl fits_sample).1 40 long
  exact ⟨rfl, rfl, fits_sample, long, cut.1⟩

end Module

end NativeWeave
