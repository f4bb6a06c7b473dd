import NativeWeave.Code.Format
import NativeWeave.Proofs.Format.Codec

namespace NativeWeave

/-!
# The two directions of the instruction format

Every instruction is read back from its bytes, and no other bytes are read as it.  Both directions
carry over to sequences that end with their input: the bytes that are read to the end as a sequence
of instructions are the concatenation of the bytes of these instructions.
-/

/-! ## Opcodes and kinds -/

theorem NativeKind.toByte_of_ofByte? {byte : UInt8} {kind : NativeKind}
    (found : ofByte? byte = some kind) : kind.toByte = byte := by
  unfold ofByte? at found
  split at found <;> cases found <;> rfl

theorem Opcode.toByte_of_ofByte? {byte : UInt8} {opcode : Opcode}
    (found : ofByte? byte = some opcode) : opcode.toByte = byte := by
  unfold ofByte? at found
  split at found <;> cases found <;> rfl

theorem Opcode.restores (opcode : Opcode) : codec.Restores opcode := by
  refine Decoder.Reads.offset_bind fun start => Codec.reads_tag_bind ?_
  rw [ofByte?_toByte]
  exact .pure opcode

theorem Opcode.canonical : codec.Canonical := by
  refine Codec.inverts_byte fun {start byte cursor value after} read => ?_
  cases recognized : ofByte? byte with
  | none =>
    rw [recognized] at read
    cases read
  | some found =>
    rw [recognized] at read
    cases read
    exact ⟨toByte_of_ofByte? recognized, rfl⟩

namespace Instruction

/-! ## Single instructions -/

theorem restores_kind (kind : NativeKind) : kindCodec.Restores kind :=
  .enumeration (NativeKind.ofByte?_toByte kind)

theorem canonical_kind : kindCodec.Canonical :=
  Codec.canonical_enumeration NativeKind.toByte_of_ofByte?

/-- The operand is read back behind the opcode that announces it. -/
theorem reads_decodeOperand (instr : Instruction Int32) :
    (decodeOperand instr.opcode).Reads instr.operandBytes instr := by
  cases instr with
  | plain op => exact .pure (plain op)
  | constI32 value => exact (Codec.restores_i32 value).map constI32
  | constI64 value => exact (Codec.restores_i64 value).map constI64
  | constF32 bits => exact (Codec.restores_u32 bits).map constF32
  | constF64 bits => exact (Codec.restores_u64 bits).map constF64
  | constString index => exact (Codec.restores_u32 index).map constString
  | slot op index => exact (Codec.restores_u16 index).map (slot op)
  | jump op displacement => exact (Codec.restores_i32 displacement).map (jump op)
  | member op token => exact (Codec.restores_u32 token).map (member op)
  | type op token => exact (Codec.restores_u32 token).map (type op)
  | indirect op kind => exact (restores_kind kind).map (indirect op)

/-- An operand that is a single item is canonical if the item is. -/
theorem inverts_operand {Operand : Type} {codec : Codec Operand} (canonical : codec.Canonical)
    {build : Operand → Instruction Int32} {opcode : Opcode} {instr : Instruction Int32}
    {cursor after : Cursor} (same : ∀ operand, (build operand).opcode = opcode)
    (bytes : ∀ operand, (build operand).operandBytes = codec.encode operand)
    (read : (build <$> codec.decode) cursor = .ok instr after) :
    instr.opcode = opcode ∧ cursor.rest = instr.operandBytes ++ after.rest := by
  rcases Decoder.map_eq_ok_iff.mp read with ⟨operand, found, rfl⟩
  rw [bytes]
  exact ⟨same operand, canonical found⟩

/-- What is read behind an opcode is an instruction with that opcode, and its operand stood
there. -/
theorem inverts_decodeOperand {opcode : Opcode} {instr : Instruction Int32}
    {cursor after : Cursor} (read : decodeOperand opcode cursor = .ok instr after) :
    instr.opcode = opcode ∧ cursor.rest = instr.operandBytes ++ after.rest := by
  cases opcode with
  | plain op =>
    cases read
    exact ⟨rfl, rfl⟩
  | constI32 => exact inverts_operand Codec.canonical_i32 (fun _ => rfl) (fun _ => rfl) read
  | constI64 => exact inverts_operand Codec.canonical_i64 (fun _ => rfl) (fun _ => rfl) read
  | constF32 => exact inverts_operand Codec.canonical_u32 (fun _ => rfl) (fun _ => rfl) read
  | constF64 => exact inverts_operand Codec.canonical_u64 (fun _ => rfl) (fun _ => rfl) read
  | constString => exact inverts_operand Codec.canonical_u32 (fun _ => rfl) (fun _ => rfl) read
  | slot op => exact inverts_operand Codec.canonical_u16 (fun _ => rfl) (fun _ => rfl) read
  | jump op => exact inverts_operand Codec.canonical_i32 (fun _ => rfl) (fun _ => rfl) read
  | member op => exact inverts_operand Codec.canonical_u32 (fun _ => rfl) (fun _ => rfl) read
  | type op => exact inverts_operand Codec.canonical_u32 (fun _ => rfl) (fun _ => rfl) read
  | indirect op => exact inverts_operand canonical_kind (fun _ => rfl) (fun _ => rfl) read

theorem restores (instr : Instruction Int32) : codec.Restores instr :=
  (Opcode.restores instr.opcode).bind (reads_decodeOperand instr)

theorem canonical : codec.Canonical := by
  intro cursor instr after read
  rcases Decoder.bind_eq_ok_iff.mp read with ⟨opcode, middle, found, operand⟩
  rcases inverts_decodeOperand operand with ⟨rfl, stood⟩
  rw [Opcode.canonical found, stood]
  exact (List.append_assoc _ _ _).symm

/-- An instruction takes as many bytes as its size says. -/
theorem length_encode (instr : Instruction Int32) : (codec.encode instr).length = instr.size := by
  have operand : instr.operandBytes.length = instr.opcode.operandSize := by
    cases instr <;>
      simp [operandBytes, opcode, Opcode.operandSize, Codec.i32, Codec.i64, Codec.u16, Codec.u32,
        Codec.u64, Codec.convert, Codec.word]
  change (instr.opcode.toByte :: instr.operandBytes).length = 1 + instr.opcode.operandSize
  rw [List.length_cons, operand, Nat.add_comm]

theorem size_pos {Target : Type} (instr : Instruction Target) : 0 < instr.size :=
  Nat.add_pos_left Nat.one_pos _

/-! ## Sequences -/

/-- There are no more instructions than bytes. -/
theorem length_le_length_encode (stored : List (Instruction Int32)) :
    stored.length ≤ (stored.flatMap codec.encode).length := by
  induction stored with
  | nil => exact Nat.le_refl 0
  | cons instr more ih =>
    have positive := instr.size_pos
    rw [List.flatMap_cons, List.length_append, length_encode, List.length_cons]
    omega

/-- Instructions behind each other are read one by one up to the end of the input. -/
theorem decodeStream_encode {limit : Nat} (stored : List (Instruction Int32))
    (enough : stored.length ≤ limit) (offset : Nat) :
    decodeStream limit ⟨offset, stored.flatMap codec.encode⟩ =
      .ok stored ⟨offset + (stored.flatMap codec.encode).length, []⟩ := by
  induction stored generalizing limit offset with
  | nil => cases limit <;> rfl
  | cons instr more ih =>
    cases limit with
    | zero => simp at enough
    | succ limit =>
      have first := instr.restores offset (more.flatMap codec.encode)
      have others := ih (Nat.le_of_succ_le_succ enough) (offset + (codec.encode instr).length)
      have remains : ¬ ((instr :: more).flatMap codec.encode).isEmpty := by
        simp [codec, Opcode.codec]
      simp only [decodeStream, if_neg remains]
      refine Decoder.bind_eq_ok_iff.mpr ⟨instr, _, first, ?_⟩
      refine Decoder.bind_eq_ok_iff.mpr ⟨more, _, others, ?_⟩
      rw [List.flatMap_cons, List.length_append, Nat.add_assoc]
      rfl

/-- With enough of a limit the whole input is read, and it is what the instructions are written
as. -/
theorem rest_of_decodeStream {limit : Nat} {cursor after : Cursor}
    {stored : List (Instruction Int32)} (enough : cursor.rest.length ≤ limit)
    (read : decodeStream limit cursor = .ok stored after) :
    cursor.rest = stored.flatMap codec.encode := by
  induction limit generalizing cursor stored with
  | zero =>
    cases read
    exact List.eq_nil_of_length_eq_zero (Nat.le_zero.mp enough)
  | succ limit ih =>
    unfold decodeStream at read
    split at read
    · rename_i finished
      cases read
      exact List.isEmpty_iff.mp finished
    · rcases Decoder.bind_eq_ok_iff.mp read with ⟨instr, middle, first, tail⟩
      rcases Decoder.bind_eq_ok_iff.mp tail with ⟨more, last, others, final⟩
      cases final
      have stood := canonical first
      have shorter : middle.rest.length ≤ limit := by
        have positive := instr.size_pos
        rw [stood, List.length_append, length_encode] at enough
        omega
      rw [stood, List.flatMap_cons, ih shorter others]

/-- The bytes that are read as a sequence of instructions are what the sequence is written as. -/
theorem decodeStream_eq_ok_iff {bytes : Bytes} {stored : List (Instruction Int32)} :
    (decodeStream bytes.length).decode bytes = .ok stored ↔
      bytes = stored.flatMap codec.encode := by
  constructor
  · intro read
    unfold Decoder.decode Decoder.outcome at read
    split at read
    · rename_i found after taken
      cases read
      have enough : (Cursor.start bytes).rest.length ≤ bytes.length := Nat.le_refl _
      exact rest_of_decodeStream enough taken
    · cases read
  · rintro rfl
    unfold Decoder.decode Cursor.start
    rw [decodeStream_encode stored (length_le_length_encode stored) 0]
    rfl

end Instruction

end NativeWeave
