import Mathlib.Tactic.MkIffOfInductiveProp
import NativeWeave.Module.Reference
import NativeWeave.Proofs.Format.Codec

namespace NativeWeave

/-!
# Signatures and names survive storage

Counts and lengths are stored in four bytes, so a value has to keep every number of items and of
bytes in it below 2³².  Nothing else is asked of a signature, however deep it is: each level of it
takes a byte at least, and the reader may go as deep as there are bytes.
-/

/-- The number of bytes of a text can be stored. -/
def TextFits (text : String) : Prop :=
  text.utf8ByteSize < 2 ^ 32

instance (text : String) : Decidable (TextFits text) :=
  inferInstanceAs (Decidable (_ < _))

/-- The number of items can be stored, and each item can. -/
def ListFits {α : Type} (fits : α → Prop) (items : List α) : Prop :=
  items.length < 2 ^ 32 ∧ ∀ item ∈ items, fits item

/-- An item can be stored if there is one. -/
def OptionFits {α : Type} (fits : α → Prop) (value : Option α) : Prop :=
  ∀ item ∈ value, fits item

namespace Codec

variable {α : Type} {codec : Codec α} {fits : α → Prop}

theorem restores_list_of_fits (restores : ∀ {value}, fits value → codec.Restores value)
    {items : List α} (fit : ListFits fits items) : codec.list.Restores items :=
  .list fit.1 fun value member => restores (fit.2 value member)

theorem restores_option_of_fits (restores : ∀ {value}, fits value → codec.Restores value)
    {value : Option α} (fit : OptionFits fits value) : codec.option.Restores value :=
  .option fun found present => restores (fit found present)

end Codec

/-- Both parts of a name can be stored. -/
@[mk_iff] structure QualifiedName.Fits (name : QualifiedName) : Prop where
  namespaceName : TextFits name.namespaceName
  name : TextFits name.name

theorem QualifiedName.restores {name : QualifiedName} (fits : name.Fits) :
    QualifiedName.codec.Restores name :=
  .convert ((Codec.restores_string fits.namespaceName).and (Codec.restores_string fits.name)) rfl

namespace Signature

mutual

/-- All names and numbers of arguments in a signature can be stored. -/
def Fits : Signature → Prop
  | .primitive _ => True
  | .named name => name.Fits
  | .generic base arguments => base.Fits ∧ arguments.length < 2 ^ 32 ∧ FitsAll arguments
  | .array element => element.Fits
  | .byRef target => target.Fits

/-- Each of several signatures can be stored. -/
def FitsAll : List Signature → Prop
  | [] => True
  | signature :: more => signature.Fits ∧ FitsAll more

end

theorem length_encode_pos (signature : Signature) : 0 < signature.encode.length := by
  cases signature <;> simp [encode]

mutual

/-- A reader that may go as deep as a signature has bytes takes these bytes for it. -/
theorem reads_encode : (signature : Signature) → signature.Fits → (limit : Nat) →
    signature.encode.length ≤ limit → (decodeNested limit).Reads signature.encode signature
  | signature, _, 0, enough => by
    have := signature.length_encode_pos
    omega
  | .primitive kind, _, limit + 1, _ => by
    refine Decoder.Reads.offset_bind fun start => Codec.reads_tag_bind ?_
    rw [Primitive.ofTag?_tag]
    exact .pure _
  | .named name, fits, limit + 1, _ =>
    Decoder.Reads.offset_bind fun start => Codec.reads_tag_bind
      ((QualifiedName.restores fits).map Signature.named)
  | .generic base arguments, ⟨baseFits, few, fits⟩, limit + 1, enough => by
    have deep : (encodeAll arguments).length ≤ limit := by
      simp only [encode, List.length_cons, List.length_append] at enough
      omega
    have reads := (reads_encodeAll arguments fits limit deep).map (Signature.generic base)
    exact Decoder.Reads.offset_bind fun start => Codec.reads_tag_bind
      ((QualifiedName.restores baseFits).bind ((Codec.restores_count few).bind reads))
  | .array element, fits, limit + 1, enough => by
    have deep : element.encode.length ≤ limit := by simpa [encode] using enough
    exact Decoder.Reads.offset_bind fun start => Codec.reads_tag_bind
      ((reads_encode element fits limit deep).map Signature.array)
  | .byRef target, fits, limit + 1, enough => by
    have deep : target.encode.length ≤ limit := by simpa [encode] using enough
    exact Decoder.Reads.offset_bind fun start => Codec.reads_tag_bind
      ((reads_encode target fits limit deep).map Signature.byRef)

theorem reads_encodeAll : (signatures : List Signature) → FitsAll signatures → (limit : Nat) →
    (encodeAll signatures).length ≤ limit →
      (Decoder.times (decodeNested limit) signatures.length).Reads (encodeAll signatures) signatures
  | [], _, _, _ => .pure []
  | signature :: more, ⟨firstFits, fits⟩, limit, enough => by
    simp only [encodeAll, List.length_append] at enough
    have first := reads_encode signature firstFits limit (by omega)
    have others := reads_encodeAll more fits limit (by omega)
    exact first.bind (others.bind_nil (.pure (signature :: more)))

end

/-- A signature is restored however deep it is. -/
theorem restores {signature : Signature} (fits : signature.Fits) :
    Signature.codec.Restores signature := by
  intro offset rest
  have enough : signature.encode.length ≤ (signature.encode ++ rest).length := by simp
  exact reads_encode signature fits _ enough offset rest

end Signature

end NativeWeave
