import NativeWeave.Signature.Basic

namespace NativeWeave

/-!
# The stored form of signatures

A signature is a tag byte and what the tag calls for: nothing, a name, a name with counted
arguments, or one more signature.  Every level of nesting takes at least its tag byte, so the
number of bytes at hand bounds how deep the reader has to go.
-/

namespace Signature

mutual

/-- The bytes of a signature. -/
def encode : Signature → Bytes
  | .primitive kind => [kind.tag]
  | .named name => 16 :: QualifiedName.codec.encode name
  | .generic base arguments =>
    17 :: (QualifiedName.codec.encode base
      ++ ((Codec.word 4).encode arguments.length ++ encodeAll arguments))
  | .array element => 18 :: element.encode
  | .byRef target => 19 :: target.encode

/-- The bytes of several signatures, one after another. -/
def encodeAll : List Signature → Bytes
  | [] => []
  | signature :: more => signature.encode ++ encodeAll more

end

/-- Read a signature that is nested at most `depth` levels deep.  No bytes are left below the
deepest level that the input can hold, so at depth zero the input has ended. -/
def decodeNested : (depth : Nat) → Decoder Signature
  | 0 => do
    let start ← Decoder.offset
    throw (.unexpectedEnd start)
  | depth + 1 => do
    let start ← Decoder.offset
    let tag ← Codec.u8.decode
    match Primitive.ofTag? tag, tag with
    | some kind, _ => pure (.primitive kind)
    | none, 16 => .named <$> QualifiedName.codec.decode
    | none, 17 =>
      let base ← QualifiedName.codec.decode
      let count ← (Codec.word 4).decode
      .generic base <$> Decoder.times (decodeNested depth) count
    | none, 18 => .array <$> decodeNested depth
    | none, 19 => .byRef <$> decodeNested depth
    | none, _ => throw (.invalidTag .typeSignature tag start)

/-- Read a signature, however deep. -/
def decode : Decoder Signature :=
  fun cursor => decodeNested cursor.rest.length cursor

/-- Signatures as they are stored. -/
def codec : Codec Signature := ⟨encode, decode⟩

end Signature

end NativeWeave
