import NativeWeave.Bytes.Basic
import NativeWeave.Module.Basic

namespace NativeWeave

/-!
# The stored form of modules

A stored module is a header of sixteen bytes and a payload.  The header holds the magic bytes, the
version, the flags and the check word of the payload; the payload holds the string pool, the
types, the referenced members, the referenced types, the module's name and the names it refers
to.  The header is checked before the payload is looked at, and bytes behind the payload are
ignored, although the check word covers them.
-/

/-- Why a stored module could not be read. -/
inductive ModuleError
  | decode (cause : DecodeError)
  | invalidMagic (found : Bytes)
  | unsupportedVersion (found : UInt32)
  | checksumMismatch (stored actual : UInt32)
deriving DecidableEq, Repr

/-- Hexadecimal digits of a number without leading zeros. -/
def hexNumber (value : Nat) : String :=
  String.ofList (Nat.toDigits 16 value)

/-- Text of an error in a stored module. -/
def ModuleError.message : ModuleError → String
  | decode cause => "Decode error: " ++ cause.message
  | invalidMagic found =>
    "Invalid magic number: expected TETH, got [" ++ ", ".intercalate (found.map toString) ++ "]"
  | unsupportedVersion found =>
    s!"Unsupported version: {found} (current: {Module.currentVersion})"
  | checksumMismatch stored actual =>
    "Checksum mismatch: expected 0x" ++ hexNumber stored.toNat ++ ", got 0x"
      ++ hexNumber actual.toNat

namespace Module

/-- Everything behind the header. -/
structure Payload where
  tables : Tables
  types : List TypeDef
  name : String
  references : List String
deriving DecidableEq, Repr

/-- The string pool, the types, the tables of members and types, the name and the references. -/
def Payload.codec : Codec Payload :=
  (Codec.string.list.and (TypeDef.codec.list.and (MemberRef.codec.list.and
    (Signature.codec.list.and (Codec.string.and Codec.string.list))))).convert
    (fun (strings, types, members, signatures, name, references) =>
      ⟨⟨strings, members, signatures⟩, types, name, references⟩)
    (fun payload => (payload.tables.strings, payload.types, payload.tables.members,
      payload.tables.types, payload.name, payload.references))

def payload (module : Module) : Payload :=
  ⟨module.tables, module.types, module.name, module.references⟩

/-- The bytes of a module. -/
def encode (module : Module) : Bytes :=
  let payload := Payload.codec.encode module.payload
  module.magic ++ Codec.u32.encode module.version ++ Codec.u32.encode module.flags
    ++ Codec.u32.encode (crc32 payload) ++ payload

/-- Read one item of a stored module. -/
def readItem {α : Type} (decoder : Decoder α) (cursor : Cursor) : Except ModuleError (α × Cursor) :=
  match decoder cursor with
  | .ok value rest => .ok (value, rest)
  | .error cause _ => .error (.decode cause)

/-- Read a stored module. -/
def decode (bytes : Bytes) : Except ModuleError Module := do
  let (magic, cursor) ← readItem (Decoder.take 4) (.start bytes)
  if magic ≠ expectedMagic then
    throw (.invalidMagic magic)
  let (version, cursor) ← readItem Codec.u32.decode cursor
  if version ≠ currentVersion then
    throw (.unsupportedVersion version)
  let (flags, cursor) ← readItem Codec.u32.decode cursor
  let (stored, cursor) ← readItem Codec.u32.decode cursor
  let actual := crc32 cursor.rest
  if stored ≠ actual then
    throw (.checksumMismatch stored actual)
  let (payload, _) ← readItem Payload.codec.decode cursor
  return {
    magic, version, flags
    types := payload.types
    tables := payload.tables
    name := payload.name
    references := payload.references }

end Module

end NativeWeave
