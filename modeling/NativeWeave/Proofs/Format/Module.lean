import NativeWeave.Module.Format
import NativeWeave.Proofs.Format.Signature

namespace NativeWeave

/-!
# Modules survive storage

What can be stored of a record is what can be stored of its parts.  From the signatures up to the
module each record gets that condition and the law that its format restores it.
-/

/-! ## Attributes -/

/-- The text or the signature of an argument can be stored. -/
def AttributeValue.Fits : AttributeValue → Prop
  | .string value => TextFits value
  | .type value => value.Fits
  | .null | .bool _ | .int _ => True

theorem AttributeValue.restores {value : AttributeValue} (fits : value.Fits) :
    AttributeValue.codec.Restores value := by
  cases value with
  | null => exact .tagged rfl (.pure AttributeValue.null)
  | bool value => exact .tagged rfl ((Codec.restores_flag value).map AttributeValue.bool)
  | int value => exact .tagged rfl ((Codec.restores_i64 value).map AttributeValue.int)
  | string value => exact .tagged rfl ((Codec.restores_string fits).map AttributeValue.string)
  | type value => exact .tagged rfl ((Signature.restores fits).map AttributeValue.type)

/-- The name and the value of a named argument can be stored. -/
def NamedArgumentFits (argument : String × AttributeValue) : Prop :=
  TextFits argument.1 ∧ argument.2.Fits

@[mk_iff] structure Attribute.Fits (attr : Attribute) : Prop where
  type : attr.type.Fits
  arguments : ListFits AttributeValue.Fits attr.arguments
  named : ListFits NamedArgumentFits attr.named

namespace Attribute

theorem restores_type {name : QualifiedName} (fits : name.Fits) : typeCodec.Restores name := by
  have named : Signature.codec.Restores (.named name) := Signature.restores fits
  exact .offset_bind fun _ => named.bind_nil (.pure name)

theorem restores {attr : Attribute} (fits : attr.Fits) : Attribute.codec.Restores attr :=
  .convert ((restores_type fits.type).and
    ((Codec.restores_list_of_fits AttributeValue.restores fits.arguments).and
      (Codec.restores_list_of_fits
        (fun fit => (Codec.restores_string fit.1).and (AttributeValue.restores fit.2))
        fits.named))) rfl

theorem restores_all {attributes : List Attribute} (fits : ListFits Attribute.Fits attributes) :
    Attribute.codec.list.Restores attributes :=
  Codec.restores_list_of_fits restores fits

end Attribute

/-! ## Members -/

/-- The name of the source file can be stored. -/
def SourceLocation.Fits (location : SourceLocation) : Prop :=
  TextFits location.file

theorem SourceLocation.restores {location : SourceLocation} (fits : location.Fits) :
    SourceLocation.codec.Restores location :=
  .convert ((Codec.restores_string fits).and
    ((Codec.restores_u32 location.line).and (Codec.restores_u32 location.column))) rfl

theorem SourceLocation.restores_option {source : Option SourceLocation}
    (fits : OptionFits SourceLocation.Fits source) : SourceLocation.codec.option.Restores source :=
  Codec.restores_option_of_fits SourceLocation.restores fits

theorem Access.restores (access : Access) : Access.codec.Restores access :=
  .enumeration (Access.ofTag?_tag access)

@[mk_iff] structure Field.Fits (field : Field) : Prop where
  name : TextFits field.name
  type : field.type.Fits
  attributes : ListFits Attribute.Fits field.attributes
  source : OptionFits SourceLocation.Fits field.source

theorem Field.restores {field : Field} (fits : field.Fits) : Field.codec.Restores field :=
  .convert ((Codec.restores_string fits.name).and ((Signature.restores fits.type).and
    ((Access.restores field.access).and ((Codec.restores_u32 field.flags).and
      ((Codec.Restores.option fun constant _ => Codec.restores_i64 constant).and
        ((Attribute.restores_all fits.attributes).and
          (SourceLocation.restores_option fits.source))))))) rfl

@[mk_iff] structure Property.Fits (property : Property) : Prop where
  name : TextFits property.name
  type : property.type.Fits
  attributes : ListFits Attribute.Fits property.attributes
  source : OptionFits SourceLocation.Fits property.source

theorem Property.restores {property : Property} (fits : property.Fits) :
    Property.codec.Restores property :=
  .convert ((Codec.restores_string fits.name).and ((Signature.restores fits.type).and
    ((Codec.Restores.option fun getter _ => Codec.restores_u32 getter).and
      ((Codec.Restores.option fun setter _ => Codec.restores_u32 setter).and
        ((Attribute.restores_all fits.attributes).and
          (SourceLocation.restores_option fits.source)))))) rfl

@[mk_iff] structure Parameter.Fits (parameter : Parameter) : Prop where
  name : TextFits parameter.name
  type : parameter.type.Fits
  attributes : ListFits Attribute.Fits parameter.attributes

theorem Parameter.restores {parameter : Parameter} (fits : parameter.Fits) :
    Parameter.codec.Restores parameter :=
  .convert ((Codec.restores_string fits.name).and ((Signature.restores fits.type).and
    ((Codec.restores_u32 parameter.flags).and (Attribute.restores_all fits.attributes)))) rfl

theorem LineEntry.restores (entry : LineEntry) : LineEntry.codec.Restores entry :=
  .convert ((Codec.restores_u32 entry.offset).and
    ((Codec.restores_u32 entry.line).and (Codec.restores_u32 entry.column))) rfl

@[mk_iff] structure Body.Fits (body : Body) : Prop where
  locals : ListFits Signature.Fits body.locals
  code : body.code.length < 2 ^ 32
  lines : body.lines.length < 2 ^ 32

theorem Body.restores {body : Body} (fits : body.Fits) : Body.codec.Restores body :=
  .convert ((Codec.restores_list_of_fits Signature.restores fits.locals).and
    ((Codec.restores_blob fits.code).and
      (Codec.Restores.list fits.lines fun entry _ => LineEntry.restores entry))) rfl

@[mk_iff] structure Method.Fits (method : Method) : Prop where
  name : TextFits method.name
  parameters : ListFits Parameter.Fits method.parameters
  result : method.result.Fits
  body : OptionFits Body.Fits method.body
  attributes : ListFits Attribute.Fits method.attributes
  source : OptionFits SourceLocation.Fits method.source

theorem Method.restores {method : Method} (fits : method.Fits) : Method.codec.Restores method :=
  .convert ((Codec.restores_string fits.name).and ((Access.restores method.access).and
    ((Codec.restores_u32 method.flags).and
      ((Codec.restores_list_of_fits Parameter.restores fits.parameters).and
        ((Signature.restores fits.result).and
          ((Codec.restores_option_of_fits Body.restores fits.body).and
            ((Attribute.restores_all fits.attributes).and
              (SourceLocation.restores_option fits.source)))))))) rfl

/-! ## Types -/

@[mk_iff] structure TypeDef.Fits (type : TypeDef) : Prop where
  name : TextFits type.name
  namespaceName : TextFits type.namespaceName
  base : OptionFits Signature.Fits type.base
  underlying : OptionFits Signature.Fits type.underlying
  attributes : ListFits Attribute.Fits type.attributes
  fields : ListFits Field.Fits type.fields
  properties : ListFits Property.Fits type.properties
  methods : ListFits Method.Fits type.methods
  source : OptionFits SourceLocation.Fits type.source

theorem TypeKind.restores (kind : TypeKind) : TypeKind.codec.Restores kind :=
  .enumeration (TypeKind.ofTag?_tag kind)

theorem TypeDef.restores {type : TypeDef} (fits : type.Fits) : TypeDef.codec.Restores type :=
  .convert ((Codec.restores_string fits.name).and ((Codec.restores_string fits.namespaceName).and
    ((TypeKind.restores type.kind).and ((Codec.restores_u32 type.flags).and
      ((Codec.restores_option_of_fits Signature.restores fits.base).and
        ((Codec.restores_option_of_fits Signature.restores fits.underlying).and
          ((Attribute.restores_all fits.attributes).and
            ((Codec.restores_list_of_fits Field.restores fits.fields).and
              ((Codec.restores_list_of_fits Property.restores fits.properties).and
                ((Codec.restores_list_of_fits Method.restores fits.methods).and
                  (SourceLocation.restores_option fits.source))))))))))) rfl

/-! ## References -/

@[mk_iff] structure MethodSignature.Fits (signature : MethodSignature) : Prop where
  parameters : ListFits Signature.Fits signature.parameters
  result : signature.result.Fits

theorem MethodSignature.restores {signature : MethodSignature} (fits : signature.Fits) :
    MethodSignature.codec.Restores signature :=
  .convert ((Codec.restores_flag signature.hasThis).and
    ((Codec.restores_list_of_fits Signature.restores fits.parameters).and
      (Signature.restores fits.result))) rfl

/-- All signatures of a referenced member can be stored. -/
def MemberKind.Fits : MemberKind → Prop
  | .field type _ => type.Fits
  | .method signature => signature.Fits

theorem MemberKind.restores {kind : MemberKind} (fits : kind.Fits) :
    MemberKind.codec.Restores kind := by
  cases kind with
  | field type isStatic =>
    exact .tagged rfl (((Signature.restores fits).and (Codec.restores_flag isStatic)).map _)
  | method signature =>
    exact .tagged rfl ((MethodSignature.restores fits).map MemberKind.method)

@[mk_iff] structure MemberRef.Fits (member : MemberRef) : Prop where
  owner : member.owner.Fits
  name : TextFits member.name
  kind : member.kind.Fits

theorem MemberRef.restores {member : MemberRef} (fits : member.Fits) :
    MemberRef.codec.Restores member :=
  .convert ((Signature.restores fits.owner).and
    ((Codec.restores_string fits.name).and (MemberKind.restores fits.kind))) rfl

/-! ## Modules -/

@[mk_iff] structure Tables.Fits (tables : Tables) : Prop where
  strings : ListFits TextFits tables.strings
  members : ListFits MemberRef.Fits tables.members
  types : ListFits Signature.Fits tables.types

namespace Module

/-- Every number of items and of bytes in a module can be stored. -/
@[mk_iff] structure Fits (module : Module) : Prop where
  types : ListFits TypeDef.Fits module.types
  tables : module.tables.Fits
  name : TextFits module.name
  references : ListFits TextFits module.references

theorem restores_payload {module : Module} (fits : module.Fits) :
    Payload.codec.Restores module.payload :=
  .convert ((Codec.restores_list_of_fits Codec.restores_string fits.tables.strings).and
    ((Codec.restores_list_of_fits TypeDef.restores fits.types).and
      ((Codec.restores_list_of_fits MemberRef.restores fits.tables.members).and
        ((Codec.restores_list_of_fits Signature.restores fits.tables.types).and
          ((Codec.restores_string fits.name).and
            (Codec.restores_list_of_fits Codec.restores_string fits.references)))))) rfl

theorem readItem_of_reads {α : Type} {decoder : Decoder α} {bytes : Bytes} {value : α}
    (reads : decoder.Reads bytes value) (offset : Nat) (rest : Bytes) :
    readItem decoder ⟨offset, bytes ++ rest⟩ = .ok (value, ⟨offset + bytes.length, rest⟩) := by
  rw [readItem, reads offset rest]

/-- Behind a valid header with the check word of the payload, what the payload is read as makes the
module. -/
theorem decode_of_reads (flags : UInt32) {bytes : Bytes} {payload : Payload}
    (reads : Payload.codec.decode.Reads bytes payload) :
    decode (expectedMagic ++ Codec.u32.encode currentVersion ++ Codec.u32.encode flags
        ++ Codec.u32.encode (crc32 bytes) ++ bytes)
      = .ok ⟨expectedMagic, currentVersion, flags, payload.types, payload.tables, payload.name,
          payload.references⟩ := by
  have payloadRead := readItem_of_reads reads
  rw [← List.append_nil bytes, decode, Cursor.start, show 4 = expectedMagic.length from rfl]
  simp only [List.append_assoc, readItem_of_reads (Decoder.reads_take _),
    readItem_of_reads (Codec.restores_u32 _), payloadRead, bind, Except.bind, ne_eq,
    not_true_eq_false, if_false]
  rfl

/-- A module of the current version is read back as it was written. -/
theorem decode_encode_of_fits (module : Module) (magic : module.magic = [0x54, 0x45, 0x54, 0x48])
    (version : module.version = 1) (fits : module.Fits) : decode module.encode = .ok module := by
  have written := decode_of_reads module.flags (restores_payload fits)
  rcases module with ⟨found, number, flags, types, tables, name, references⟩
  obtain rfl : found = expectedMagic := magic
  obtain rfl : number = currentVersion := version
  exact written

/-- A module with a member that refers to a nested generic type, and with code and annotations. -/
def sample : Module where
  magic := expectedMagic
  version := currentVersion
  flags := 3
  types := [{
    name := "Pawn"
    namespaceName := "Game"
    base := some (.named ⟨"Engine", "Object"⟩)
    attributes := [{
      type := ⟨"Engine", "NativeClass"⟩
      arguments := [.null, .bool true, .type (.array (.byRef .i32))]
      named := [("Name", .string "APawn"), ("Rank", .int (-1))] }]
    fields := [{
      name := "grid"
      type := .generic ⟨"System", "List"⟩ [.array (.generic ⟨"System", "List"⟩ [.string]), .bool]
      constant := some 7 }]
    properties := [{ name := "Health", type := .i32, getter := some 0 }]
    methods := [{
      name := "get_Health"
      parameters := [{ name := "scale", type := .i32 }]
      result := .i32
      body := some { locals := [.i32], code := [0x04, 0xE0], lines := [⟨0, 12, 5⟩] }
      source := some ⟨"Pawn.cs", 12, 5⟩ }] }]
  tables := {
    strings := ["Pawn"]
    members := [.instanceMethod (.named ⟨"Game", "Pawn"⟩) "Tick" [.byRef .i32] .void]
    types := [.array .string] }
  name := "Game"
  references := ["Engine"]

theorem fits_sample : sample.Fits := by
  simp +decide [sample, fits_iff, Tables.fits_iff, TypeDef.fits_iff, Method.fits_iff,
    Property.fits_iff, Field.fits_iff, Body.fits_iff, Parameter.fits_iff, Attribute.fits_iff,
    MemberRef.fits_iff, MemberRef.instanceMethod, MethodSignature.fits_iff, MemberKind.Fits,
    SourceLocation.Fits, NamedArgumentFits, AttributeValue.Fits, Signature.Fits,
    Signature.FitsAll, QualifiedName.fits_iff, ListFits, OptionFits]
  rintro _ _ (⟨rfl, rfl⟩ | ⟨rfl, rfl⟩) <;> exact ⟨by decide, by decide⟩

theorem decode_encode_sample :
    sample.magic = [0x54, 0x45, 0x54, 0x48] ∧ sample.version = 1 ∧ sample.Fits ∧
      decode sample.encode = .ok sample :=
  ⟨rfl, rfl, fits_sample, decode_encode_of_fits sample rfl rfl fits_sample⟩

end Module

end NativeWeave
