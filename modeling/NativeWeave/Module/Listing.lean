import NativeWeave.Module.Format
import NativeWeave.Text.Decimal
import NativeWeave.Text.Quoted

namespace NativeWeave

/-!
# Listings

A listing shows a module for reading: its name and references, and every type with its attributes,
fields, properties and methods.  Instructions are shown with what their operands refer to.
-/

/-- An argument of an attribute as a listing shows it. -/
def AttributeValue.listed : AttributeValue → String
  | null => "null"
  | bool value => if value then "true" else "false"
  | int value => toString value.toInt
  | string value => quoted value
  | type value => "typeof(" ++ value.text ++ ")"

/-- An attribute with its arguments between brackets. -/
def Attribute.listed (attr : Attribute) : String :=
  let shown := attr.arguments.map (·.listed)
    ++ attr.named.map fun (key, value) => key ++ " = " ++ value.listed
  if shown.isEmpty then
    "[" ++ attr.type.full ++ "]"
  else
    "[" ++ attr.type.full ++ "(" ++ ", ".intercalate shown ++ ")]"

/-- A byte offset as the name of a place in a body, with at least four hexadecimal digits. -/
def placeName (offset : Nat) : String :=
  let shown := Nat.toDigits 16 offset
  "IL_" ++ String.ofList (List.replicate (4 - shown.length) '0' ++ shown)

/-- A member reference with the type of the field or the result of the method in front. -/
def MemberRef.listed (member : MemberRef) : String :=
  let type := match member.kind with
    | .field type _ => type
    | .method signature => signature.result
  type.text ++ " " ++ member.owner.text ++ "::" ++ member.name

/-- An instruction with its operand resolved against the tables, and its target against the offsets
of the instructions. -/
def Instr.listed (tables : Tables) (starts : List Nat) (instr : Instr) : String :=
  let name := instr.opcode.mnemonic
  let operand := fun text => name ++ " " ++ text
  match instr with
  | .plain _ => name
  | .constI32 value => operand (toString value.toInt)
  | .constI64 value => operand (toString value.toInt)
  | .constF32 bits => operand (singleText bits)
  | .constF64 bits => operand (doubleText bits)
  | .constString index =>
    match tables.string? index with
    | some text => operand (quoted text)
    | none => operand s!"<bad string {index}>"
  | .slot _ index => operand (toString index.toNat)
  | .jump _ target =>
    match starts[target]? with
    | some offset => operand (placeName offset)
    | none => operand s!"<bad label {target}>"
  | .indirect _ kind => name ++ "." ++ kind.name
  | .member _ token =>
    match tables.member? token with
    | some member => operand member.listed
    | none => operand s!"<bad token {token}>"
  | .type _ token =>
    match tables.type? token with
    | some type => operand type.text
    | none => operand s!"<bad type {token}>"

/-- A text and the end of its line. -/
def line (text : String) : String :=
  text ++ "\n"

/-- Attributes, one a line, behind a margin. -/
def attributeLines (margin : String) (attributes : List Attribute) : String :=
  String.join (attributes.map fun attr => line (margin ++ attr.listed))

/-- A parameter with its type. -/
def Parameter.listed (parameter : Parameter) : String :=
  (if parameter.isOut then "out " else "") ++ parameter.type.text ++ " " ++ parameter.name

/-- The local variables and instructions of a body. -/
def Body.listed (tables : Tables) (body : Body) : String :=
  let locals :=
    if body.locals.isEmpty then ""
    else line ("    .locals (" ++ ", ".intercalate (Signature.texts body.locals) ++ ")")
  match Code.decode body.code with
  | .error cause => locals ++ line ("    // undecodable body: " ++ cause.message)
  | .ok code =>
    let starts := code.offsets
    locals ++ String.join ((starts.zip code.instrs).map fun (offset, instr) =>
      line ("    " ++ placeName offset ++ ": " ++ instr.listed tables starts))

/-- A method with its attributes and its body. -/
def Method.listed (tables : Tables) (method : Method) : String :=
  line ("  .method " ++ method.access.text ++ (if method.isStatic then " static " else " instance ")
      ++ method.result.text ++ " " ++ method.name
      ++ "(" ++ ", ".intercalate (method.parameters.map (·.listed)) ++ ")")
    ++ attributeLines "    " method.attributes
    ++ match method.body with
      | none => line "    // abstract"
      | some body => body.listed tables

/-- A field with its attributes. -/
def Field.listed (field : Field) : String :=
  line ("  .field " ++ field.access.text ++ " " ++ (if field.isStatic then "static " else "")
      ++ field.type.text ++ " " ++ field.name
      ++ match field.constant with
        | some value => " = " ++ toString value.toInt
        | none => "")
    ++ attributeLines "    " field.attributes

/-- The name of an accessor, or a dash when there is none. -/
def accessorName (methods : List Method) (accessor : Option UInt32) : String :=
  match accessor.bind fun index => methods[index.toNat]? with
  | some method => method.name
  | none => "-"

/-- A property with the names of its accessors and its attributes. -/
def Property.listed (methods : List Method) (property : Property) : String :=
  line ("  .property " ++ property.type.text ++ " " ++ property.name
      ++ " \x7b get: " ++ accessorName methods property.getter
      ++ ", set: " ++ accessorName methods property.setter ++ " \x7d")
    ++ attributeLines "    " property.attributes

/-- A type with its members. -/
def TypeDef.listed (tables : Tables) (type : TypeDef) : String :=
  let behind := fun (signature : Option Signature) =>
    match signature with
    | some signature => " : " ++ signature.text
    | none => ""
  line ((if type.isAbstract then "abstract ." else ".") ++ type.kind.text ++ " " ++ type.fullName
      ++ behind type.base ++ behind type.underlying)
    ++ attributeLines "  " type.attributes
    ++ String.join (type.fields.map (·.listed))
    ++ String.join (type.properties.map (·.listed type.methods))
    ++ String.join (type.methods.map (·.listed tables))

/-- The listing of a module. -/
def Module.listing (module : Module) : String :=
  line (".module " ++ module.name ++ s!" (version {module.version}"
      ++ (if module.isWoven then ", woven)" else ")"))
    ++ String.join (module.references.map fun name => line (".reference " ++ name))
    ++ String.join (module.types.map fun type => line "" ++ type.listed module.tables)

end NativeWeave
