import NativeWeave.Editing.Slot

namespace NativeWeave

/-!
# Marshalling members of structs

A struct that has other bytes on the native side gets a constructor that reads all exposed fields
from native memory and a method that writes them there.
-/

/-- Code for one field: edits, the code that reads it and the code that writes it. -/
structure FieldCode where
  plan : TypePlan
  read : Fragment
  write : Fragment

namespace StructBinding

/-- The declaration of the field that a member exposes. -/
def exposedField (type : TypeDef) (member : MemberBinding) : Weave Field :=
  match member.origin with
  | .field index =>
    Weave.ofOption type.fields[index]? s!"field '{member.name}' moved during rewriting"
  | _ => .error (.inconsistent s!"struct member '{member.name}' is not a field")

/-- Code for the field that a member exposes.  A fixed array works on native memory itself and has
nothing to write. -/
def fieldCode (config : Config) (type : TypeDef) (classPtr : UInt32) (member : MemberBinding) :
    Emit FieldCode := do
  let field ← exposedField type member
  let slots ← memberSlots type.signature member.name member.category
  let fill ← Prelude.member config classPtr member.nativeName slots.value
  let token ← Emit.member (.field type.signature field.name field.type)
  let address : NativeAddress := ⟨.argument 1, some slots.value.offset⟩
  let value ← member.category.fromNative config member.valueType slots.value address
  let write ← if member.category.isArray then pure [] else
    member.category.toNative config member.valueType slots.value address (.thisField token)
  return { plan := slots.plan ++ ({ prelude := fill } : TypePlan)
           read := Fragment.concat [[.loadArg 0], value, [.storeField token]]
           write }

/-- The edits that give a struct its marshalling members. -/
def marshalPlan (config : Config) (type : TypeDef) (binding : StructBinding) :
    Emit TypePlan := do
  let classPtr ← staticSlot type.signature Naming.nativeClassPtr .intPtr
  let size ← staticSlot type.signature Naming.nativeDataSize .i32
  let findType ← Prelude.nativeType config binding.nativeName classPtr.value
  let findSize ← Prelude.queryHandle config .structSize classPtr.value size.value
  let fields ← binding.members.mapM (fieldCode config type classPtr.value)
  let reader := Fragment.concat (fields.map (·.read) ++ [[.ret]])
  let writer := Fragment.concat (fields.map (·.write) ++ [[.ret]])
  let parameters := [("buffer", Signature.intPtr)]
  let constructor := { generatedMethod Method.constructorName parameters reader [] with
    flags := Method.specialNameFlag }
  return classPtr.plan ++ size.plan ++ ({ prelude := findType ++ findSize } : TypePlan)
    ++ TypePlan.concat (fields.map (·.plan)) ++ TypePlan.addMethod constructor
    ++ TypePlan.addMethod (generatedMethod Naming.toNative parameters writer [])
    ++ ({ touched := [Method.initializerName] } : TypePlan)

/-- The edits that mark a struct as having the same bytes on both sides. -/
def blittablePlan (config : Config) : TypePlan where
  attributes := [{ type := QualifiedName.parse (config.annotationName Annotation.blittable) }]

/-- The edits to an annotated struct.  A struct with a marshaller of its own keeps it and is not
edited. -/
def plan? (config : Config) (type : TypeDef) (binding : StructBinding) :
    Emit (Option TypePlan) := do
  if binding.blittable then
    return some (blittablePlan config)
  else if config.isCoreStruct binding.name then
    return none
  else
    return some (← binding.marshalPlan config type)

end StructBinding

end NativeWeave
