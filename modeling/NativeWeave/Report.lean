import NativeWeave.Binding.Fingerprint

namespace NativeWeave

/-!
# Reports

A report goes with every woven module.  It describes the annotated types with their members and
their hashes, so that tools of the native side need not read the module.
-/

/-- The description of a member. -/
def MemberBinding.report (member : MemberBinding) : Json :=
  .object [
    ("name", .string member.name),
    ("native_name", .string member.nativeName),
    ("category", .string member.category.label),
    ("flags", .strings member.flags.names)]

/-- A member of an object that is left out when there is nothing to say. -/
def Json.optional (key : String) : Option Json → List (String × Json)
  | some value => [(key, value)]
  | none => []

/-- A list that is left out when it is empty. -/
def Json.nonEmpty (key : String) (items : List Json) : List (String × Json) :=
  if items.isEmpty then [] else [(key, .array items)]

/-- The description of a function. -/
def FunctionBinding.report (function : FunctionBinding) : Json :=
  .object ([
    ("name", .string function.name),
    ("native_name", .string function.nativeName),
    ("flags", .strings function.flags.names),
    ("params", .array (function.parameters.map (·.report)))]
    ++ Json.optional "return_value" (function.result.map (·.report)))

/-- What is said about an annotated type. -/
structure TypeReport where
  kind : NativeTypeKind
  name : QualifiedName
  nativeName : String
  hash : String
  baseHash : Option String := none
  members : List MemberBinding := []
  functions : List FunctionBinding := []
deriving DecidableEq, Repr

namespace TypeReport

def toJson (report : TypeReport) : Json :=
  .object ([
    ("kind", .string report.kind.text),
    ("name", .string report.name.full),
    ("native_name", .string report.nativeName),
    ("hash", .string report.hash)]
    ++ Json.optional "base_hash" (report.baseHash.map .string)
    ++ Json.nonEmpty "members" (report.members.map (·.report))
    ++ Json.nonEmpty "functions" (report.functions.map (·.report)))

/-- The report of a type in a module with the given name, whose hash has to be known. -/
def ofBinding (known : Fingerprints) (module : String) (binding : TypeBinding) :
    Weave TypeReport :=
  let missing : WeaveError := .missingDependencyHash module binding.name.full
  let report : TypeReport :=
    { kind := binding.kind, name := binding.name, nativeName := binding.nativeName, hash := "" }
  match binding with
  | .ofClass type =>
    match known.class? type.name with
    | none => .error missing
    | some hashes => .ok { report with
        hash := hashes.own, baseHash := hashes.base
        members := type.members, functions := type.functions }
  | .ofStruct type =>
    match known.struct? type.name with
    | none => .error missing
    | some hash => .ok { report with hash, members := type.members }
  | .ofEnum type => .ok { report with hash := type.hash }

end TypeReport

/-- What is said about a woven module. -/
structure Report where
  module : String
  types : List TypeReport
deriving DecidableEq, Repr

namespace Report

def toJson (report : Report) : Json :=
  .object [
    ("module", .string report.module),
    ("types", .array (report.types.map (·.toJson)))]

/-- The report of a module with its bindings, in the order of the declarations. -/
def ofBindings (known : Fingerprints) (module : String) (bindings : Bindings) : Weave Report := do
  return ⟨module, ← bindings.mapM (TypeReport.ofBinding known module)⟩

end Report

end NativeWeave
