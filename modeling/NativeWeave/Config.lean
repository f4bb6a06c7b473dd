import NativeWeave.Text.Toml

namespace NativeWeave

/-!
# Settings

The settings say how annotations and runtime types are called, which structs have a marshaller of
their own, and whether reports are written.  They come from a configuration file; what the file does
not mention has a default, and what it mentions beyond the settings is ignored.
-/

/-- The names and conventions of a run. -/
structure Config where
  /-- Namespace of the annotations. -/
  attributeNamespace : String := "Tether.Attributes"
  /-- Namespace of the types that generated code relies on. -/
  runtimeNamespace : String := "Tether.Runtime"
  /-- Simple name of the class that every native-backed class derives from. -/
  nativeRoot : String := "NativeObject"
  /-- Types whose name ends like this stand in for others and are skipped. -/
  wrapperSuffix : String := "Wrapper"
  /-- Full names of the structs with a marshaller of their own. -/
  coreStructs : List String := ["Tether.Math.Vector", "Tether.Math.Rotator", "Tether.Math.Quat",
    "Tether.Math.Transform", "Tether.Math.IntPoint", "Tether.Math.Size2D"]
  /-- Write a report beside every woven module. -/
  sidecar : Bool := true
deriving DecidableEq, Repr

/-- Why settings could not be used. -/
inductive ConfigError
  /-- The file is no configuration file: its text is malformed or a setting has the wrong type. -/
  | malformed
  | emptyRoot
  | dottedRoot (name : String)
  | emptyNamespace
  | emptySuffix
deriving DecidableEq, Repr

/-- Text of a refusal of settings.  Malformed files have none of their own. -/
def ConfigError.message : ConfigError → String
  | malformed => "Failed to parse configuration"
  | emptyRoot => "Invalid configuration: native_root cannot be empty"
  | dottedRoot name =>
    s!"Invalid configuration: native_root '{name}' must be a simple name inside runtime_namespace"
  | emptyNamespace =>
    "Invalid configuration: attribute_namespace and runtime_namespace cannot be empty"
  | emptySuffix => "Invalid configuration: wrapper_suffix cannot be empty"

namespace Config

/-- Check that the settings can be used. -/
def validate (config : Config) : Except ConfigError Unit :=
  if config.nativeRoot.isEmpty then
    .error .emptyRoot
  else if config.nativeRoot.toList.contains '.' then
    .error (.dottedRoot config.nativeRoot)
  else if config.attributeNamespace.isEmpty || config.runtimeNamespace.isEmpty then
    .error .emptyNamespace
  else if config.wrapperSuffix.isEmpty then
    .error .emptySuffix
  else
    .ok ()

/-! ## Reading a configuration file -/

/-- A setting of a section: its value where the file has one, and otherwise the default. -/
def setting {α : Type} (read? : Toml → Option α) (found : Option Toml) (default : α) : Option α :=
  match found with
  | none => some default
  | some value => read? value

def string? : Toml → Option String
  | .string text => some text
  | _ => none

def boolean? : Toml → Option Bool
  | .boolean value => some value
  | _ => none

def strings? (value : Toml) : Option (List String) :=
  value.items?.bind (·.mapM string?)

/-- The values of a section's settings.  A section may be a table, or an array with the values in
the order of the settings; a date is a section without any of them. -/
def sectionValues? (keys : List String) : Option Toml → Option (List (Option Toml))
  | none | some .date => some (keys.map fun _ => none)
  | some section? =>
    match section?.entries?, section?.items? with
    | some entries, _ => some (keys.map (Toml.find? entries))
    | none, some items => some (keys.zipIdx.map fun (_, index) => items[index]?)
    | none, none => none

/-- The settings in the entries of a configuration file. -/
def ofEntries? (entries : List (String × Toml)) : Option Config := do
  let values ← sectionValues?
    ["attribute_namespace", "runtime_namespace", "native_root", "wrapper_suffix", "core_structs"]
    (Toml.find? entries "weaver")
  let found := fun index => values.getD index none
  let attributeNamespace ← setting string? (found 0) ({} : Config).attributeNamespace
  let runtimeNamespace ← setting string? (found 1) ({} : Config).runtimeNamespace
  let nativeRoot ← setting string? (found 2) ({} : Config).nativeRoot
  let wrapperSuffix ← setting string? (found 3) ({} : Config).wrapperSuffix
  let coreStructs ← setting strings? (found 4) ({} : Config).coreStructs
  let output ← sectionValues? ["sidecar"] (Toml.find? entries "output")
  let sidecar ← setting boolean? (output.getD 0 none) ({} : Config).sidecar
  return { attributeNamespace, runtimeNamespace, nativeRoot, wrapperSuffix, coreStructs, sidecar }

/-- The settings of a configuration file, checked. -/
def ofText (text : String) : Except ConfigError Config :=
  match (Toml.parse? text).bind ofEntries? with
  | none => .error .malformed
  | some config => config.validate.map fun _ => config

end Config

end NativeWeave
