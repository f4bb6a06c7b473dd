import NativeWeave.Diagnostic
import NativeWeave.Marshalling.Fragment
import NativeWeave.Verification.Stack
import NativeWeave.WeaveError

namespace NativeWeave

/-!
# Edits to a type

What is to become of a type is first worked out as a plan, from the type as it was, and then applied
at once.  Plans are put together from plans for members; in a plan made of two, the edits of the
second come after those of the first.
-/

/-- Edits to a type. -/
structure TypePlan where
  /-- Fields to add. -/
  fields : List Field := []
  /-- Methods to add. -/
  methods : List Method := []
  /-- New bodies by the index of the method; of several for one method the last counts. -/
  bodies : List (Nat × Body) := []
  /-- New names by the index of the method.  A method with a new name loses its annotations. -/
  renames : List (Nat × String) := []
  /-- Indices of methods to remove. -/
  removedMethods : List Nat := []
  /-- Names of fields to remove. -/
  removedFields : List String := []
  attributes : List Attribute := []
  /-- Code to run when the type is initialized, before anything else. -/
  prelude : Fragment := []
  /-- Names of the methods that have to be verified afterwards. -/
  touched : List String := []
deriving DecidableEq, Repr

namespace TypePlan

/-- The edits of two plans. -/
def append (first second : TypePlan) : TypePlan where
  fields := first.fields ++ second.fields
  methods := first.methods ++ second.methods
  bodies := first.bodies ++ second.bodies
  renames := first.renames ++ second.renames
  removedMethods := first.removedMethods ++ second.removedMethods
  removedFields := first.removedFields ++ second.removedFields
  attributes := first.attributes ++ second.attributes
  prelude := first.prelude.append second.prelude
  touched := first.touched ++ second.touched

instance : Append TypePlan := ⟨append⟩

/-- The edits of several plans. -/
def concat (plans : List TypePlan) : TypePlan :=
  plans.foldr append {}

/-- Give a method a new body. -/
def replaceBody (index : Nat) (name : String) (body : Body) : TypePlan where
  bodies := [(index, body)]
  touched := [name]

/-- Add a method. -/
def addMethod (method : Method) : TypePlan where
  methods := [method]
  touched := [method.name]

/-- A method gets a new body. -/
def replaces (plan : TypePlan) (index : Nat) : Bool :=
  plan.bodies.any (·.1 == index)

/-! ## Applying a plan -/

/-- Give methods their new bodies. -/
def applyBodies : List (Nat × Body) → List Method → Weave (List Method)
  | [], methods => .ok methods
  | (index, body) :: more, methods =>
    match methods[index]? with
    | none => .error (.inconsistent s!"method index {index} out of range")
    | some method => applyBodies more (methods.set index { method with body := some body })

/-- Give methods their new names. -/
def applyRenames (renames : List (Nat × String)) (methods : List Method) : List Method :=
  renames.foldl (fun methods (index, name) =>
    methods.modify index fun method => { method with name, attributes := [] }) methods

/-- A new initializer that only runs the given code. -/
def newInitializer (prelude : Fragment) : Method where
  name := Method.initializerName
  access := .owner
  flags := Method.staticFlag ||| Method.specialNameFlag
  body := some (({ instrs := prelude ++ [.ret] } : Code).toBody [])

/-- Put code in front of a body. -/
def prependCode (prelude : Fragment) (body : Body) : Weave Body := do
  let code ← Weave.ofDecode body.toCode
  match code.insert? 0 prelude with
  | some extended => return extended.toBody body.locals
  | none => throw .outOfRange

/-- Run code at the start of the initializer of a type, which is made if it is missing. -/
def installPrelude (prelude : Fragment) (type : TypeDef) : Weave TypeDef :=
  if prelude.isEmpty then
    return type
  else
    match type.methods.zipIdx.find? (·.1.isTypeInitializer) with
    | none => return type.addMethod (newInitializer prelude)
    | some (initializer, index) => do
      let body ← prependCode prelude (initializer.body.getD {})
      return { type with methods := type.methods.set index { initializer with body := some body } }

/-- Remove methods, starting from the last of them. -/
def applyRemovals (indices : List Nat) (type : TypeDef) : Weave TypeDef :=
  (indices.eraseDups.mergeSort (· ≥ ·)).foldlM (fun type index =>
    match type.removeMethod? index with
    | some (_, rest) => .ok rest
    | none => .error .outOfRange) type

/-- The type with the edits of a plan. -/
def apply (plan : TypePlan) (type : TypeDef) : Weave TypeDef := do
  let methods ← applyBodies plan.bodies type.methods
  let extended := { type with
    fields := type.fields ++ plan.fields
    attributes := type.attributes ++ plan.attributes
    methods := applyRenames plan.renames methods ++ plan.methods }
  let initialized ← installPrelude plan.prelude extended
  let reduced ← applyRemovals plan.removedMethods initialized
  return { reduced with
    fields := reduced.fields.filter fun field => !plan.removedFields.contains field.name }

/-- Verify the methods of a type that have one of the given names. -/
def verifyTouched (touched : List String) (tables : Tables) (type : TypeDef) : Weave Unit :=
  (type.methods.filter fun method => touched.contains method.name).forM fun method =>
    (method.verify tables).mapError (.verification (type.memberSymbol method.name))

end TypePlan

/-- Apply a plan to the type with an index and verify what it touched. -/
def Module.commit (module : Module) (index : Nat) (plan : TypePlan) : Weave Module :=
  match module.types[index]? with
  | none => .error (.inconsistent s!"type index {index} out of range")
  | some type => do
    let edited ← plan.apply type
    TypePlan.verifyTouched plan.touched module.tables edited
    return { module with types := module.types.set index edited }

end NativeWeave
