import NativeWeave.Editing.Slot

namespace NativeWeave

/-!
# Storage that moves to native memory

The compiler keeps the value of a property in a hidden field.  Once the value lies in native memory
that field goes away, and code that used it directly has to call the accessors of the property
instead.  Code that cannot be changed like this is reported.
-/

/-- What stands in for a hidden field: the accessors of the property it belonged to. -/
structure BackingAccess where
  property : String
  getter : UInt32
  setter : Option UInt32
deriving DecidableEq, Repr

/-- Hidden fields by their tokens.  Of several entries for a token the first counts. -/
abbrev Backing := List (UInt32 × BackingAccess)

namespace Backing

def access? (backing : Backing) (token : UInt32) : Option BackingAccess :=
  (backing.find? (·.1 == token)).map (·.2)

def has (backing : Backing) (token : UInt32) : Bool :=
  (backing.access? token).isSome

/-- The hidden field that an instruction loads, stores or takes the address of. -/
def touched? (backing : Backing) : Instr → Option BackingAccess
  | .member .loadField token | .member .storeField token | .member .loadFieldAddress token =>
    backing.access? token
  | _ => none

/-- The instruction with its use of a hidden field turned into a call of an accessor, where there is
one. -/
def redirect (backing : Backing) (instr : Instr) : Instr :=
  match instr with
  | .member .loadField token => ((backing.access? token).map fun access =>
      Instr.call access.getter).getD instr
  | .member .storeField token => (((backing.access? token).bind (·.setter)).map
      Instr.call).getD instr
  | _ => instr

end Backing

/-- Where an instruction of a method stands in the source, as closely as that is known. -/
def Method.sourceAt (method : Method) (type : TypeDef) (code : Code) (index : Nat) :
    Option SourceLocation :=
  let declared := method.source.or type.source
  match code.lineAt? index, declared with
  | some (line, column), some place => some ⟨place.file, line, column⟩
  | _, _ => declared

namespace Backing

/-- What is wrong with an instruction that cannot be redirected. -/
def finding? (backing : Backing) (type : TypeDef) (method : Method) (code : Code)
    (instr : Instr) (index : Nat) : Option Diagnostic :=
  let report := fun (diagnostic : DiagnosticCode) (property message : String) =>
    ((Diagnostic.error diagnostic message).atSymbol (type.memberSymbol property)).atLocation
      (method.sourceAt type code index)
  match instr with
  | .member .storeField token =>
    ((backing.access? token).filter (·.setter.isNone)).map fun access =>
      report .setterStillReferenced access.property
        (s!"'{method.name}' assigns the storage of '{access.property}', which has no setter "
          ++ "after rewriting")
  | .member .loadFieldAddress token =>
    (backing.access? token).map fun access =>
      report .backingFieldAddress access.property
        (s!"'{method.name}' takes the address of the storage of '{access.property}', which moves "
          ++ "to native memory")
  | _ => none

/-- Everything that is wrong with the code of a method. -/
def findings (backing : Backing) (type : TypeDef) (method : Method) (code : Code) :
    List Diagnostic :=
  code.instrs.zipIdx.filterMap fun (instr, index) =>
    backing.finding? type method code instr index

/-- The code with all uses of hidden fields redirected. -/
def redirectCode (backing : Backing) (code : Code) : Code :=
  { code with instrs := code.instrs.map backing.redirect }

/-- The edits to a method that is no constructor, and what is wrong with its code. -/
def methodPlan (backing : Backing) (type : TypeDef) (method : Method) (index : Nat) :
    Weave (TypePlan × List Diagnostic) :=
  match method.body with
  | none => return ({}, [])
  | some body => do
    let code ← Weave.ofDecode body.toCode
    let redirected := backing.redirectCode code
    let plan := if redirected = code then ({} : TypePlan) else
      TypePlan.replaceBody index method.name (redirected.toBody body.locals)
    return (plan, backing.findings type method code)

/-- The edits to the methods of a type that keep their bodies otherwise, and what is wrong with
their code.  Constructors are edited on their own. -/
def methodPlans (backing : Backing) (type : TypeDef) (plan : TypePlan) :
    Weave (TypePlan × List Diagnostic) :=
  if backing.isEmpty then
    return ({}, [])
  else do
    let others := type.methods.zipIdx.filter fun (method, index) =>
      !method.isConstructor && !plan.replaces index && !plan.removedMethods.contains index
    let results ← others.mapM fun (method, index) => backing.methodPlan type method index
    return (TypePlan.concat (results.map (·.1)), results.flatMap (·.2))

end Backing

end NativeWeave
