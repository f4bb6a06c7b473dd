import NativeWeave.Editing.Property

namespace NativeWeave

/-!
# Constructors

The native instance exists only after the constructor of the base class has run.  Values that a
constructor stores to hidden fields before that are set afterwards, which works for constants only;
anything else is reported.  What new objects need besides comes right behind those settings.
-/

/-- A constant that can be set later as well as now. -/
def Instr.isConstant : Instr → Bool
  | .plain .null | .constI32 _ | .constI64 _ | .constF32 _ | .constF64 _ | .constString _ => true
  | _ => false

/-- A constructor with its early stores taken out, the settings that they became, and what could not
be moved. -/
structure Relocation where
  code : Code
  settings : List Fragment := []
  diagnostics : List Diagnostic := []

namespace ClassSite

/-- The index of the call of a constructor of the base class or of the class itself. -/
def baseCall? (site : ClassSite) (code : Code) : Option Nat :=
  code.instrs.findIdx? fun instr =>
    match instr with
    | .member .call token => (site.source.tables.member? token).any fun member =>
      member.isConstructor && (some member.owner == site.type.base || member.owner == site.owner)
    | _ => false

/-- The stores to hidden fields in some code, by index and token. -/
def backingStores (backing : Backing) (code : Code) : List (Nat × UInt32) :=
  code.instrs.zipIdx.filterMap fun (instr, index) =>
    match instr with
    | .member .storeField token => if backing.has token then some (index, token) else none
    | _ => none

/-- The effects that a constructor has to have: those of new objects, without the initializations
that its own stores make needless. -/
def wantedEffects (effects : List ConstructionEffect) (stores : List (Nat × UInt32))
    (isConstruction : Bool) : List ConstructionEffect :=
  if isConstruction then
    effects.filter fun effect =>
      match effect with
      | .defaultInit _ _ tokens => !stores.any fun (_, token) => tokens.contains token
      | .subobject _ _ _ => true
  else
    []

/-- The constant that a store at an index stores to a field of the receiver. -/
def storedConstant? (code : Code) (index : Nat) : Option Instr :=
  if index < 2 then
    none
  else
    match code.instrs[index - 2]?, code.instrs[index - 1]? with
    | some (.slot .loadArg 0), some value => if value.isConstant then some value else none
    | _, _ => none

/-- A finding about an early store. -/
def initializerFinding (site : ClassSite) (method : Method) (code : Code) (index : Nat)
    (property message : String) : Diagnostic :=
  ((Diagnostic.error .unsupportedInitializer message).atSymbol
    (site.type.memberSymbol property)).atLocation (method.sourceAt site.type code index)

/-- Take an early store to a hidden field out of a constructor. -/
def relocate (site : ClassSite) (method : Method) (access : BackingAccess) (index : Nat)
    (relocation : Relocation) : Weave Relocation :=
  let code := relocation.code
  let refuse := fun (diagnostic : Diagnostic) =>
    { relocation with diagnostics := relocation.diagnostics ++ [diagnostic] }
  match access.setter with
  | none =>
    return refuse (site.initializerFinding method code index access.property
      (s!"initializer of '{access.property}' runs before the base constructor call, but the value "
        ++ "has no setter to move it to"))
  | some setter =>
    match storedConstant? code index with
    | none =>
      return refuse (((site.initializerFinding method code index access.property
        s!"unsupported initializer shape for '{access.property}'").withNote
          "only constant initializers can be moved after the base constructor call").withHelp
            "assign the value in the constructor body after calling the base constructor")
    | some value =>
      match code.removeRange? (index - 2) 3 with
      | none => throw .outOfRange
      | some (_, rest) =>
        return { relocation with
          code := rest
          settings := [.loadArg 0, value, .call setter] :: relocation.settings }

/-- Take all early stores out of a constructor, the last of them first, so that the places of the
others stay as they are. -/
def relocateAll (site : ClassSite) (backing : Backing) (method : Method) (code : Code)
    (early : List (Nat × UInt32)) : Weave Relocation :=
  early.foldrM (fun (index, token) relocation =>
    match backing.access? token with
    | none => .ok relocation
    | some access => site.relocate method access index relocation) { code }

/-- Code for an effect. -/
def emitEffect (site : ClassSite) (effect : ConstructionEffect) : Emit Fragment := do
  let base ← Emit.thisNative site.config
  match effect with
  | .defaultInit category offset _ => category.defaultInit site.config ⟨base, some offset⟩
  | .subobject target nativeName offset =>
    Emit.subobject site.config target nativeName ⟨base, some offset⟩

/-- A report of a constructor that does not call the base class. -/
def missingBaseCall (site : ClassSite) (method : Method) : Diagnostic :=
  ((Diagnostic.error .baseCallNotFound
    (s!"constructor of '{site.type.fullName}' has no base constructor call, so member "
      ++ "initialization cannot be placed after it")).atSymbol site.type.fullName).atLocation
        (method.source.or site.type.source)

/-- The edits to a constructor that calls the base class at an index, and what is wrong with it. -/
def planConstruction (site : ClassSite) (backing : Backing) (effects : List ConstructionEffect)
    (method : Method) (index : Nat) (locals : List Signature) (code : Code) (baseCall : Nat) :
    Emit (TypePlan × List Diagnostic) := do
  let early := (backingStores backing code).filter (·.1 < baseCall)
  let relocation ← site.relocateAll backing method code early
  if !relocation.diagnostics.isEmpty then
    return ({}, relocation.diagnostics)
  else
    let moved := 3 * relocation.settings.length
    if baseCall < moved then throw .outOfRange
    let diagnostics := backing.findings site.type method relocation.code
    let emitted ← effects.mapM site.emitEffect
    let injected := relocation.settings.flatten ++ Fragment.concat emitted
    match (backing.redirectCode relocation.code).insert? (baseCall - moved + 1) injected with
    | none => throw .outOfRange
    | some result =>
      return (.replaceBody index method.name (result.toBody locals), diagnostics)

/-- The edits to a constructor, and what is wrong with it. -/
def planConstructor (site : ClassSite) (backing : Backing) (effects : List ConstructionEffect)
    (index : Nat) (method : Method) : Emit (TypePlan × List Diagnostic) := do
  match method.body with
  | none => return ({}, [])
  | some body =>
    let code ← Weave.ofDecode body.toCode
    let isConstruction := site.binding.construction == some index
    let wanted := wantedEffects effects (backingStores backing code) isConstruction
    if wanted.isEmpty && !code.instrs.any fun instr => (backing.touched? instr).isSome then
      return ({}, [])
    else
      match site.baseCall? code with
      | none => return ({}, [site.missingBaseCall method])
      | some baseCall =>
        site.planConstruction backing wanted method index body.locals code baseCall

end ClassSite

end NativeWeave
