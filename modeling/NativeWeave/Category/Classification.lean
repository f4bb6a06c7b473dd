import NativeWeave.Category.Outline

namespace NativeWeave

/-!
# Classification

Every type that crosses the native boundary is put into a category.  Answers are remembered, because
the same types are asked for again and again.  Structs of the module at hand may refer to
themselves; while the fields of a struct are examined the struct counts as busy, and a busy struct
is taken to be a generic one.  Such an assumed answer is not remembered, but answers that rest on
it are.

Structs only become busy while they are not busy already, so that the number of declarations which
are not busy bounds the depth of the recursion.
-/

/-- Answers given so far. -/
structure Memory where
  categories : List ((Signature × MemberShape) × Except Refusal Category) := []
  reprs : List (QualifiedName × StructRepr) := []
  hashes : List (QualifiedName × String) := []

/-- A computation that remembers answers. -/
abbrev Remembering := StateM Memory

namespace Memory

def category? (memory : Memory) (type : Signature) (shape : MemberShape) :
    Option (Except Refusal Category) :=
  (memory.categories.find? (·.1 = (type, shape))).map (·.2)

def repr? (memory : Memory) (name : QualifiedName) : Option StructRepr :=
  (memory.reprs.find? (·.1 = name)).map (·.2)

def hash? (memory : Memory) (name : QualifiedName) : Option String :=
  (memory.hashes.find? (·.1 = name)).map (·.2)

def withCategory (memory : Memory) (type : Signature) (shape : MemberShape)
    (answer : Except Refusal Category) : Memory :=
  { memory with categories := ((type, shape), answer) :: memory.categories }

def withRepr (memory : Memory) (name : QualifiedName) (repr : StructRepr) : Memory :=
  { memory with reprs := (name, repr) :: memory.reprs }

def withHash (memory : Memory) (name : QualifiedName) (hash : String) : Memory :=
  { memory with hashes := (name, hash) :: memory.hashes }

end Memory

/-- The fields that instances of a type have. -/
def TypeDef.instanceFields (type : TypeDef) : List Field :=
  type.fields.filter (!·.isStatic)

namespace Scope

theorem mem_declared_of_isLocal {scope : Scope} {name : QualifiedName}
    (declared : scope.isLocal name = true) : name ∈ scope.declared := by
  obtain ⟨index, found⟩ := Option.isSome_iff_exists.mp declared
  obtain ⟨inRange, selected, _⟩ := List.findIdx?_eq_some_iff_getElem.mp found
  simp only [Bool.and_eq_true, beq_iff_eq] at selected
  refine List.mem_map.mpr
    ⟨scope.module.types[index], List.mem_append_left _ (List.getElem_mem inRange), ?_⟩
  cases name
  simp_all [TypeDef.qualifiedName]

/-- The representation of a struct that another module declares, which its annotations give. -/
def foreignRepr? (scope : Scope) (type : TypeDef) : Option StructRepr :=
  if scope.config.isAnnotated type.attributes Annotation.blittable then some .blittable
  else if scope.config.isAnnotated type.attributes Annotation.nativeStruct then some .generic
  else none

/-- The category of a container with elements of a category, which must not be containers. -/
def containerOf (container : Signature) (wrap : Category → Category)
    (inner : Except Refusal Category) : Except Refusal Category := do
  let category ← inner
  if category.isSimple then .ok (wrap category) else .error (.nestedContainer container)

mutual

/-- The category of a type, as a member of the given shape has it, while some structs are busy. -/
def classifyWith (scope : Scope) (busy : List QualifiedName) (type : Signature)
    (shape : MemberShape) : Remembering (Except Refusal Category) := do
  match (← get).category? type shape with
  | some answer => return answer
  | none =>
    let answer ← scope.classifyAnew busy type shape
    modify (·.withCategory type shape answer)
    return answer
termination_by (unvisited scope.declared busy, 1, 2 * sizeOf type + 1)

/-- The category of a type about which nothing is remembered. -/
def classifyAnew (scope : Scope) (busy : List QualifiedName) (type : Signature)
    (shape : MemberShape) : Remembering (Except Refusal Category) :=
  match _found : scope.outline type shape with
  | .error refusal => return .error refusal
  | .ok (.settled category) => return .ok category
  | .ok (.struct struct owner) => do
    match ← scope.reprWith? busy struct with
    | none => return .error (.unsupported type)
    | some repr =>
      let nativeName := scope.config.nativeTypeName struct Annotation.nativeStruct
      return .ok (.struct repr nativeName owner)
  | .ok (.array element dim) =>
    return containerOf type (.array · element dim) (← scope.classifyWith busy element {})
  | .ok (.list element) =>
    return containerOf type (.list · element) (← scope.classifyWith busy element {})
termination_by (unvisited scope.declared busy, 1, 2 * sizeOf type)
decreasing_by
  · exact .right _ (.left _ _ (by decide))
  · have smaller := sizeOf_element_lt _found rfl
    exact .right _ (.right _ (by omega))
  · have smaller := sizeOf_element_lt _found rfl
    exact .right _ (.right _ (by omega))

/-- The representation of a struct, if it can be bound. -/
def reprWith? (scope : Scope) (busy : List QualifiedName) (type : TypeDef) :
    Remembering (Option StructRepr) := do
  let name := type.qualifiedName
  if scope.config.isCoreStruct name then
    return some .core
  else
    match (← get).repr? name with
    | some repr => return some repr
    | none =>
      if _declared : scope.isLocal name then
        if !scope.config.isAnnotated type.attributes Annotation.nativeStruct then
          return none
        else if _occupied : name ∈ busy then
          return some .generic
        else
          let blittable ← scope.areBlittable (name :: busy) type.instanceFields
          let repr := if blittable then StructRepr.blittable else StructRepr.generic
          modify (·.withRepr name repr)
          return some repr
      else
        match scope.foreignRepr? type with
        | none => return none
        | some repr =>
          modify (·.withRepr name repr)
          return some repr
termination_by (unvisited scope.declared busy, 0, 0)
decreasing_by exact .left _ _ (unvisited_cons_lt _occupied (mem_declared_of_isLocal _declared))

/-- All fields are exposed and have the same bytes on both sides.  The first field that fails ends
the examination. -/
def areBlittable (scope : Scope) (busy : List QualifiedName) :
    (fields : List Field) → Remembering Bool
  | [] => return true
  | field :: more => do
    match scope.config.findAnnotation? field.attributes Annotation.nativeProperty with
    | none => return false
    | some attr =>
      match ← scope.classifyWith busy field.type attr.shape with
      | .error _ => return false
      | .ok category =>
        if category.isBlittable then scope.areBlittable busy more else return false
termination_by fields => (unvisited scope.declared busy, 2, fields.length)

end

/-- The category of a type, as a member of the given shape has it. -/
def classify (scope : Scope) (type : Signature) (shape : MemberShape) :
    Remembering (Except Refusal Category) :=
  scope.classifyWith [] type shape

/-- The representation of a struct, if it can be bound. -/
def structRepr? (scope : Scope) (type : TypeDef) : Remembering (Option StructRepr) :=
  scope.reprWith? [] type

end Scope

end NativeWeave
