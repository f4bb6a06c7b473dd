import NativeWeave.Bytes.Sha256
import NativeWeave.Category.Classification

namespace NativeWeave

/-!
# Hashes of struct declarations

A member that refers to a struct has to notice when that struct changes.  Structs that lie in place
and belong to the module at hand have a hash of their own by the time it is needed.  Any other
struct contributes a hash of its declaration: its name, and for every exposed field the name,
the category and in turn the hash of the struct that the field refers to.  A struct reached again
while its own hash is being computed contributes a mark in place of a hash.
-/

/-- What an exposed field adds to the hash of its struct. -/
structure DeclaredField where
  name : String
  category : String
  /-- The hash of the struct that the field refers to. -/
  nested : Option String := none
deriving DecidableEq, Repr

namespace DeclaredField

/-- The parts of a field, each behind a zero byte. -/
def bytes (field : DeclaredField) : Bytes :=
  [field.name, field.category, field.nested.getD ""].flatMap fun part => 0 :: Bytes.ofString part

end DeclaredField

/-- The hash of a declaration with the given name and exposed fields. -/
def declaredHash (name : String) (fields : List DeclaredField) : String :=
  (sha256 (Bytes.ofString "declared-struct" ++ 0 :: Bytes.ofString name
    ++ fields.flatMap (·.bytes))).toHex

/-- Stands in for the hash of a struct that holds a list of itself. -/
def selfReference : String := "self"

/-- Stands in for the hash of a struct whose hash is being computed. -/
def cycleMark (name : QualifiedName) : String := "cycle:" ++ name.full

namespace Scope

mutual

/-- The hash of a declaration, while the hashes of some structs are being computed. -/
def declaredHashWith (scope : Scope) (busy : List QualifiedName) (name : QualifiedName) :
    Remembering String := do
  match (← get).hash? name with
  | some hash => return hash
  | none =>
    if _occupied : name ∈ busy then
      return cycleMark name
    else
      let fields ← match _found : scope.resolve? name with
        | some type => scope.declaredFields (name :: busy) type.instanceFields
        | none => pure []
      let hash := declaredHash name.full fields
      modify (·.withHash name hash)
      return hash
termination_by (unvisited scope.declared busy, 0, 0)
decreasing_by exact .left _ _ (unvisited_cons_lt _occupied (mem_declared_of_resolve? _found))

/-- What the exposed fields among the given ones add to the hash of their struct. -/
def declaredFields (scope : Scope) (busy : List QualifiedName) :
    (fields : List Field) → Remembering (List DeclaredField)
  | [] => return []
  | field :: more => do
    match scope.config.findAnnotation? field.attributes Annotation.nativeProperty with
    | none => scope.declaredFields busy more
    | some attr =>
      let declared ← match ← scope.classify field.type attr.shape with
        | .error _ => pure ⟨field.name, "unsupported:" ++ field.type.text, none⟩
        | .ok category =>
          match category.hashDependency? with
          | none => pure ⟨field.name, category.label, none⟩
          | some dependency => do
            let nested ← scope.declaredHashWith busy dependency
            pure ⟨field.name, category.label, some nested⟩
      return declared :: (← scope.declaredFields busy more)
termination_by fields => (unvisited scope.declared busy, 1, fields.length)

end

/-- The hash that a member of `owner` contributes for the struct it refers to.  There is none for
structs of the module at hand that lie in place, and for categories that refer to no struct. -/
def hashOverride? (scope : Scope) (owner : QualifiedName) (category : Category) :
    Remembering (Option String) := do
  match category.hashDependency? with
  | none => return none
  | some dependency =>
    if category.embedded?.isSome && scope.isLocal dependency then
      return none
    else if dependency = owner then
      return some selfReference
    else
      return some (← scope.declaredHashWith [] dependency)

end Scope

end NativeWeave
