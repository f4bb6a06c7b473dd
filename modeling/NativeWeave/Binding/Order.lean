import NativeWeave.Binding.Basic
import NativeWeave.Unvisited
import NativeWeave.WeaveError

namespace NativeWeave

/-!
# The order of processing

A struct comes after every annotated struct that lies in place inside of it, and a class after its
annotated base classes.  Elements of lists lie elsewhere and set no order.  Where embedding or
inheritance leads back to where it started there is no order, and the way round is reported.
-/

namespace Bindings

/-! ## Structs -/

/-- The binding whose members say what a struct embeds.  Of several structs of one name it is the
last. -/
def layout? (bindings : Bindings) (name : QualifiedName) : Option StructBinding :=
  bindings.structs.reverse.find? (·.name == name)

/-- The annotated structs that lie in place inside a struct, each of them once. -/
def embedded (bindings : Bindings) (binding : StructBinding) : List QualifiedName :=
  ((binding.members.filterMap (·.category.embedded?)).filter fun name =>
    (bindings.findStruct? name).isSome).eraseDups

theorem mem_of_layout? {bindings : Bindings} {name : QualifiedName} {binding : StructBinding}
    (found : bindings.layout? name = some binding) : name ∈ bindings.structs.map (·.name) := by
  have member := List.mem_reverse.mp (List.mem_of_find?_eq_some found)
  have same := List.find?_some found
  exact List.mem_map.mpr ⟨binding, member, by simpa using same⟩

/-- The names on a path from a name on, followed by that name.  The path has its last step first. -/
def cycleFrom (path : List QualifiedName) (name : QualifiedName) : List String :=
  ((path.reverse.dropWhile (· != name)) ++ [name]).map (·.full)

mutual

/-- Put a struct behind the structs that it embeds, which follow `order` if they are not in it.  The
path leads from the first struct of the visit to this one. -/
def visit (bindings : Bindings) (path : List QualifiedName) (order : List QualifiedName)
    (name : QualifiedName) : Weave (List QualifiedName) :=
  if _fresh : name ∈ path then
    .error (.dependencyCycle (cycleFrom path name))
  else if name ∈ order then
    .ok order
  else
    match _known : bindings.layout? name with
    | none => .ok (order ++ [name])
    | some binding => do
      let earlier ← bindings.visitAll (name :: path) order (bindings.embedded binding)
      return earlier ++ [name]
termination_by (unvisited (bindings.structs.map (·.name)) path, 0, 0)
decreasing_by exact .left _ _ (unvisited_cons_lt _fresh (mem_of_layout? _known))

/-- Visit structs one after another. -/
def visitAll (bindings : Bindings) (path : List QualifiedName) (order : List QualifiedName) :
    (names : List QualifiedName) → Weave (List QualifiedName)
  | [] => .ok order
  | name :: more => do
    bindings.visitAll path (← bindings.visit path order name) more
termination_by names => (unvisited (bindings.structs.map (·.name)) path, 1, names.length)

end

/-- The names of the annotated structs, each behind the structs that it embeds. -/
def structOrder (bindings : Bindings) : Weave (List QualifiedName) :=
  bindings.visitAll [] [] (bindings.structs.map (·.name))

/-! ## Classes -/

theorem mem_of_findClass? {bindings : Bindings} {name : QualifiedName} {binding : ClassBinding}
    (found : bindings.findClass? name = some binding) : name ∈ bindings.classes.map (·.name) := by
  have member := List.mem_of_find?_eq_some found
  have same := List.find?_some found
  exact List.mem_map.mpr ⟨binding, member, by simpa using same⟩

/-- Extend a chain of base classes upwards from a base, up to a class that is ordered or has no
binding.  The chain has its uppermost class first. -/
def ancestors (bindings : Bindings) (order chain : List QualifiedName) :
    (base : Option QualifiedName) → Weave (List QualifiedName)
  | none => .ok chain
  | some base =>
    if base ∈ order then
      .ok chain
    else
      match _known : bindings.findClass? base with
      | none => .ok chain
      | some binding =>
        if _fresh : base ∈ chain then
          .error (.dependencyCycle ((chain.reverse ++ [base]).map (·.full)))
        else
          bindings.ancestors order (base :: chain) binding.base
termination_by unvisited (bindings.classes.map (·.name)) chain
decreasing_by exact unvisited_cons_lt _fresh (mem_of_findClass? _known)

/-- Put a class behind its ancestors, which follow `order` if they are not in it. -/
def appendClass (bindings : Bindings) (order : List QualifiedName) (binding : ClassBinding) :
    Weave (List QualifiedName) :=
  if binding.name ∈ order then
    .ok order
  else do
    return order ++ (← bindings.ancestors order [binding.name] binding.base)

/-- The names of the annotated classes, each behind its ancestors. -/
def classOrder (bindings : Bindings) : Weave (List QualifiedName) :=
  bindings.classes.foldlM bindings.appendClass []

end Bindings

/-! ## Processing every type once -/

/-- The names of the types that have been processed, the latest first. -/
structure Ledger where
  processed : List QualifiedName := []
deriving DecidableEq, Repr

namespace Ledger

def isProcessed (ledger : Ledger) (name : QualifiedName) : Bool :=
  ledger.processed.contains name

/-- Record that a type is processed, which must happen only once. -/
def mark (ledger : Ledger) (name : QualifiedName) : Weave Ledger :=
  if ledger.isProcessed name then
    .error (.duplicateProcessing name.full)
  else
    .ok ⟨name :: ledger.processed⟩

end Ledger

end NativeWeave
