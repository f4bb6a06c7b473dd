import Mathlib.Data.List.Induction
import Mathlib.Data.List.Nodup
import Mathlib.Data.List.Perm.Basic
import Mathlib.Logic.Relation
import NativeWeave.Proofs.Binding.Order

namespace NativeWeave

/-!
# There is an order exactly where nothing leads back to itself

Embedding leads from a struct to the annotated structs that lie in place inside of it, inheritance
from a class to its annotated base class.  A visit, and a walk up a chain of base classes, only ever
fails at a place that it is still on the way from, so that a step leads back there; and where there
is an order, every way goes from the back of it to the front and none comes back.
-/

open Relation

/-! ## Ways through an order -/

section Sorted

variable {needs : QualifiedName → List QualifiedName} {order front back : List QualifiedName}
  {name need : QualifiedName}

theorem SortedBy.of_append (sorted : SortedBy needs (front ++ back)) : SortedBy needs front := by
  intro early name late split
  rw [split, List.append_assoc, List.cons_append] at sorted
  exact sorted early name _ rfl

theorem SortedBy.nodup (sorted : SortedBy needs order) : order.Nodup := by
  induction order using List.reverseRecOn with
  | nil => exact List.nodup_nil
  | append_singleton front last ih =>
    exact List.nodup_append_comm.mp
      (List.nodup_cons.mpr ⟨(sorted front last [] rfl).1, ih sorted.of_append⟩)

/-- What a name needs at any remove is in front of it. -/
theorem SortedBy.mem_front (sorted : SortedBy needs order) (split : order = front ++ name :: back)
    (reaches : TransGen (fun name need => need ∈ needs name) name need) : need ∈ front := by
  induction reaches with
  | single direct => exact (sorted front name back split).2 _ direct
  | tail _ direct ih =>
    rcases List.append_of_mem ih with ⟨early, late, rfl⟩
    rw [List.append_assoc, List.cons_append] at split
    exact List.mem_append_left _ ((sorted early _ _ split).2 _ direct)

theorem SortedBy.sublist (sorted : SortedBy needs order) (inside : name ∈ order)
    (reaches : TransGen (fun name need => need ∈ needs name) name need) :
    [need, name].Sublist order := by
  rcases List.append_of_mem inside with ⟨front, back, split⟩
  have early := List.singleton_sublist.mpr (sorted.mem_front split reaches)
  rw [split]
  exact early.append (List.singleton_sublist.mpr List.mem_cons_self)

/-- An order of some names by what a relation leads to from each of them: the relation leads from none
back to itself, and all names are listed, each behind everything that it leads to at any remove. -/
theorem SortedBy.sorts {leads : QualifiedName → QualifiedName → Prop} {names : List QualifiedName}
    (sorted : SortedBy needs order) (same : ∀ name need, leads name need ↔ need ∈ needs name)
    (listed : ∀ name, name ∈ order ↔ name ∈ names)
    (starts : ∀ name need, leads name need → name ∈ names)
    (distinct : names.Nodup) : (∀ name, ¬ TransGen leads name name) ∧ order.Perm names ∧
      ∀ name need, TransGen leads name need → [need, name].Sublist order := by
  have inside : ∀ name need, TransGen leads name need → name ∈ order := by
    intro name need reaches
    rcases TransGen.head'_iff.mp reaches with ⟨next, step, _⟩
    exact (listed name).mpr (starts name next step)
  have equal : leads = fun name need => need ∈ needs name := by
    funext name need
    exact propext (same name need)
  refine ⟨fun name back => ?_, (List.perm_ext_iff_of_nodup sorted.nodup distinct).mpr listed, ?_⟩
  · rcases List.append_of_mem (inside name name back) with ⟨front, later, split⟩
    exact (sorted front name later split).1 (sorted.mem_front split (equal ▸ back))
  · exact fun name need reaches => sorted.sublist (inside name need reaches) (equal ▸ reaches)

end Sorted

/-! ## Structs -/

/-- A value of the category has a value of the struct in place inside of it: it is one, or it is an
array of such values.  The elements of a list lie elsewhere. -/
inductive Category.Embeds : Category → QualifiedName → Prop
  | struct (repr : StructRepr) (nativeName : String) (owner : QualifiedName) :
    Embeds (.struct repr nativeName owner) owner
  | array {inner : Category} {name : QualifiedName} (element : Signature) (dim : UInt32)
    (embeds : inner.Embeds name) : Embeds (.array inner element dim) name

theorem Category.embedded?_eq_some_iff {category : Category} {name : QualifiedName} :
    category.embedded? = some name ↔ category.Embeds name := by
  induction category with
  | struct repr nativeName owner =>
    constructor
    · rintro ⟨⟩
      exact .struct repr nativeName _
    · rintro ⟨⟩
      rfl
  | array inner element dim ih =>
    rw [embedded?, ih]
    constructor
    · exact .array element dim
    · rintro ⟨⟩
      assumption
  | _ =>
    constructor
    · rintro ⟨⟩
    · rintro ⟨⟩

namespace Bindings

variable {bindings : Bindings} {order : List QualifiedName} {outer inner name : QualifiedName}

/-- One of the values has an annotated struct of the name in place inside of it. -/
def Holds (bindings : Bindings) (values : List MemberBinding) (inner : QualifiedName) : Prop :=
  (∃ value ∈ values, value.category.Embeds inner) ∧ (bindings.findStruct? inner).isSome = true

/-- The annotated struct of the first name has one of the second name in place inside of it. -/
def Embeds (bindings : Bindings) (outer inner : QualifiedName) : Prop :=
  ∃ binding, bindings.findStruct? outer = some binding ∧ bindings.Holds binding.members inner

theorem mem_embedded_iff {binding : StructBinding} :
    inner ∈ bindings.embedded binding ↔ bindings.Holds binding.members inner := by
  rw [embedded, List.mem_eraseDups, List.mem_filter, List.mem_filterMap]
  simp only [Category.embedded?_eq_some_iff, Holds]

section Distinct

variable (distinct : (bindings.structs.map (·.name)).Nodup)
include distinct

theorem embeds_iff : bindings.Embeds outer inner ↔ inner ∈ bindings.embeddedIn outer := by
  rw [embeddedIn, layout?_eq_findStruct? distinct]
  constructor
  · rintro ⟨binding, found, holds⟩
    rw [found]
    exact mem_embedded_iff.mpr holds
  · intro inside
    cases found : bindings.findStruct? outer with
    | none =>
      rw [found] at inside
      cases inside
    | some binding =>
      rw [found] at inside
      exact ⟨binding, found, mem_embedded_iff.mp inside⟩

/-- Where no struct embeds itself at any remove, visits come to an end with an order.  The structs on
the path all embed the one that is visited. -/
theorem exists_visits (acyclic : ∀ name, ¬ TransGen bindings.Embeds name name) :
    (∀ path order name, (∀ above ∈ path, TransGen bindings.Embeds above name) →
      ∃ result, bindings.visit path order name = .ok result) ∧
    ∀ path order names, (∀ name ∈ names, ∀ above ∈ path, TransGen bindings.Embeds above name) →
      ∃ result, bindings.visitAll path order names = .ok result := by
  refine visit.mutual_induct bindings _ _ ?cyclic ?listed ?unknown ?parts ?done ?more
  case cyclic =>
    intro path order name onPath leads
    exact absurd (leads name onPath) (acyclic name)
  case listed =>
    intro path order name fresh inside leads
    rw [visit, dif_neg fresh, if_pos inside]
    exact ⟨order, rfl⟩
  case unknown =>
    intro path order name fresh absent missing leads
    rw [visit, dif_neg fresh, if_neg absent]
    split
    · exact ⟨order ++ [name], rfl⟩
    · next other found =>
      cases missing.symm.trans found
  case parts =>
    intro path order name fresh absent binding layout ih leads
    have steps : ∀ part ∈ bindings.embedded binding, ∀ above ∈ name :: path,
        TransGen bindings.Embeds above part := by
      intro part inside
      have step : bindings.Embeds name part :=
        ⟨binding, layout?_eq_findStruct? distinct name ▸ layout, mem_embedded_iff.mp inside⟩
      exact List.forall_mem_cons.mpr ⟨.single step, fun above high => (leads above high).tail step⟩
    rcases ih steps with ⟨earlier, arranged⟩
    rw [visit, dif_neg fresh, if_neg absent]
    split
    · exact ⟨order ++ [name], rfl⟩
    · next other found =>
      cases layout.symm.trans found
      rw [arranged, ok_bind]
      exact ⟨earlier ++ [name], rfl⟩
  case done =>
    intro path order _
    rw [visitAll]
    exact ⟨order, rfl⟩
  case more =>
    intro path order name more first rest leads
    rw [List.forall_mem_cons] at leads
    rcases first leads.1 with ⟨middle, visited⟩
    rw [visitAll, visited, ok_bind]
    exact rest middle leads.2

theorem exists_structOrder (acyclic : ∀ name, ¬ TransGen bindings.Embeds name name) :
    ∃ order, bindings.structOrder = .ok order :=
  (exists_visits distinct acyclic).2 [] [] _ fun _ _ => List.forall_mem_nil _

end Distinct

theorem isSome_findStruct?_iff :
    (bindings.findStruct? name).isSome = true ↔ name ∈ bindings.structs.map (·.name) := by
  rw [findStruct?, List.find?_isSome, List.mem_map]
  simp only [beq_iff_eq]

/-- There is an order of structs with names of their own exactly if none embeds itself at any remove,
and then it lists all of them, each behind those that it embeds at any remove. -/
theorem structOrder_sorts (distinct : (bindings.structs.map (·.name)).Nodup) :
    ((∃ order, bindings.structOrder = .ok order) ↔
        ∀ name, ¬ TransGen bindings.Embeds name name) ∧
      ∀ order, bindings.structOrder = .ok order →
        order.Perm (bindings.structs.map (·.name)) ∧
          ∀ outer inner, TransGen bindings.Embeds outer inner → [inner, outer].Sublist order := by
  have sorts : ∀ order, bindings.structOrder = .ok order →
      (∀ name, ¬ TransGen bindings.Embeds name name) ∧
        order.Perm (bindings.structs.map (·.name)) ∧
          ∀ outer inner, TransGen bindings.Embeds outer inner → [inner, outer].Sublist order := by
    intro order ordered
    rcases sortedBy_structOrder ordered with ⟨sorted, known, all⟩
    refine sorted.sorts (fun _ _ => embeds_iff distinct)
      (fun name => ⟨fun inside => ?_, fun bound => ?_⟩) (fun outer inner embeds => ?_) distinct
    · exact isSome_findStruct?_iff.mp (known name inside)
    · rcases List.mem_map.mp bound with ⟨binding, member, rfl⟩
      exact all binding member
    · rcases embeds with ⟨binding, found, _⟩
      rw [← isSome_findStruct?_iff, found]
      rfl
  constructor
  · constructor
    · rintro ⟨order, ordered⟩
      exact (sorts order ordered).1
    · exact exists_structOrder distinct
  · exact fun order ordered => (sorts order ordered).2

end Bindings

namespace Sketch

def game (name : String) : QualifiedName :=
  ⟨"Game", name⟩

/-- A struct of the module as a value in place. -/
def inPlace (name : String) : Category :=
  .struct .generic name (game name)

def member (name : String) (category : Category) : MemberBinding :=
  { name, nativeName := name, type := .named (game name), category, origin := .field 0 }

/-- A line has an array of points. -/
def line : StructBinding where
  name := game "Line"
  nativeName := "Line"
  type := 4
  members := [member "Ends" (.array (inPlace "Point") (.named (game "Point")) 2)]

/-- A shape has an edge and lists more shapes. -/
def shape : StructBinding where
  name := game "Shape"
  nativeName := "Shape"
  type := 3
  members := [member "Edge" (inPlace "Line"),
    { member "Parts" (.list (inPlace "Shape") (.named (game "Shape"))) with
      hashOverride := some "self" }]

/-- A canvas holds a shape and draws along lines. -/
def canvas : ClassBinding where
  name := game "Canvas"
  nativeName := "Canvas"
  type := 1
  base := some (game "Item")
  members := [member "Outline" (inPlace "Shape")]
  functions := [{ name := "Draw", nativeName := "Draw", method := 0,
                  parameters := [member "Along" (inPlace "Line")] }]

def board : ClassBinding where
  name := game "Board"
  nativeName := "Board"
  type := 0
  base := some (game "Canvas")

/-- A clock has nothing to do with shapes. -/
def clock : ClassBinding where
  name := game "Clock"
  nativeName := "Clock"
  type := 2
  base := some (game "Item")
  members := [member "Hour" (.scalar .i32)]

/-- Whatever comes first needs what comes behind it.  Points have the given members. -/
def bindings (point : List MemberBinding) : Bindings := [
  .ofClass board, .ofClass canvas, .ofClass clock, .ofStruct shape, .ofStruct line,
  .ofStruct { name := game "Point", nativeName := "Point", type := 5, members := point }]

theorem structOrder_bindings :
    (bindings []).structOrder = .ok [game "Point", game "Line", game "Shape"] := by
  cbv

theorem classOrder_bindings :
    (bindings []).classOrder = .ok [game "Canvas", game "Board", game "Clock"] := by
  cbv

theorem embeds_shape_line (point : List MemberBinding) :
    (bindings point).Embeds (game "Shape") (game "Line") :=
  ⟨shape, rfl, ⟨_, List.mem_cons_self, .struct _ _ _⟩, rfl⟩

theorem embeds_line_point (point : List MemberBinding) :
    (bindings point).Embeds (game "Line") (game "Point") :=
  ⟨line, rfl, ⟨_, List.mem_cons_self, .array _ _ (.struct _ _ _)⟩, rfl⟩

end Sketch

namespace Bindings

/-- The list of shapes in a shape sets no order, and the point of a line comes before the shape. -/
theorem structOrder_sorts_sketch : ((Sketch.bindings []).structs.map (·.name)).Nodup ∧
    (∀ name, ¬ TransGen (Sketch.bindings []).Embeds name name) ∧
      ∃ order, (Sketch.bindings []).structOrder = .ok order ∧
        order.Perm ((Sketch.bindings []).structs.map (·.name)) ∧
          [Sketch.game "Point", Sketch.game "Shape"].Sublist order := by
  have distinct : ((Sketch.bindings []).structs.map (·.name)).Nodup := by decide
  have ordered := Sketch.structOrder_bindings
  rcases structOrder_sorts distinct with ⟨exactly, sorts⟩
  rcases sorts _ ordered with ⟨all, behind⟩
  exact ⟨distinct, exactly.mp ⟨_, ordered⟩, _, ordered, all, behind _ _
    (.tail (.single (Sketch.embeds_shape_line [])) (Sketch.embeds_line_point []))⟩

variable {bindings : Bindings} {order : List QualifiedName} {name : QualifiedName}

/-! ## Classes -/

/-- The annotated class of the first name has one of the second name as its base class. -/
def Derives (bindings : Bindings) (derived base : QualifiedName) : Prop :=
  ∃ binding, bindings.findClass? derived = some binding ∧
    binding.base = some base ∧ (bindings.findClass? base).isSome = true

theorem derives_iff {derived base : QualifiedName} :
    bindings.Derives derived base ↔ base ∈ bindings.baseOf derived := by
  constructor
  · rintro ⟨binding, found, declared⟩
    exact (mem_baseOf_iff found).mpr declared
  · intro inside
    cases found : bindings.findClass? derived with
    | none =>
      rw [baseOf, found] at inside
      cases inside
    | some binding => exact ⟨binding, found, (mem_baseOf_iff found).mp inside⟩

/-- Where no class derives from itself, a walk up a chain of base classes comes to an end.  The
classes of the chain all derive from the base that is next. -/
theorem exists_ancestors (acyclic : ∀ name, ¬ TransGen bindings.Derives name name)
    (order chain : List QualifiedName) (base : Option QualifiedName)
    (leads : ∀ next ∈ base, (bindings.findClass? next).isSome = true →
      ∀ below ∈ chain, TransGen bindings.Derives below next) :
    ∃ result, bindings.ancestors order chain base = .ok result := by
  fun_induction bindings.ancestors order chain base with
  | case1 chain => exact ⟨chain, rfl⟩
  | case2 chain => exact ⟨chain, rfl⟩
  | case3 chain => exact ⟨chain, rfl⟩
  | case4 chain base _ binding declared onChain =>
    exact absurd (leads base rfl (Option.isSome_of_eq_some declared) base onChain) (acyclic base)
  | case5 chain base _ binding declared fresh ih =>
    refine ih fun next above bound => ?_
    have step : bindings.Derives base next := ⟨binding, declared, above, bound⟩
    exact List.forall_mem_cons.mpr ⟨.single step, fun below low =>
      (leads base rfl (Option.isSome_of_eq_some declared) below low).tail step⟩

theorem exists_appendClass (acyclic : ∀ name, ¬ TransGen bindings.Derives name name)
    {binding : ClassBinding} (found : bindings.findClass? binding.name = some binding)
    (order : List QualifiedName) : ∃ result, bindings.appendClass order binding = .ok result := by
  unfold appendClass
  split
  · exact ⟨order, rfl⟩
  · have leads : ∀ next ∈ binding.base, (bindings.findClass? next).isSome = true →
        ∀ below ∈ [binding.name], TransGen bindings.Derives below next := fun next above bound =>
      List.forall_mem_singleton.mpr (.single ⟨binding, found, above, bound⟩)
    rcases exists_ancestors acyclic order [binding.name] binding.base leads with ⟨chain, reached⟩
    rw [reached, ok_bind]
    exact ⟨order ++ chain, rfl⟩

theorem isSome_findClass?_iff :
    (bindings.findClass? name).isSome = true ↔ name ∈ bindings.classes.map (·.name) := by
  rw [findClass?, List.find?_isSome, List.mem_map]
  simp only [beq_iff_eq]

section Distinct

variable (distinct : (bindings.classes.map (·.name)).Nodup)
include distinct

theorem findClass?_eq_of_mem {binding : ClassBinding} (listed : binding ∈ bindings.classes) :
    bindings.findClass? binding.name = some binding :=
  find?_eq_some_of_nodup distinct listed

theorem exists_classOrder (acyclic : ∀ name, ¬ TransGen bindings.Derives name name) :
    ∃ order, bindings.classOrder = .ok order := by
  have run : ∃ order, bindings.classOrder = .ok order ∧ True := by
    refine exists_foldlM (fun _ _ => True) trivial fun front binding back order split _ => ?_
    have listed : binding ∈ bindings.classes := split ▸ List.mem_append_right _ List.mem_cons_self
    rcases exists_appendClass acyclic (findClass?_eq_of_mem distinct listed) order with
      ⟨next, passed⟩
    exact ⟨next, passed, trivial⟩
  rcases run with ⟨order, ordered, _⟩
  exact ⟨order, ordered⟩

/-- There is an order of classes with names of their own exactly if none derives from itself, and then
it lists all of them, each behind all of its annotated ancestors. -/
theorem classOrder_sorts :
    ((∃ order, bindings.classOrder = .ok order) ↔
        ∀ name, ¬ TransGen bindings.Derives name name) ∧
      ∀ order, bindings.classOrder = .ok order →
        order.Perm (bindings.classes.map (·.name)) ∧
          ∀ derived base, TransGen bindings.Derives derived base →
            [base, derived].Sublist order := by
  have sorts : ∀ order, bindings.classOrder = .ok order →
      (∀ name, ¬ TransGen bindings.Derives name name) ∧
        order.Perm (bindings.classes.map (·.name)) ∧
          ∀ derived base, TransGen bindings.Derives derived base →
            [base, derived].Sublist order := by
    intro order ordered
    rcases sortedBy_classOrder (fun _ => findClass?_eq_of_mem distinct) ordered with ⟨sorted, known⟩
    refine sorted.sorts (fun _ _ => derives_iff)
      (fun name => ⟨fun inside => ?_, fun bound => ?_⟩) (fun derived base derives => ?_) distinct
    · exact isSome_findClass?_iff.mp (known name inside)
    · rcases List.mem_map.mp bound with ⟨binding, member, rfl⟩
      exact mem_classOrder ordered member
    · rcases derives with ⟨binding, found, _⟩
      rw [← isSome_findClass?_iff, found]
      rfl
  constructor
  · constructor
    · rintro ⟨order, ordered⟩
      exact (sorts order ordered).1
    · exact exists_classOrder distinct
  · exact fun order ordered => (sorts order ordered).2

end Distinct

end Bindings

theorem Sketch.derives_board_canvas (point : List MemberBinding) :
    (bindings point).Derives (game "Board") (game "Canvas") :=
  ⟨board, rfl, rfl, rfl⟩

/-- A board comes behind the canvas that it is, whose own base has no binding. -/
theorem Bindings.classOrder_sorts_sketch : ((Sketch.bindings []).classes.map (·.name)).Nodup ∧
    (∀ name, ¬ TransGen (Sketch.bindings []).Derives name name) ∧
      ∃ order, (Sketch.bindings []).classOrder = .ok order ∧
        order.Perm ((Sketch.bindings []).classes.map (·.name)) ∧
          [Sketch.game "Canvas", Sketch.game "Board"].Sublist order := by
  have distinct : ((Sketch.bindings []).classes.map (·.name)).Nodup := by decide
  have ordered := Sketch.classOrder_bindings
  rcases classOrder_sorts distinct with ⟨exactly, sorts⟩
  rcases sorts _ ordered with ⟨all, behind⟩
  exact ⟨distinct, exactly.mp ⟨_, ordered⟩, _, ordered, all,
    behind _ _ (.single (Sketch.derives_board_canvas []))⟩

end NativeWeave
