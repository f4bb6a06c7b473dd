import Mathlib.Data.List.Nodup
import NativeWeave.Binding.Order
import NativeWeave.Proofs.Extraction.Checked
import NativeWeave.Proofs.Outcome

namespace NativeWeave

/-!
# The order of processing is an order

Both orders list names one after another, each once and each behind the names that it needs: a struct
behind the structs that it embeds, a class behind its base class.  A visit adds a struct only when
the structs inside of it are there, and it adds none of those that it is still visiting; the chain of
ancestors of a class is put in front of it as a whole.

Where the types of a module have names of their own, so have their bindings.  Then a binding is the
one that its name means, whatever is looked up, and types of different kinds never share a name.
-/

/-! ## Ordered names -/

/-- Each name comes once, and behind all names that it needs. -/
def SortedBy (needs : QualifiedName → List QualifiedName) (order : List QualifiedName) : Prop :=
  ∀ front name back, order = front ++ name :: back → name ∉ front ∧ ∀ need ∈ needs name, need ∈ front

variable {needs : QualifiedName → List QualifiedName} {order result : List QualifiedName}
  {name : QualifiedName}

theorem sortedBy_nil : SortedBy needs [] := by
  intro front name back impossible
  cases front <;> cases impossible

/-- A name whose needs are met can be put at the end. -/
theorem SortedBy.snoc (sorted : SortedBy needs order) (fresh : name ∉ order)
    (ready : ∀ need ∈ needs name, need ∈ order) : SortedBy needs (order ++ [name]) := by
  intro front other back split
  rcases List.eq_nil_or_concat back with rfl | ⟨more, last, rfl⟩
  · rcases List.append_inj' split rfl with ⟨rfl, same⟩
    cases same
    exact ⟨fresh, ready⟩
  · rw [List.concat_eq_append, ← List.cons_append, ← List.append_assoc] at split
    exact sorted front other more (List.append_inj' split rfl).1

namespace Bindings

variable {bindings : Bindings} {path names : List QualifiedName}

/-! ## Structs -/

/-- The structs that have to be in front of a struct. -/
def embeddedIn (bindings : Bindings) (name : QualifiedName) : List QualifiedName :=
  ((bindings.layout? name).map bindings.embedded).getD []

theorem isSome_findStruct?_of_mem_embedded {binding : StructBinding}
    (embeds : name ∈ bindings.embedded binding) : (bindings.findStruct? name).isSome = true :=
  (List.mem_filter.mp (List.mem_eraseDups.mp embeds)).2

/-- What a visit does to an order that is sorted so far: it adds annotated structs, and none that is
on the path to the visited one. -/
structure Arranges (bindings : Bindings) (path order result : List QualifiedName) : Prop where
  sorted : SortedBy bindings.embeddedIn result
  keeps : ∀ name ∈ order, name ∈ result
  apart : ∀ name ∈ result, name ∈ order ∨ name ∉ path
  known : ∀ name ∈ result, name ∈ order ∨ (bindings.findStruct? name).isSome = true

theorem arranges_self (sorted : SortedBy bindings.embeddedIn order) :
    bindings.Arranges path order order :=
  ⟨sorted, fun _ => id, fun _ => .inl, fun _ => .inl⟩

/-- A struct is added behind what the visit of its parts has arranged. -/
theorem Arranges.snoc (arranges : bindings.Arranges (name :: path) order result)
    (unvisited : name ∉ path) (fresh : name ∉ order)
    (known : (bindings.findStruct? name).isSome = true)
    (ready : ∀ need ∈ bindings.embeddedIn name, need ∈ result) :
    bindings.Arranges path order (result ++ [name]) where
  sorted := by
    refine arranges.sorted.snoc (fun early => ?_) ready
    rcases arranges.apart name early with old | apart
    · exact fresh old
    · exact apart List.mem_cons_self
  keeps := fun other old => List.mem_append_left _ (arranges.keeps other old)
  apart := by
    refine List.forall_mem_append.mpr ⟨fun other inside => ?_,
      List.forall_mem_singleton.mpr (.inr unvisited)⟩
    exact (arranges.apart other inside).imp_right List.not_mem_of_not_mem_cons
  known := List.forall_mem_append.mpr ⟨arranges.known, List.forall_mem_singleton.mpr (.inr known)⟩

theorem Arranges.trans {later : List QualifiedName} (first : bindings.Arranges path order result)
    (second : bindings.Arranges path result later) : bindings.Arranges path order later where
  sorted := second.sorted
  keeps := fun name old => second.keeps name (first.keeps name old)
  apart := fun name inside => (second.apart name inside).elim (first.apart name) .inr
  known := fun name inside => (second.known name inside).elim (first.known name) .inr

/-- Visits arrange what they visit.  The induction follows the visit from a struct to the structs
that it embeds. -/
theorem arranges_visits (bindings : Bindings) :
    (∀ path order name, (bindings.findStruct? name).isSome = true →
      SortedBy bindings.embeddedIn order → ∀ result, bindings.visit path order name = .ok result →
        bindings.Arranges path order result ∧ name ∈ result) ∧
    ∀ path order names, (∀ name ∈ names, (bindings.findStruct? name).isSome = true) →
      SortedBy bindings.embeddedIn order →
        ∀ result, bindings.visitAll path order names = .ok result →
          bindings.Arranges path order result ∧ ∀ name ∈ names, name ∈ result := by
  refine visit.mutual_induct bindings _ _ ?cyclic ?listed ?unknown ?parts ?done ?more
  case cyclic =>
    intro path order name onPath _ _ result run
    rw [visit, dif_pos onPath] at run
    cases run
  case listed =>
    intro path order name fresh inside _ sorted result run
    rw [visit, dif_neg fresh, if_pos inside] at run
    cases run
    exact ⟨arranges_self sorted, inside⟩
  case unknown =>
    intro path order name _ _ missing known
    obtain ⟨binding, found⟩ := Option.isSome_iff_exists.mp known
    have listed := List.mem_of_find?_eq_some found
    have absent := List.find?_eq_none.mp missing binding (List.mem_reverse.mpr listed)
    exact absurd (List.find?_some found) absent
  case parts =>
    intro path order name fresh absent binding layout ih known sorted result run
    rw [visit, dif_neg fresh, if_neg absent] at run
    split at run
    · next missing =>
      cases layout.symm.trans missing
    · next other found =>
      cases layout.symm.trans found
      rcases bind_eq_ok_iff.mp run with ⟨earlier, parts, final⟩
      cases final
      have embeds : bindings.embeddedIn name = bindings.embedded binding := by
        rw [embeddedIn, layout]
        rfl
      rcases ih (fun part => isSome_findStruct?_of_mem_embedded) sorted earlier parts with
        ⟨arranges, all⟩
      refine ⟨arranges.snoc fresh absent known (embeds.symm ▸ all), ?_⟩
      exact List.mem_append_right _ List.mem_cons_self
  case done =>
    intro path order _ sorted result run
    rw [visitAll] at run
    cases run
    exact ⟨arranges_self sorted, List.forall_mem_nil _⟩
  case more =>
    intro path order name more first rest known sorted result run
    rw [List.forall_mem_cons] at known
    rw [visitAll] at run
    rcases bind_eq_ok_iff.mp run with ⟨middle, one, others⟩
    rcases first known.1 sorted middle one with ⟨arranges, inside⟩
    rcases rest middle known.2 arranges.sorted result others with ⟨later, all⟩
    exact ⟨arranges.trans later, List.forall_mem_cons.mpr ⟨later.keeps name inside, all⟩⟩

theorem isSome_findStruct?_of_mem {binding : StructBinding} (member : binding ∈ bindings.structs) :
    (bindings.findStruct? binding.name).isSome = true :=
  List.find?_isSome.mpr ⟨binding, member, beq_self_eq_true _⟩

/-- The order of the structs: it lists all of them, each behind the structs that it embeds. -/
theorem sortedBy_structOrder (ordered : bindings.structOrder = .ok order) :
    SortedBy bindings.embeddedIn order ∧
      (∀ name ∈ order, (bindings.findStruct? name).isSome = true) ∧
        ∀ binding ∈ bindings.structs, binding.name ∈ order := by
  rcases (arranges_visits bindings).2 [] [] _
    (List.forall_mem_map.mpr fun binding => isSome_findStruct?_of_mem) sortedBy_nil order ordered with
    ⟨arranges, all⟩
  refine ⟨arranges.sorted, fun name inside => ?_, fun binding member =>
    all _ (List.mem_map_of_mem member)⟩
  exact (arranges.known name inside).elim (fun old => absurd old List.not_mem_nil) id

/-! ## Classes -/

/-- The annotated base class that has to be in front of a class. -/
def baseOf (bindings : Bindings) (name : QualifiedName) : List QualifiedName :=
  (((bindings.findClass? name).bind (·.base)).filter fun base =>
    (bindings.findClass? base).isSome).toList

theorem mem_baseOf_iff {binding : ClassBinding} (found : bindings.findClass? name = some binding)
    {base : QualifiedName} : base ∈ bindings.baseOf name ↔
      binding.base = some base ∧ (bindings.findClass? base).isSome = true := by
  rw [baseOf, found, Option.bind_some, Option.mem_toList, Option.filter_eq_some_iff]

/-- The chain can be put behind the order and some more classes as soon as what its uppermost class
needs is there. -/
def Hangs (bindings : Bindings) (order chain : List QualifiedName) (base : Option QualifiedName) :
    Prop :=
  ∀ above, SortedBy bindings.baseOf (order ++ above) →
    (∀ name ∈ base, (bindings.findClass? name).isSome = true → name ∈ order ++ above) →
    (∀ name ∈ chain, name ∉ order ++ above) → SortedBy bindings.baseOf (order ++ above ++ chain)

/-- One more class on top of a chain. -/
theorem Hangs.cons {chain : List QualifiedName} {base : QualifiedName} {binding : ClassBinding}
    (hangs : bindings.Hangs order chain (some base))
    (found : bindings.findClass? base = some binding) (fresh : base ∉ chain) :
    bindings.Hangs order (base :: chain) binding.base := by
  intro above sorted ready apart
  rw [List.forall_mem_cons] at apart
  have grown : SortedBy bindings.baseOf (order ++ (above ++ [base])) := by
    rw [← List.append_assoc]
    refine sorted.snoc apart.1 fun need listed => ?_
    rcases (mem_baseOf_iff found).mp listed with ⟨declared, known⟩
    exact ready need declared known
  have whole := hangs (above ++ [base]) grown ?_ fun name inside => ?_
  · rwa [← List.append_assoc, List.append_assoc (order ++ above)] at whole
  · rintro name ⟨⟩ _
    exact List.mem_append_right _ (List.mem_append_right _ List.mem_cons_self)
  · rw [← List.append_assoc, List.mem_append, not_or]
    exact ⟨apart.2 name inside, fun same => fresh (List.mem_singleton.mp same ▸ inside)⟩

/-- A chain that cannot be extended any further can be put behind the order. -/
theorem Hangs.finish {chain : List QualifiedName} {base : Option QualifiedName}
    (hangs : bindings.Hangs order chain base) (sorted : SortedBy bindings.baseOf order)
    (apart : ∀ name ∈ chain, name ∉ order)
    (ready : ∀ name ∈ base, (bindings.findClass? name).isSome = true → name ∈ order) :
    SortedBy bindings.baseOf (order ++ chain) := by
  have whole := hangs []
  rw [List.append_nil] at whole
  exact whole sorted ready apart

theorem sortedBy_ancestors (bindings : Bindings) (order chain : List QualifiedName)
    (base : Option QualifiedName) (sorted : SortedBy bindings.baseOf order)
    (hangs : bindings.Hangs order chain base) (apart : ∀ name ∈ chain, name ∉ order)
    (known : ∀ name ∈ chain, (bindings.findClass? name).isSome = true)
    (found : bindings.ancestors order chain base = .ok result) :
    SortedBy bindings.baseOf (order ++ result) ∧
      ∀ name ∈ result, (bindings.findClass? name).isSome = true := by
  fun_induction bindings.ancestors order chain base with
  | case1 chain =>
    cases found
    exact ⟨hangs.finish sorted apart nofun, known⟩
  | case2 chain base inside =>
    cases found
    refine ⟨hangs.finish sorted apart ?_, known⟩
    rintro name ⟨⟩ _
    exact inside
  | case3 chain base _ missing =>
    cases found
    refine ⟨hangs.finish sorted apart ?_, known⟩
    rintro name ⟨⟩ present
    rw [missing] at present
    cases present
  | case4 => cases found
  | case5 chain base outside binding declared fresh ih =>
    refine ih (hangs.cons declared fresh) (List.forall_mem_cons.mpr ⟨outside, apart⟩)
      (List.forall_mem_cons.mpr ⟨?_, known⟩) found
    rw [declared]
    rfl

/-- The class is the first one of its name. -/
theorem sortedBy_appendClass {binding : ClassBinding}
    (first : bindings.findClass? binding.name = some binding)
    (sorted : SortedBy bindings.baseOf order)
    (known : ∀ name ∈ order, (bindings.findClass? name).isSome = true)
    (appended : bindings.appendClass order binding = .ok result) :
    SortedBy bindings.baseOf result ∧
      ∀ name ∈ result, (bindings.findClass? name).isSome = true := by
  unfold appendClass at appended
  split at appended
  · cases appended
    exact ⟨sorted, known⟩
  · next fresh =>
    rcases bind_eq_ok_iff.mp appended with ⟨chain, found, final⟩
    cases final
    have hangs : bindings.Hangs order [binding.name] binding.base := by
      intro above sorted ready apart
      refine sorted.snoc (apart _ List.mem_cons_self) fun need listed => ?_
      rcases (mem_baseOf_iff first).mp listed with ⟨declared, known⟩
      exact ready need declared known
    have present : (bindings.findClass? binding.name).isSome = true := by
      rw [first]
      rfl
    rcases bindings.sortedBy_ancestors order [binding.name] binding.base sorted hangs
      (List.forall_mem_singleton.mpr fresh) (List.forall_mem_singleton.mpr present) found with
      ⟨whole, all⟩
    exact ⟨whole, List.forall_mem_append.mpr ⟨known, all⟩⟩

/-- The order of the classes: it lists annotated classes only, each behind its base class. -/
theorem sortedBy_classOrder
    (distinct : ∀ binding ∈ bindings.classes, bindings.findClass? binding.name = some binding)
    (ordered : bindings.classOrder = .ok order) :
    SortedBy bindings.baseOf order ∧
      ∀ name ∈ order, (bindings.findClass? name).isSome = true :=
  foldlM_induction (fun order => SortedBy bindings.baseOf order ∧
      ∀ name ∈ order, (bindings.findClass? name).isSome = true)
    ⟨sortedBy_nil, List.forall_mem_nil _⟩
    (fun _ binding _ member known step =>
      sortedBy_appendClass (distinct binding member) known.1 known.2 step) ordered

/-- The chain of ancestors keeps what it starts from. -/
theorem mem_ancestors (bindings : Bindings) (order chain : List QualifiedName)
    (base : Option QualifiedName) {result : List QualifiedName}
    (found : bindings.ancestors order chain base = .ok result) :
    ∀ name ∈ chain, name ∈ result := by
  fun_induction bindings.ancestors order chain base with
  | case1 => cases found; exact fun _ => id
  | case2 => cases found; exact fun _ => id
  | case3 => cases found; exact fun _ => id
  | case4 => cases found
  | case5 chain base _ binding _ _ ih =>
    exact fun name member => ih found name (List.mem_cons_of_mem base member)

theorem mem_appendClass {binding : ClassBinding}
    (appended : bindings.appendClass order binding = .ok result) :
    binding.name ∈ result ∧ ∀ name ∈ order, name ∈ result := by
  unfold appendClass at appended
  split at appended
  · next present =>
    cases appended
    exact ⟨present, fun _ => id⟩
  · rcases bind_eq_ok_iff.mp appended with ⟨chain, found, final⟩
    cases final
    exact ⟨List.mem_append_right _ (bindings.mem_ancestors _ _ _ found _ List.mem_cons_self),
      fun name => List.mem_append_left _⟩

/-- Every annotated class is in the order. -/
theorem mem_classOrder (ordered : bindings.classOrder = .ok order) {binding : ClassBinding}
    (member : binding ∈ bindings.classes) : binding.name ∈ order := by
  have all := foldlM_achieves (fun _ => True)
    (fun (binding : ClassBinding) (order : List QualifiedName) => binding.name ∈ order) trivial
    (fun state binding next _ _ step =>
      ⟨trivial, (mem_appendClass step).1, fun other => (mem_appendClass step).2 other.name⟩) ordered
  exact all.2.1 binding member

end Bindings

/-! ## Names of their own -/

theorem find?_eq_some_of_nodup {α Key : Type} [DecidableEq Key] {items : List α} {key : α → Key}
    (distinct : (items.map key).Nodup) {item : α} (member : item ∈ items) :
    items.find? (key · == key item) = some item := by
  cases found : items.find? (key · == key item) with
  | none => exact absurd (beq_self_eq_true _) (List.find?_eq_none.mp found item member)
  | some other =>
    have same : key other = key item := by simpa using List.find?_some found
    exact congrArg some
      (List.inj_on_of_nodup_map distinct (List.mem_of_find?_eq_some found) member same)

/-- The names of the bindings of one kind are among the names of all bindings, in order. -/
theorem sublist_names_filterMap {Binding : Type} {kind : TypeBinding → Option Binding}
    {nameOf : Binding → QualifiedName}
    (named : ∀ binding one, kind binding = some one → nameOf one = binding.name)
    (bindings : Bindings) :
    ((bindings.filterMap kind).map nameOf).Sublist (bindings.map (·.name)) := by
  induction bindings with
  | nil => exact .slnil
  | cons binding more ih =>
    rw [List.filterMap_cons]
    cases present : kind binding with
    | none => exact ih.cons _
    | some one =>
      rw [List.map_cons, List.map_cons, named binding one present]
      exact ih.cons_cons _

/-- The bindings have names of their own. -/
def Bindings.Distinct (bindings : Bindings) : Prop :=
  (bindings.map (·.name)).Nodup

/-- Types with names of their own have bindings with names of their own. -/
theorem Scope.distinct_extract {scope : Scope}
    (distinct : (scope.module.types.map (·.qualifiedName)).Nodup) :
    scope.extract.bindings.Distinct := by
  have examined : ∀ item ∈ scope.module.types.zipIdx,
      Remembering.Gives (scope.examine item.1 item.2) fun found =>
        ∀ binding ∈ found.binding, binding.name = item.1.qualifiedName :=
    fun item _ memory binding found => (gives_examine memory binding found).2
  have names : Remembering.Gives scope.extractWith fun extraction =>
      (extraction.bindings.map (·.name)).Sublist
        (scope.module.types.zipIdx.map (·.1.qualifiedName)) :=
    .bind (Remembering.gives_names examined) fun results sublist => .pure sublist
  have listed := names {}
  rw [Remembering.map_zipIdx scope.module.types (·.qualifiedName)] at listed
  exact listed.nodup distinct

namespace Bindings

variable {bindings : Bindings}

theorem Distinct.structs (distinct : bindings.Distinct) :
    (bindings.structs.map (·.name)).Nodup := by
  refine (sublist_names_filterMap (fun binding one found => ?_) bindings).nodup distinct
  cases binding <;> cases found
  rfl

theorem Distinct.classes (distinct : bindings.Distinct) :
    (bindings.classes.map (·.name)).Nodup := by
  refine (sublist_names_filterMap (fun binding one found => ?_) bindings).nodup distinct
  cases binding <;> cases found
  rfl

theorem Distinct.enums (distinct : bindings.Distinct) :
    (bindings.enums.map (·.name)).Nodup := by
  refine (sublist_names_filterMap (fun binding one found => ?_) bindings).nodup distinct
  cases binding <;> cases found
  rfl

theorem Distinct.findStruct?_eq (distinct : bindings.Distinct) {binding : StructBinding}
    (member : binding ∈ bindings.structs) : bindings.findStruct? binding.name = some binding :=
  find?_eq_some_of_nodup distinct.structs member

theorem Distinct.findClass?_eq (distinct : bindings.Distinct) {binding : ClassBinding}
    (member : binding ∈ bindings.classes) : bindings.findClass? binding.name = some binding :=
  find?_eq_some_of_nodup distinct.classes member

/-- The layout that a name stands for is that of the only struct of the name. -/
theorem layout?_eq_findStruct? (distinct : (bindings.structs.map (·.name)).Nodup)
    (name : QualifiedName) : bindings.layout? name = bindings.findStruct? name := by
  cases found : bindings.findStruct? name with
  | none =>
    refine List.find?_eq_none.mpr fun binding listed => ?_
    exact List.find?_eq_none.mp found binding (List.mem_reverse.mp listed)
  | some binding =>
    rw [layout?, ← (ofStruct_mem_of_findStruct? found).2]
    refine find?_eq_some_of_nodup ?_ (List.mem_reverse.mpr (List.mem_of_find?_eq_some found))
    rw [List.map_reverse]
    exact List.nodup_reverse.mpr distinct

theorem Distinct.eq_of_name (distinct : bindings.Distinct) {first second : TypeBinding}
    (one : first ∈ bindings) (other : second ∈ bindings) (same : first.name = second.name) :
    first = second :=
  List.inj_on_of_nodup_map distinct one other same

/-- No class has the name of a struct. -/
theorem Distinct.findClass?_of_struct (distinct : bindings.Distinct) {name : QualifiedName}
    (struct : (bindings.findStruct? name).isSome = true) : bindings.findClass? name = none := by
  rcases Option.isSome_iff_exists.mp struct with ⟨binding, found⟩
  cases declared : bindings.findClass? name with
  | none => rfl
  | some other =>
    rcases ofStruct_mem_of_findStruct? found with ⟨one, rfl⟩
    rcases ofClass_mem_of_findClass? declared with ⟨two, same⟩
    cases distinct.eq_of_name one two same.symm

end Bindings

end NativeWeave
