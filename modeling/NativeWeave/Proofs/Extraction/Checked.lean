import NativeWeave.Proofs.Extraction.Declaration
import NativeWeave.Proofs.Extraction.Lawful

namespace NativeWeave

/-!
# What extraction has checked

A binding exists only if extraction found no mistake in its declaration.  The names in the binding
are those of the declarations, in order; no member has a name that is generated for a function; and a
struct that is marshalled has no members for that yet.
-/

namespace Remembering

variable {Item Binding : Type}

/-- Examinations of many items, each of which gives a binding with the name of the item, give
bindings with some of the names, in order. -/
theorem gives_names {Name : Type} {items : List Item}
    {step : Item → Remembering (Extracted Binding)}
    {named : Item → Name} {bindingName : Binding → Name}
    (each : ∀ item ∈ items, Gives (step item) fun found =>
      ∀ binding ∈ found.binding, bindingName binding = named item) :
    Gives (items.mapM step) fun results =>
      ((Extracted.bindings results).map bindingName).Sublist (items.map named) := by
  induction items with
  | nil =>
    rw [List.mapM_nil]
    exact .pure (.refl _)
  | cons item more ih =>
    rw [List.forall_mem_cons] at each
    rw [List.mapM_cons]
    refine .bind each.1 fun first holds => .bind (ih each.2) fun others hold => .pure ?_
    rw [Extracted.bindings, List.filterMap_cons]
    cases present : first.binding with
    | none => exact hold.cons _
    | some binding =>
      rw [List.map_cons, List.map_cons, holds binding present]
      exact hold.cons_cons _

/-- Indices do not matter for names. -/
theorem map_zipIdx {α β : Type} (items : List α) (view : α → β) :
    (items.zipIdx.map fun item => view item.1) = items.map view := by
  calc items.zipIdx.map (view ∘ Prod.fst)
    _ = (items.zipIdx.map Prod.fst).map view := List.map_map.symm
    _ = items.map view := by rw [List.zipIdx_map_fst]

end Remembering

open Remembering

/-- The function is made from a method of its name, and nothing has a name that it needs. -/
def FunctionBinding.Checked (type : TypeDef) (function : FunctionBinding) : Prop :=
  (∃ method, type.methods[function.method]? = some method ∧ method.name = function.name) ∧
    Scope.generatedConflict? type function.name = none

/-- What is known of the names in the binding of a type. -/
def TypeBinding.Checked (type : TypeDef) : TypeBinding → Prop
  | .ofClass binding =>
    (binding.members.map (·.name)).Sublist (type.properties.map (·.name)) ∧
      ∀ function ∈ binding.functions, function.Checked type
  | .ofStruct binding =>
    (binding.members.map (·.name)).Sublist (type.fields.map (·.name)) ∧
      (binding.blittable = false → ∀ method ∈ type.methods, Scope.isMarshalMember method = false)
  | .ofEnum _ => True

namespace Scope

variable {scope : Scope} {type : TypeDef} {index : Nat}

theorem gives_extractMember (declaration : MemberDeclaration) :
    Gives (scope.extractMember type declaration) fun found =>
      ∀ member, found = .ok member →
        member.name = declaration.name ∧ member.origin = declaration.origin := by
  unfold extractMember
  dsimp only
  refine .after fun category => ?_
  cases category with
  | error refusal =>
    refine .pure fun member impossible => ?_
    cases impossible
  | ok category =>
    refine .after fun override => .pure fun member same => ?_
    cases same
    exact ⟨rfl, rfl⟩

theorem gives_extractChecked (declaration : MemberDeclaration) :
    Gives (scope.extractChecked type declaration) fun found =>
      ∀ member ∈ found.binding,
        member.name = declaration.name ∧ member.origin = declaration.origin := by
  refine .bind (gives_extractMember declaration) fun found named => ?_
  cases found with
  | error diagnostic => exact .pure fun _ impossible => nomatch impossible
  | ok member =>
    refine .pure fun other same => ?_
    cases same
    exact named member rfl

/-- An exposed property has a getter. -/
theorem gives_extractProperty (property : Property) :
    Gives (scope.extractProperty type property index) fun found =>
      ∀ member ∈ found.binding, member.name = property.name ∧ member.origin = .property index ∧
        (getter? type property).isSome = true := by
  unfold extractProperty
  split
  · exact .pure fun _ impossible => nomatch impossible
  · split
    · exact .pure fun _ impossible => nomatch impossible
    · next getter found =>
      split
      · exact .pure fun _ impossible => nomatch impossible
      · intro memory member same
        have known := gives_extractChecked _ memory member same
        exact ⟨known.1, known.2, found ▸ rfl⟩

theorem gives_extractField (field : Field) : Gives (scope.extractField type field index) fun found =>
    ∀ member ∈ found.binding, member.name = field.name ∧ member.origin = .field index := by
  unfold extractField
  split
  · exact .pure fun _ impossible => nomatch impossible
  · split
    · exact .pure fun _ impossible => nomatch impossible
    · exact gives_extractChecked _

theorem gives_extractFunction {method : Method} (found : type.methods[index]? = some method) :
    Gives (scope.extractFunction type method index) fun found =>
      ∀ function ∈ found.binding, function.Checked type := by
  unfold extractFunction
  split
  · unfold extractAnnotated
    dsimp only
    refine .after fun parameters => .after fun result => ?_
    split
    · exact .pure fun _ impossible => nomatch impossible
    · next clean =>
      refine .pure fun function same => ?_
      cases same
      rw [Bool.not_eq_true, Diagnostic.hasErrors_append_eq_false,
        Diagnostic.hasErrors_append_eq_false, hasErrors_functionFindings] at clean
      rcases clean with ⟨⟨⟨_, _, free, _⟩, _⟩, _⟩
      exact ⟨⟨method, found, rfl⟩, free⟩
  · exact .pure fun _ impossible => nomatch impossible

theorem checked_extractClass : Gives (scope.extractClass index type) fun found =>
    ∀ binding ∈ found.binding, TypeBinding.Checked type (.ofClass binding) := by
  have members : ∀ item ∈ type.properties.zipIdx,
      Gives (scope.extractProperty type item.1 item.2) fun found =>
        ∀ member ∈ found.binding, member.name = item.1.name :=
    fun item _ memory member found => (gives_extractProperty item.1 memory member found).1
  have functions : ∀ item ∈ type.methods.zipIdx,
      Gives (scope.extractFunction type item.1 item.2) fun found =>
        ∀ function ∈ found.binding, function.Checked type :=
    fun item member => gives_extractFunction (List.mk_mem_zipIdx_iff_getElem?.mp member)
  unfold extractClass
  split
  · refine .bind (gives_names members) fun members names => ?_
    refine .bind (.mapM functions) fun functions each => .pure fun binding found => ?_
    rw [← eq_of_mem_unless found]
    constructor
    · exact map_zipIdx type.properties (·.name) ▸ names
    · intro function member
      rcases List.mem_filterMap.mp member with ⟨result, inside, present⟩
      exact each result inside function present
  · exact .pure fun _ impossible => nomatch impossible

/-- A binding that is made unless there are mistakes is made without any. -/
theorem not_of_mem_unless {Binding : Type} {mistakes : Prop} [Decidable mistakes]
    {made found : Binding} (member : found ∈ if mistakes then none else some made) :
    ¬ mistakes := by
  intro mistaken
  rw [if_pos mistaken] at member
  cases member

theorem checked_extractStruct : Gives (scope.extractStruct index type) fun found =>
    ∀ binding ∈ found.binding, TypeBinding.Checked type (.ofStruct binding) := by
  have fields : ∀ item ∈ type.fields.zipIdx,
      Gives (scope.extractField type item.1 item.2) fun found =>
        ∀ member ∈ found.binding, member.name = item.1.name :=
    fun item _ memory member found => (gives_extractField item.1 memory member found).1
  refine .bind (gives_names fields) fun members names => .after fun repr => ?_
  refine .pure fun binding found => ?_
  rw [← eq_of_mem_unless found]
  refine ⟨map_zipIdx type.fields (·.name) ▸ names, fun marshalled method member => ?_⟩
  have clean := not_of_mem_unless found
  have generic : ¬ repr = some .blittable := of_decide_eq_false marshalled
  rw [Bool.not_eq_true, Diagnostic.hasErrors_append_eq_false, if_neg generic,
    hasErrors_marshalConflicts] at clean
  exact clean.2 method member

/-- The binding of a type of the module has been checked against that type. -/
theorem checked_of_mem_extract {binding : TypeBinding} (member : binding ∈ scope.extract.bindings)
    (present : scope.module.types[binding.place]? = some type) : binding.Checked type :=
  forall_mem_extract (fun _ _ _ _ => trivial) (fun _ _ _ _ _ => checked_extractStruct)
    (fun _ _ _ _ => checked_extractClass) member present

end Scope

end NativeWeave
