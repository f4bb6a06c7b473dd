import NativeWeave.Proofs.Editing.Additions
import NativeWeave.Proofs.Editing.Placement

namespace NativeWeave

/-!
# The names in an edited type

Applying a plan puts its fields behind those of the type.  Of the methods that get a new name, those
that stand in for them take over the old one.  Counted together, the methods of the edited type are
those of the type, those that were added and the renamed ones; and perhaps an initializer.
-/

namespace TypeDef

def fieldNames (type : TypeDef) : List String :=
  type.fields.map (·.name)

def methodKeys (type : TypeDef) : List (String × List Signature) :=
  type.methods.map (·.key)

/-- The methods that exist, as they are told apart, under the names that they get. -/
def renamedKeys (type : TypeDef) (renames : List (Nat × String)) :
    List (String × List Signature) :=
  renames.filterMap fun edit => type.methods[edit.1]?.map fun method =>
    (edit.2, method.parameterTypes)

variable {type other : TypeDef} (renames : List (Nat × String))

/-- Only what tells methods apart counts for those that are renamed. -/
theorem keysAt_congr (same : type.methodKeys = other.methodKeys) :
    type.keysAt renames = other.keysAt renames := by
  refine List.filterMap_congr fun edit _ => ?_
  rw [← List.getElem?_map, ← List.getElem?_map]
  exact congrArg (·[edit.1]?) same

theorem renamedKeys_congr (same : type.methodKeys = other.methodKeys) :
    type.renamedKeys renames = other.renamedKeys renames := by
  have view : ∀ (type : TypeDef) (edit : Nat × String), (type.methods[edit.1]?.map fun method =>
      (edit.2, method.parameterTypes)) = type.methodKeys[edit.1]?.map fun key =>
        (edit.2, key.2) := by
    intro type edit
    rw [methodKeys, List.getElem?_map, Option.map_map]
    rfl
  refine List.filterMap_congr fun edit _ => ?_
  rw [view, view, same]

end TypeDef

/-- What tells an initializer without parameters from other methods. -/
def Method.initializerKey : String × List Signature :=
  (initializerName, [])

/-- The key of a new initializer, where there is none. -/
def TypeDef.newInitializerKeys (type : TypeDef) : List (String × List Signature) :=
  if type.methods.any (·.isTypeInitializer) then [] else [Method.initializerKey]

namespace TypePlan

variable {type now : TypeDef} {plan : TypePlan} {additions : Additions}

/-! ## The steps -/

/-- What two entries have in common does not tell a list from one in which they are exchanged. -/
theorem map_set_of_eq {α β : Type} {items : List α} {index : Nat} {old new : α} (view : α → β)
    (found : items[index]? = some old) (same : view new = view old) :
    (items.set index new).map view = items.map view := by
  refine List.ext_getElem? fun place => ?_
  rw [List.getElem?_map, List.getElem?_map]
  by_cases here : index = place
  · subst here
    have inside := (List.getElem?_eq_some_iff.mp found).1
    rw [List.getElem?_set_self inside, found, Option.map_some, Option.map_some, same]
  · rw [List.getElem?_set_ne here]

/-- New bodies change nothing else of the methods. -/
theorem map_of_applyBodies {β : Type} (view : Method → β) {bodies : List (Nat × Body)}
    {methods edited : List Method} (applied : applyBodies bodies methods = .ok edited)
    (blind : ∀ (method : Method) (body : Option Body), view { method with body } = view method) :
    edited.map view = methods.map view := by
  induction bodies generalizing methods with
  | nil =>
    cases applied
    rfl
  | cons edit more ih =>
    unfold applyBodies at applied
    split at applied
    · cases applied
    · next method found =>
      rw [ih applied]
      exact map_set_of_eq view found (blind method _)

open List in
/-- The entry at an index may be counted before or after it is changed, with the other form
beside it. -/
theorem perm_modify {α : Type} {items : List α} {index : Nat} {item : α} (change : α → α)
    (found : items[index]? = some item) :
    (item :: items.modify index change).Perm (change item :: items) := by
  obtain ⟨inside, rfl⟩ := List.getElem?_eq_some_iff.mp found
  have whole : items = items.take index ++ items[index] :: items.drop (index + 1) := by
    rw [List.cons_getElem_drop_succ, List.take_append_drop]
  rw [List.modify_eq_take_cons_drop inside]
  calc items[index] :: (items.take index ++ change items[index] :: items.drop (index + 1))
      _ ~ items[index] :: change items[index] ::
          (items.take index ++ items.drop (index + 1)) := .cons _ List.perm_middle
      _ ~ change items[index] :: items[index] ::
          (items.take index ++ items.drop (index + 1)) := .swap _ _ _
      _ ~ change items[index] ::
          (items.take index ++ items[index] :: items.drop (index + 1)) :=
        .cons _ List.perm_middle.symm
      _ = change items[index] :: items := by rw [← whole]

open List in
/-- Methods with new names, and those that stand in for them, are the methods as they were and those
that were renamed. -/
theorem perm_applyRenames {renames : List (Nat × String)} (type : TypeDef)
    (distinct : (renames.map (·.1)).Nodup) :
    ((applyRenames renames type.methods).map (·.key) ++ type.keysAt renames).Perm
      (type.methodKeys ++ type.renamedKeys renames) := by
  induction renames generalizing type with
  | nil => exact .refl _
  | cons edit more ih =>
    rcases edit with ⟨index, name⟩
    rw [List.map_cons, List.nodup_cons] at distinct
    let change := fun method : Method => { method with name, attributes := [] }
    let next : TypeDef := { type with methods := type.methods.modify index change }
    have others : ∀ edit ∈ more, next.methods[edit.1]? = type.methods[edit.1]? := by
      intro edit member
      refine List.getElem?_modify_ne _ _ fun same => distinct.1 ?_
      exact List.mem_map.mpr ⟨edit, member, same.symm⟩
    have standing : next.keysAt more = type.keysAt more :=
      List.filterMap_congr fun edit member => by rw [others edit member]
    have renamed : next.renamedKeys more = type.renamedKeys more :=
      List.filterMap_congr fun edit member => by rw [others edit member]
    have later := ih next distinct.2
    rw [standing, renamed] at later
    change ((applyRenames more next.methods).map (·.key) ++ _).Perm _
    cases found : type.methods[index]? with
    | none =>
      have unchanged : next.methods = type.methods :=
        List.modify_eq_self (List.getElem?_eq_none_iff.mp found)
      have nothing : type.keysAt ((index, name) :: more) = type.keysAt more := by
        simp only [TypeDef.keysAt, List.filterMap_cons, found, Option.map_none]
      have unnamed : type.renamedKeys ((index, name) :: more) = type.renamedKeys more := by
        simp only [TypeDef.renamedKeys, List.filterMap_cons, found, Option.map_none]
      rw [nothing, unnamed]
      change _ ~ next.methods.map (·.key) ++ _ at later
      rw [unchanged] at later ⊢
      exact later
    | some method =>
      have stands : type.keysAt ((index, name) :: more) = method.key :: type.keysAt more := by
        simp only [TypeDef.keysAt, List.filterMap_cons, found, Option.map_some]
      have named : type.renamedKeys ((index, name) :: more) =
          (change method).key :: type.renamedKeys more := by
        simp only [TypeDef.renamedKeys, List.filterMap_cons, found, Option.map_some]
        rfl
      have moved : (method.key :: next.methodKeys).Perm
          ((change method).key :: type.methodKeys) :=
        (perm_modify change found).map Method.key
      rw [stands, named]
      calc _ ~ method.key :: (_ ++ type.keysAt more) := perm_middle
        _ ~ method.key :: (next.methodKeys ++ type.renamedKeys more) := later.cons _
        _ ~ (change method).key :: (type.methodKeys ++ type.renamedKeys more) :=
          moved.append_right _
        _ ~ _ := perm_middle.symm

/-! ## The whole -/

/-- Code for the initializer goes into one that exists, or else into one without parameters. -/
theorem keys_of_installPrelude {prelude : Fragment} {extended : TypeDef}
    (installed : installPrelude prelude type = .ok extended) :
    extended.fields = type.fields ∧ (extended.methodKeys = type.methodKeys ∨
      extended.methodKeys = type.methodKeys ++ [Method.initializerKey] ∧
        type.methods.any (·.isTypeInitializer) = false) := by
  cases installs_of_installPrelude installed with
  | idle => exact ⟨rfl, .inl rfl⟩
  | added _ missing =>
    refine ⟨rfl, .inr ⟨List.map_append, List.any_eq_false.mpr fun method member => ?_⟩⟩
    rw [missing method member]
    exact Bool.false_ne_true
  | extended _ here => exact ⟨rfl, .inl (map_set_of_eq Method.key here rfl)⟩

/-- Removing methods leaves the fields and the order of the other methods. -/
theorem keys_of_applyRemovals {indices : List Nat} {reduced : TypeDef}
    (removed : applyRemovals indices type = .ok reduced) :
    reduced.fields = type.fields ∧ reduced.methodKeys.Sublist type.methodKeys := by
  refine applyRemovals_induction
    (fun left => left.fields = type.fields ∧ left.methodKeys.Sublist type.methodKeys) removed
    ⟨rfl, .refl _⟩ ?_
  intro left index _ next inside taken
  rcases Option.map_eq_some_iff.mp taken with ⟨_, _, same⟩
  cases same
  exact ⟨inside.1, ((List.eraseIdx_sublist _ _).map _).trans inside.2⟩

/-- An initializer of the type is one of the edited type, or another one stands in for it. -/
theorem Adds.any_isTypeInitializer (adds : plan.Adds type additions) {methods : List Method}
    (bodied : applyBodies plan.bodies type.methods = .ok methods)
    (present : type.methods.any (·.isTypeInitializer) = true) :
    (applyRenames plan.renames methods ++ plan.methods).any (·.isTypeInitializer) = true := by
  rcases List.any_eq_true.mp present with ⟨method, member, initializes⟩
  rcases List.mem_iff_getElem?.mp member with ⟨index, there⟩
  rw [List.any_append, Bool.or_eq_true]
  by_cases renamed : index ∈ plan.renames.map (·.1)
  · right
    rcases List.mem_map.mp renamed with ⟨edit, planned, rfl⟩
    exact adds.initializer edit planned method there initializes
  · left
    have views := map_of_applyBodies Method.isTypeInitializer bodied fun _ _ => rfl
    have viewed := congrArg (·[index]?) views
    simp only [List.getElem?_map, there, Option.map_some, initializes] at viewed
    rcases Option.map_eq_some_iff.mp viewed with ⟨other, here, still⟩
    exact List.any_eq_true.mpr
      ⟨other, List.mem_of_getElem? ((getElem?_applyRenames_of_not_mem renamed).trans here), still⟩

/-- The fields of the edited type are those of the type and the added ones, without the removed
ones. -/
theorem Adds.fieldNames_of_apply (adds : plan.Adds type additions)
    (applied : plan.apply type = .ok now) :
    now.fieldNames =
      (type.fieldNames ++ additions.fields).filter (!additions.removed.contains ·) := by
  rcases exists_stages_of_apply applied with
    ⟨bodied, initialized, reduced, ⟨_, installed, removed⟩, rfl⟩
  have fields : reduced.fields = type.fields ++ plan.fields :=
    (keys_of_applyRemovals removed).1.trans (keys_of_installPrelude installed).1
  have names : (type.fields ++ plan.fields).map (·.name) = type.fieldNames ++ additions.fields := by
    rw [List.map_append, adds.fields]
    rfl
  change (reduced.fields.filter _).map (·.name) = _
  rw [fields, ← names, ← adds.removed, List.filter_map]
  rfl

open List in
/-- The methods that exist and those that are added are, under their new names, among those of the
type, the added ones and the renamed ones. -/
theorem Adds.subperm_applyRenames (adds : plan.Adds type additions)
    (distinct : (additions.renames.map (·.1)).Nodup) {bodied : List Method}
    (bodies : applyBodies plan.bodies type.methods = .ok bodied) :
    (applyRenames plan.renames bodied ++ plan.methods).map (·.key) <+~
      type.methodKeys ++ additions.methods ++ type.renamedKeys additions.renames := by
  have counted : (applyRenames plan.renames bodied).map (·.key) ++ type.keysAt additions.renames ~
      type.methodKeys ++ type.renamedKeys additions.renames := by
    have same : TypeDef.methodKeys { type with methods := bodied } = type.methodKeys :=
      map_of_applyBodies Method.key bodies fun _ _ => rfl
    have moved := perm_applyRenames { type with methods := bodied } (adds.renames ▸ distinct)
    rw [same, TypeDef.keysAt_congr _ same, TypeDef.renamedKeys_congr _ same, adds.renames] at moved
    exact adds.renames ▸ moved
  rw [List.map_append]
  refine ((List.Subperm.refl _).append adds.methods).trans (Perm.subperm ?_)
  calc _ ~ (applyRenames plan.renames bodied).map (·.key)
        ++ (type.keysAt additions.renames ++ additions.methods) :=
      perm_append_comm.append_left _
    _ ~ type.methodKeys ++ type.renamedKeys additions.renames ++ additions.methods := by
      rw [← List.append_assoc]
      exact counted.append_right _
    _ ~ type.methodKeys ++ (additions.methods ++ type.renamedKeys additions.renames) := by
      rw [List.append_assoc]
      exact perm_append_comm.append_left _
    _ ~ _ := .of_eq (List.append_assoc _ _ _).symm

open List in
/-- The methods of the edited type are among those of the type, the added ones and the renamed ones,
and a new initializer. -/
theorem Adds.methodKeys_of_apply (adds : plan.Adds type additions)
    (distinct : (additions.renames.map (·.1)).Nodup) (applied : plan.apply type = .ok now) :
    now.methodKeys <+~ type.methodKeys ++ additions.methods ++ type.renamedKeys additions.renames
      ++ type.newInitializerKeys := by
  rcases exists_stages_of_apply applied with
    ⟨bodied, initialized, reduced, ⟨bodies, installed, removed⟩, rfl⟩
  have extended := adds.subperm_applyRenames distinct bodies
  refine (keys_of_applyRemovals removed).2.subperm.trans ?_
  rcases (keys_of_installPrelude installed).2 with same | ⟨longer, missing⟩
  · rw [same]
    exact extended.trans (List.sublist_append_left _ _).subperm
  · have none : type.methods.any (·.isTypeInitializer) = false := by
      rw [Bool.eq_false_iff]
      intro present
      have still := adds.any_isTypeInitializer bodies present
      rw [missing] at still
      cases still
    rw [longer, TypeDef.newInitializerKeys, none]
    exact extended.append (List.Subperm.refl _)

end TypePlan

end NativeWeave
