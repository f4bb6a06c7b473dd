import NativeWeave.Proofs.Editing.Stages

namespace NativeWeave

/-!
# Where methods end up

Applying a plan gives each method its last new body and its last new name, puts code in front of the
first initializer, and takes methods out by their indices.  So a method that is not taken out is
found in the edited type, and what is found there was made in one of these ways.
-/

namespace TypeDef

/-- The property at a place is read by one method and written by another. -/
def AccessedBy (type : TypeDef) (place : Nat) (reader writer : Method) : Prop :=
  ∃ property getter setter, type.properties[place]? = some property ∧
    property.getter = some getter ∧ property.setter = some setter ∧
    type.methods[UInt32.toNat getter]? = some reader ∧
    type.methods[UInt32.toNat setter]? = some writer

/-- An accessor that is not removed is found where it has moved to, and it does not move to the place
of an earlier method. -/
theorem exists_accessorWithout {index : Nat} {methods : List Method} {accessor : UInt32}
    {method : Method} (here : methods[accessor.toNat]? = some method)
    (other : accessor.toNat ≠ index) :
    ∃ moved, accessorWithout index (some accessor) = some moved ∧
      (methods.eraseIdx index)[moved.toNat]? = some method ∧
      ∀ earlier < index, accessor.toNat ≠ earlier → moved.toNat ≠ earlier := by
  by_cases behind : index < accessor.toNat
  · have positive : (1 : UInt32) ≤ accessor := by
      rw [UInt32.le_iff_toNat_le]
      exact Nat.lt_of_le_of_lt (Nat.zero_le index) behind
    have back : (accessor - 1).toNat = accessor.toNat - 1 := UInt32.toNat_sub_of_le _ _ positive
    refine ⟨accessor - 1, ?_, ?_, fun earlier before _ => ?_⟩
    · rw [accessorWithout, Option.bind_some, if_neg other, if_pos behind]
    · rw [back, List.getElem?_eraseIdx, if_neg (by omega), Nat.sub_add_cancel (by omega)]
      exact here
    · rw [back]
      omega
  · refine ⟨accessor, ?_, ?_, fun earlier _ stays => stays⟩
    · rw [accessorWithout, Option.bind_some, if_neg other, if_neg behind]
    · rw [List.getElem?_eraseIdx, if_pos (by omega)]
      exact here

end TypeDef

/-- The method with another body, if there is one. -/
def Method.withBody? (method : Method) (body? : Option Body) : Method :=
  { method with body := body?.or method.body }

namespace TypePlan

/-- The last of the bodies for the method with an index. -/
def lastBody? (index : Nat) : List (Nat × Body) → Option Body
  | [] => none
  | (place, body) :: more => (lastBody? index more).or (if place = index then some body else none)

/-- The method with an index under its last new name. -/
def renamed (index : Nat) : List (Nat × String) → Method → Method
  | [], method => method
  | (place, name) :: more, method =>
    renamed index more (if place = index then { method with name, attributes := [] } else method)

variable {index : Nat} {plan : TypePlan} {type reduced extended : TypeDef} {method : Method}

theorem lastBody?_append (index : Nat) (first second : List (Nat × Body)) :
    lastBody? index (first ++ second) = (lastBody? index second).or (lastBody? index first) := by
  induction first with
  | nil => exact Option.or_none.symm
  | cons edit more ih =>
    rw [List.cons_append, lastBody?, lastBody?, ih, Option.or_assoc]

theorem mem_of_lastBody? {bodies : List (Nat × Body)} {body : Body}
    (found : lastBody? index bodies = some body) : (index, body) ∈ bodies := by
  induction bodies with
  | nil => cases found
  | cons edit more ih =>
    rw [lastBody?, Option.or_eq_some_iff] at found
    rcases found with later | ⟨_, own⟩
    · exact List.mem_cons_of_mem _ (ih later)
    · split at own
      · next same =>
        cases own
        subst same
        exact List.mem_cons_self
      · cases own

/-- A method without a last body has none at all. -/
theorem not_replaced_of_lastBody? {bodies : List (Nat × Body)}
    (none : lastBody? index bodies = none) : bodies.any (·.1 == index) = false := by
  induction bodies with
  | nil => rfl
  | cons edit more ih =>
    rw [lastBody?, Option.or_eq_none_iff] at none
    rw [List.any_cons, ih none.1, Bool.or_false, beq_eq_false_iff_ne]
    intro same
    cases (if_pos same).symm.trans none.2

/-! ## New names -/

theorem renamed_of_ne {renames : List (Nat × String)}
    (named : ∀ edit ∈ renames, edit.1 ≠ index) (method : Method) :
    renamed index renames method = method := by
  induction renames with
  | nil => rfl
  | cons edit more ih =>
    rw [List.forall_mem_cons] at named
    rw [renamed, if_neg named.1, ih named.2]

/-- A method that gets one name several times is renamed once. -/
theorem renamed_of_mem {renames : List (Nat × String)} {name : String}
    (same : ∀ edit ∈ renames, edit.1 = index → edit.2 = name)
    (some : ∃ edit ∈ renames, edit.1 = index) (method : Method) :
    renamed index renames method = { method with name, attributes := [] } := by
  induction renames generalizing method with
  | nil =>
    rcases some with ⟨_, impossible, _⟩
    cases impossible
  | cons edit more ih =>
    rcases edit with ⟨place, other⟩
    rw [List.forall_mem_cons] at same
    rw [renamed]
    by_cases later : ∃ edit ∈ more, edit.1 = index
    · rw [ih same.2 later]
      split <;> rfl
    · have here : place = index := by
        rcases some with ⟨edit, member, found⟩
        rcases List.mem_cons.mp member with rfl | rest
        · exact found
        · exact (later ⟨edit, rest, found⟩).elim
      have given : other = name := same.1 here
      subst given
      rw [if_pos here]
      exact renamed_of_ne (fun edit member found => later ⟨edit, member, found⟩) _

/-- New names change nothing else of a method. -/
theorem view_renamed {β : Type} (view : Method → β)
    (blind : ∀ (method : Method) name attributes,
      view { method with name, attributes } = view method) (index : Nat)
    (renames : List (Nat × String)) (method : Method) :
    view (renamed index renames method) = view method := by
  induction renames generalizing method with
  | nil => rfl
  | cons edit more ih =>
    rw [renamed, ih]
    split
    · exact blind method _ _
    · rfl

theorem body_renamed (index : Nat) (renames : List (Nat × String)) (method : Method) :
    (renamed index renames method).body = method.body :=
  view_renamed Method.body (fun _ _ _ => rfl) index renames method

theorem isStatic_renamed (index : Nat) (renames : List (Nat × String)) (method : Method) :
    (renamed index renames method).isStatic = method.isStatic :=
  view_renamed Method.isStatic (fun _ _ _ => rfl) index renames method

theorem name_renamed (index : Nat) (renames : List (Nat × String)) (method : Method) :
    (renamed index renames method).name = method.name ∨
      (index, (renamed index renames method).name) ∈ renames := by
  induction renames generalizing method with
  | nil => exact .inl rfl
  | cons edit more ih =>
    rw [renamed]
    split
    · next same =>
      subst same
      right
      rcases ih { method with name := edit.2, attributes := [] } with kept | later
      · rw [kept]
        exact List.mem_cons_self
      · exact List.mem_cons_of_mem _ later
    · exact (ih method).imp_right (List.mem_cons_of_mem _)

/-- New names do not depend on bodies. -/
theorem renamed_withBody? (index : Nat) (renames : List (Nat × String)) (method : Method)
    (body? : Option Body) :
    renamed index renames (method.withBody? body?) =
      (renamed index renames method).withBody? body? := by
  induction renames generalizing method with
  | nil => rfl
  | cons edit more ih =>
    simp only [renamed]
    by_cases same : edit.1 = index
    · rw [if_pos same, if_pos same]
      exact ih { method with name := edit.2, attributes := [] }
    · rw [if_neg same, if_neg same]
      exact ih method

/-! ## The steps of applying a plan -/

theorem getElem?_applyBodies {bodies : List (Nat × Body)} {methods edited : List Method}
    (applied : applyBodies bodies methods = .ok edited) (index : Nat) :
    edited[index]? = methods[index]?.map (·.withBody? (lastBody? index bodies)) := by
  induction bodies generalizing methods with
  | nil =>
    cases applied
    cases edited[index]? with
    | none => rfl
    | some method => rfl
  | cons edit more ih =>
    rcases edit with ⟨place, body⟩
    simp only [applyBodies] at applied
    cases here : methods[place]? with
    | none =>
      rw [here] at applied
      cases applied
    | some replaced =>
      rw [here] at applied
      rw [ih applied, lastBody?]
      by_cases same : place = index
      · subst same
        have inside := (List.getElem?_eq_some_iff.mp here).1
        rw [List.getElem?_set_self inside, here, if_pos rfl]
        cases lastBody? place more <;> rfl
      · rw [List.getElem?_set_ne same, if_neg same, Option.or_none]

theorem getElem?_applyRenames (renames : List (Nat × String)) (methods : List Method)
    (index : Nat) :
    (applyRenames renames methods)[index]? = methods[index]?.map (renamed index renames) := by
  induction renames generalizing methods with
  | nil => exact Option.map_id.symm ▸ rfl
  | cons edit more ih =>
    rcases edit with ⟨place, name⟩
    refine (ih _).trans ?_
    rw [List.getElem?_modify]
    cases methods[index]? with
    | none => rfl
    | some method => rfl

theorem getElem?_applyRenames_of_not_mem {renames : List (Nat × String)} {methods : List Method}
    (kept : index ∉ renames.map (·.1)) : (applyRenames renames methods)[index]? = methods[index]? := by
  have still : renamed index renames = id := funext fun method =>
    renamed_of_ne (fun edit member same => kept (List.mem_map.mpr ⟨edit, member, same⟩)) method
  rw [getElem?_applyRenames, still, Option.map_id]
  rfl

/-- What becomes of a body that code is put in front of. -/
def Prepends (prelude : Fragment) (body? later? : Option Body) : Prop :=
  prelude = [] ∧ later? = body? ∨ prelude ≠ [] ∧
    ∃ later, prependCode prelude (body?.getD {}) = .ok later ∧ later? = some later

theorem FirstInitializer.unique {methods : List Method} {place : Nat}
    (first : FirstInitializer methods index) (other : FirstInitializer methods place) :
    index = place := by
  rcases first.here with ⟨one, here, initializes⟩
  rcases other.here with ⟨two, there, also⟩
  rcases Nat.lt_trichotomy index place with before | same | behind
  · rw [other.first index before one here] at initializes
    cases initializes
  · exact same
  · rw [first.first place behind two there] at also
    cases also

/-- Code for the initializer changes methods only. -/
theorem exists_of_installPrelude {prelude : Fragment}
    (installed : installPrelude prelude type = .ok extended) :
    ∃ methods, extended = { type with methods } := by
  cases installs_of_installPrelude installed with
  | idle => exact ⟨type.methods, rfl⟩
  | added => exact ⟨_, rfl⟩
  | extended => exact ⟨_, rfl⟩

/-- Code in front of the initializer leaves the other methods as they are. -/
theorem getElem?_of_installPrelude {prelude : Fragment}
    (installed : installPrelude prelude type = .ok extended)
    (here : type.methods[index]? = some method) (other : ¬ FirstInitializer type.methods index) :
    extended.methods[index]? = some method := by
  cases installs_of_installPrelude installed with
  | idle => exact here
  | added => exact (List.getElem?_append_left (List.getElem?_eq_some_iff.mp here).1).trans here
  | @extended _ place _ _ _ _ first _ =>
    have different : place ≠ index := by
      rintro rfl
      exact other first
    exact (List.getElem?_set_ne different).trans here

/-- The first initializer gets the code in front of its own. -/
theorem getElem?_of_installPrelude_of_first {prelude : Fragment}
    (installed : installPrelude prelude type = .ok extended)
    (here : type.methods[index]? = some method) (first : FirstInitializer type.methods index) :
    ∃ later?, Prepends prelude method.body later? ∧
      extended.methods[index]? = some { method with body := later? } := by
  cases installs_of_installPrelude installed with
  | idle empty => exact ⟨method.body, .inl ⟨empty, rfl⟩, here⟩
  | added _ missing =>
    rcases first.here with ⟨initializer, there, initializes⟩
    cases (missing initializer (List.mem_of_getElem? there)).symm.trans initializes
  | @extended _ _ body something there _ earliest prepended =>
    cases first.unique earliest
    cases here.symm.trans there
    refine ⟨some body, .inr ⟨something, body, prepended, rfl⟩, ?_⟩
    exact List.getElem?_set_self (List.getElem?_eq_some_iff.mp here).1

/-- What stands among the methods afterwards stood there before, has the code in front of its own, or
is a new initializer. -/
theorem of_installPrelude {prelude : Fragment}
    (installed : installPrelude prelude type = .ok extended)
    (there : extended.methods[index]? = some method) :
    type.methods[index]? = some method ∨
      (∃ source, type.methods[index]? = some source ∧ source.isTypeInitializer = true ∧ ∃ later,
        prependCode prelude (source.body.getD {}) = .ok later ∧
          method = { source with body := some later }) ∨
      method = newInitializer prelude := by
  cases installs_of_installPrelude installed with
  | idle => exact .inl there
  | added =>
    change (type.methods ++ [newInitializer prelude])[index]? = some method at there
    rw [List.getElem?_append] at there
    split at there
    · exact .inl there
    · exact .inr (.inr (List.mem_singleton.mp (List.mem_of_getElem? there)))
  | @extended initializer _ body _ here initializes _ prepended =>
    rw [List.getElem?_set] at there
    split at there
    · next same =>
      subst same
      split at there
      · cases there
        exact .inr (.inl ⟨initializer, here, initializes, body, prepended, rfl⟩)
      · cases there
    · exact .inl there

/-- Removing methods one after another, from the last to the first, leaves the methods at the other
indices. -/
theorem mem_iff_of_removals {indices : List Nat} {remove : TypeDef → Nat → Weave TypeDef}
    (removes : Removes remove) (ordered : indices.Pairwise (· > ·))
    (removed : indices.foldlM remove type = .ok reduced) :
    method ∈ reduced.methods ↔ ∃ index ∉ indices, type.methods[index]? = some method := by
  induction indices generalizing type with
  | nil =>
    cases removed
    rw [List.mem_iff_getElem?]
    simp
  | cons place more ih =>
    rw [List.pairwise_cons] at ordered
    rcases bind_eq_ok_iff.mp removed with ⟨next, step, rest⟩
    rw [ih ordered.2 rest]
    constructor
    · rintro ⟨index, stays, found⟩
      rw [removes.methods step, List.getElem?_eraseIdx] at found
      split at found
      · next before =>
        refine ⟨index, fun member => ?_, found⟩
        rcases List.mem_cons.mp member with rfl | later
        · exact Nat.lt_irrefl _ before
        · exact stays later
      · next behind =>
        refine ⟨index + 1, fun member => ?_, found⟩
        rcases List.mem_cons.mp member with same | later
        · omega
        · have before := ordered.1 _ later
          omega
    · rintro ⟨index, stays, found⟩
      rw [List.mem_cons, not_or] at stays
      by_cases before : index < place
      · refine ⟨index, stays.2, ?_⟩
        rw [removes.methods step, List.getElem?_eraseIdx, if_pos before]
        exact found
      · refine ⟨index - 1, fun member => ?_, ?_⟩
        · have order := ordered.1 _ member
          omega
        · rw [removes.methods step, List.getElem?_eraseIdx, if_neg (by omega),
            Nat.sub_add_cancel (by omega)]
          exact found

/-- The methods that are left are those at the other indices. -/
theorem mem_iff_of_applyRemovals {indices : List Nat}
    (removed : applyRemovals indices type = .ok reduced) :
    method ∈ reduced.methods ↔ ∃ index ∉ indices, type.methods[index]? = some method := by
  rcases exists_order_of_applyRemovals removed with ⟨order, remove, ordered, same, removes, run⟩
  rw [mem_iff_of_removals removes ordered run]
  simp only [same]

/-- A property goes on being read and written by the methods that it names, if those stay. -/
theorem accessedBy_of_removals {indices : List Nat} {remove : TypeDef → Nat → Weave TypeDef}
    (removes : Removes remove) (ordered : indices.Pairwise (· > ·))
    (removed : indices.foldlM remove type = .ok reduced) {place : Nat} {property : Property}
    {getter setter : UInt32} {reader writer : Method}
    (here : type.properties[place]? = some property) (reads : property.getter = some getter)
    (writes : property.setter = some setter) (first : type.methods[getter.toNat]? = some reader)
    (second : type.methods[setter.toNat]? = some writer) (getterStays : getter.toNat ∉ indices)
    (setterStays : setter.toNat ∉ indices) : reduced.AccessedBy place reader writer := by
  induction indices generalizing type property getter setter with
  | nil =>
    cases removed
    exact ⟨property, getter, setter, here, reads, writes, first, second⟩
  | cons cut more ih =>
    rw [List.pairwise_cons] at ordered
    rw [List.mem_cons, not_or] at getterStays setterStays
    rcases bind_eq_ok_iff.mp removed with ⟨next, step, rest⟩
    rcases removes step with ⟨method, parts⟩
    rcases Option.map_eq_some_iff.mp parts with ⟨_, _, same⟩
    cases same
    rcases TypeDef.exists_accessorWithout first getterStays.1 with ⟨read, readMoved, reader, low⟩
    rcases TypeDef.exists_accessorWithout second setterStays.1 with ⟨write, writeMoved, writer, also⟩
    let moved : Property := { property with
      getter := TypeDef.accessorWithout cut property.getter
      setter := TypeDef.accessorWithout cut property.setter }
    have there : (type.properties.map fun property => { property with
        getter := TypeDef.accessorWithout cut property.getter
        setter := TypeDef.accessorWithout cut property.setter })[place]? = some moved := by
      rw [List.getElem?_map, here]
      rfl
    rw [← reads] at readMoved
    rw [← writes] at writeMoved
    refine ih ordered.2 rest there readMoved writeMoved reader writer ?_ ?_
    · exact fun member => low _ (ordered.1 _ member) (fun stays => getterStays.2 (stays ▸ member)) rfl
    · exact fun member => also _ (ordered.1 _ member) (fun stays => setterStays.2 (stays ▸ member)) rfl

/-! ## The whole -/

/-- The plan runs its prelude in the method with an index: of the methods that are initializers under
their new names, that one is the first. -/
structure Initializes (plan : TypePlan) (type : TypeDef) (index : Nat) : Prop where
  here : ∃ method, type.methods[index]? = some method ∧
    (renamed index plan.renames method).isTypeInitializer = true
  first : ∀ earlier < index, ∀ method, type.methods[earlier]? = some method →
    (renamed earlier plan.renames method).isTypeInitializer = false

/-- Bodies do not matter for which method is the initializer. -/
theorem firstInitializer_iff {bodied : List Method}
    (bodies : applyBodies plan.bodies type.methods = .ok bodied) (inside : index < type.methods.length) :
    FirstInitializer (applyRenames plan.renames bodied ++ plan.methods) index ↔
      plan.Initializes type index := by
  have found : ∀ place ≤ index, (applyRenames plan.renames bodied ++ plan.methods)[place]? =
      type.methods[place]?.map fun method => (renamed place plan.renames method).withBody?
        (lastBody? place plan.bodies) := by
    intro place before
    have moved : (applyRenames plan.renames bodied)[place]? =
        type.methods[place]?.map fun method => (renamed place plan.renames method).withBody?
          (lastBody? place plan.bodies) := by
      rw [getElem?_applyRenames, getElem?_applyBodies bodies, Option.map_map]
      congr 1
      funext method
      exact renamed_withBody? _ _ _ _
    have within := List.getElem?_eq_getElem (Nat.lt_of_le_of_lt before inside)
    rw [within, Option.map_some] at moved
    rw [within, Option.map_some, ← moved]
    exact List.getElem?_append_left (List.getElem?_eq_some_iff.mp moved).1
  constructor
  · rintro ⟨⟨method, here, initializes⟩, first⟩
    refine ⟨?_, fun earlier before other there => ?_⟩
    · rw [found index (Nat.le_refl _)] at here
      rcases Option.map_eq_some_iff.mp here with ⟨source, there, rfl⟩
      exact ⟨source, there, initializes⟩
    · have moved := found earlier (Nat.le_of_lt before)
      rw [there, Option.map_some] at moved
      have missed := first earlier before _ moved
      exact missed
  · rintro ⟨⟨method, here, initializes⟩, first⟩
    have moved := found index (Nat.le_refl _)
    rw [here, Option.map_some] at moved
    refine ⟨⟨_, moved, initializes⟩, fun earlier before other there => ?_⟩
    · rw [found earlier (Nat.le_of_lt before)] at there
      rcases Option.map_eq_some_iff.mp there with ⟨source, stood, rfl⟩
      exact first earlier before source stood

/-- Before methods are taken out, each one has its last new body and its last new name. -/
theorem getElem?_before_removals {bodied : List Method}
    (bodies : applyBodies plan.bodies type.methods = .ok bodied)
    (here : type.methods[index]? = some method) :
    (applyRenames plan.renames bodied ++ plan.methods)[index]? =
      some ((renamed index plan.renames method).withBody? (lastBody? index plan.bodies)) := by
  have moved : (applyRenames plan.renames bodied)[index]? =
      some ((renamed index plan.renames method).withBody? (lastBody? index plan.bodies)) := by
    rw [getElem?_applyRenames, getElem?_applyBodies bodies, here, Option.map_some,
      Option.map_some, renamed_withBody?]
  exact (List.getElem?_append_left (List.getElem?_eq_some_iff.mp moved).1).trans moved

/-- A method that is not taken out is found in the edited type, with its last new body under its last
new name; and the first initializer has the prelude in front of its code. -/
theorem mem_of_apply (applied : plan.apply type = .ok reduced)
    (here : type.methods[index]? = some method) (stays : index ∉ plan.removedMethods) :
    (¬ plan.Initializes type index → (renamed index plan.renames method).withBody?
      (lastBody? index plan.bodies) ∈ reduced.methods) ∧
    (plan.Initializes type index → ∃ later?,
      Prepends plan.prelude ((lastBody? index plan.bodies).or method.body) later? ∧
      { renamed index plan.renames method with body := later? } ∈ reduced.methods) := by
  rcases exists_stages_of_apply applied with
    ⟨bodied, initialized, rest, ⟨bodies, installed, removed⟩, rfl⟩
  have there := getElem?_before_removals bodies here
  have same := firstInitializer_iff bodies (List.getElem?_eq_some_iff.mp here).1
  have kept : ∀ {found : Method}, initialized.methods[index]? = some found →
      found ∈ rest.methods := fun stood => (mem_iff_of_applyRemovals removed).mpr ⟨_, stays, stood⟩
  constructor
  · intro other
    exact kept (getElem?_of_installPrelude installed there fun first => other (same.mp first))
  · intro initializes
    rcases getElem?_of_installPrelude_of_first installed there (same.mpr initializes) with
      ⟨later?, prepends, stood⟩
    change Prepends _ (Option.or _ (renamed index plan.renames method).body) _ at prepends
    rw [body_renamed] at prepends
    exact ⟨later?, prepends, kept stood⟩

/-- A method of objects is no initializer under any name. -/
theorem not_firstInitializer {methods : List Method} {body? : Option Body}
    (there : methods[index]? = some ((renamed index plan.renames method).withBody? body?))
    (instanced : method.isStatic = false) : ¬ FirstInitializer methods index := by
  rintro ⟨⟨other, here, initializes⟩, _⟩
  cases there.symm.trans here
  rw [Method.isTypeInitializer, Bool.and_eq_true] at initializes
  have same : (renamed index plan.renames method).isStatic = false := by
    rw [isStatic_renamed]
    exact instanced
  cases same.symm.trans initializes.2

/-- A property goes on being read and written by the methods that it names, with their last new bodies
under their last new names, if they are methods of objects that are not taken out. -/
theorem accessedBy_of_apply (applied : plan.apply type = .ok reduced) {place : Nat}
    {property : Property} {getter setter : UInt32} {reader writer : Method}
    (here : type.properties[place]? = some property) (reads : property.getter = some getter)
    (writes : property.setter = some setter) (first : type.methods[getter.toNat]? = some reader)
    (second : type.methods[setter.toNat]? = some writer) (readerInstanced : reader.isStatic = false)
    (writerInstanced : writer.isStatic = false) (getterStays : getter.toNat ∉ plan.removedMethods)
    (setterStays : setter.toNat ∉ plan.removedMethods) :
    reduced.AccessedBy place
      ((renamed getter.toNat plan.renames reader).withBody? (lastBody? getter.toNat plan.bodies))
      ((renamed setter.toNat plan.renames writer).withBody? (lastBody? setter.toNat plan.bodies)) := by
  rcases exists_stages_of_apply applied with
    ⟨bodied, initialized, rest, ⟨bodies, installed, removed⟩, rfl⟩
  have reading := getElem?_before_removals bodies first
  have writing := getElem?_before_removals bodies second
  have read := getElem?_of_installPrelude installed reading
    (not_firstInitializer reading readerInstanced)
  have written := getElem?_of_installPrelude installed writing
    (not_firstInitializer writing writerInstanced)
  rcases exists_of_installPrelude installed with ⟨methods, rfl⟩
  rcases exists_order_of_applyRemovals removed with ⟨order, remove, ordered, same, removes, run⟩
  exact accessedBy_of_removals removes ordered run here reads writes read written
    (fun member => getterStays ((same _).mp member)) fun member => setterStays ((same _).mp member)

/-- A condition holds of all methods of the edited type if it holds of the methods that the plan
brings and of those that it leaves, and neither new names nor code in front of other code break it. -/
theorem forall_method_of_apply {condition : Method → Prop} (applied : plan.apply type = .ok reduced)
    (bodies : ∀ edit ∈ plan.bodies, ∀ method, type.methods[edit.1]? = some method →
      condition { method with body := some edit.2 })
    (methods : ∀ method ∈ plan.methods, condition method)
    (left : ∀ index method, type.methods[index]? = some method → index ∉ plan.removedMethods →
      lastBody? index plan.bodies = none → condition method)
    (renames : ∀ edit ∈ plan.renames, ∀ method, condition method →
      condition { method with name := edit.2, attributes := [] })
    (prelude : ∀ method later, method.isTypeInitializer = true →
      prependCode plan.prelude (method.body.getD {}) = .ok later → condition method →
      condition { method with body := some later })
    (fresh : condition (newInitializer plan.prelude)) : ∀ method ∈ reduced.methods,
      condition method := by
  rcases exists_stages_of_apply applied with
    ⟨bodied, initialized, rest, ⟨replaced, installed, removed⟩, rfl⟩
  have named : ∀ index renames, (∀ edit ∈ renames, edit ∈ plan.renames) → ∀ method,
      condition method → condition (renamed index renames method) := by
    intro index renames
    induction renames with
    | nil => exact fun _ _ holds => holds
    | cons edit more ih =>
      intro inside method holds
      rw [List.forall_mem_cons] at inside
      rw [renamed]
      refine ih inside.2 _ ?_
      split
      · exact renames edit inside.1 method holds
      · exact holds
  have before : ∀ index ∉ plan.removedMethods, ∀ method,
      (applyRenames plan.renames bodied ++ plan.methods)[index]? = some method →
        condition method := by
    intro index stays method there
    rw [List.getElem?_append] at there
    split at there
    · rw [getElem?_applyRenames, getElem?_applyBodies replaced] at there
      rcases Option.map_eq_some_iff.mp there with ⟨edited, inner, rfl⟩
      rcases Option.map_eq_some_iff.mp inner with ⟨source, stood, rfl⟩
      refine named index plan.renames (fun _ => id) _ ?_
      cases own : lastBody? index plan.bodies with
      | some body => exact bodies _ (mem_of_lastBody? own) source stood
      | none => exact left index source stood stays own
    · exact methods method (List.mem_of_getElem? there)
  intro method member
  rcases (mem_iff_of_applyRemovals removed).mp member with ⟨index, stays, stood⟩
  rcases of_installPrelude installed stood with
    there | ⟨source, there, initializes, later, prepended, rfl⟩ | rfl
  · exact before index stays method there
  · exact prelude source later initializes prepended (before index stays source there)
  · exact fresh

/-- So does a condition on the code alone. -/
theorem forall_body_of_apply {condition : Body → Prop} (applied : plan.apply type = .ok reduced)
    (bodies : ∀ edit ∈ plan.bodies, condition edit.2)
    (methods : ∀ method ∈ plan.methods, ∀ body ∈ method.body, condition body)
    (left : ∀ index method body, type.methods[index]? = some method → method.body = some body →
      index ∉ plan.removedMethods → lastBody? index plan.bodies = none → condition body)
    (prelude : ∀ body later, prependCode plan.prelude body = .ok later → condition body →
      condition later)
    (empty : condition {}) (fresh : ∀ body ∈ (newInitializer plan.prelude).body, condition body) :
    ∀ method ∈ reduced.methods, ∀ body ∈ method.body, condition body := by
  let covered := fun (method : Method) => ∀ body ∈ method.body, condition body
  suffices all : ∀ method ∈ reduced.methods, covered method from all
  refine forall_method_of_apply applied ?_ methods ?_ (fun _ _ _ => id) ?_ fresh
  · rintro edit member method _ body ⟨rfl⟩
    exact bodies edit member
  · exact fun index method here stays own body bodied =>
      left index method body here bodied stays own
  · rintro method later _ prepended holds body ⟨rfl⟩
    refine prelude _ _ prepended ?_
    cases given : method.body with
    | none => exact empty
    | some original => exact holds original given

end TypePlan

end NativeWeave
