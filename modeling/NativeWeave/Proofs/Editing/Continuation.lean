import Mathlib.Data.List.Forall2
import Mathlib.Data.List.TakeDrop
import NativeWeave.Naming
import NativeWeave.Proofs.Editing.Placement

namespace NativeWeave

/-!
# What goes on in an edited type

Applying a plan takes methods out of a type while the indices of the others are in use: properties
name their accessors by them.  Each property of the edited type names the methods that go on for those
that it named before, or none in place of a method that was taken out; and the methods that go on stand
in their old order in front of everything that was added.
-/

/-! ## Lists without some places -/

section

variable {α : Type}

/-- The items that are not at one of the places, each with its own place. -/
def remaining (removed : List Nat) (items : List α) : List (α × Nat) :=
  items.zipIdx.filter fun item => !removed.contains item.2

/-- Where the places behind one that is taken out move to. -/
def behind (place : Nat) (item : α × Nat) : α × Nat :=
  (item.1, if place < item.2 then item.2 - 1 else item.2)

theorem remaining_nil (items : List α) : remaining [] items = items.zipIdx :=
  List.filter_eq_self.mpr fun _ _ => rfl

/-- Only which places are taken out matters. -/
theorem remaining_congr {removed others : List Nat} (same : ∀ place, place ∈ removed ↔ place ∈ others)
    (items : List α) : remaining removed items = remaining others items := by
  refine List.filter_congr fun item _ => ?_
  rw [Bool.eq_iff_iff]
  simp [same]

theorem mem_remaining_iff {removed : List Nat} {items : List α} {item : α} {place : Nat} :
    (item, place) ∈ remaining removed items ↔ items[place]? = some item ∧ place ∉ removed := by
  unfold remaining
  rw [List.mem_filter, List.mk_mem_zipIdx_iff_getElem?]
  simp

/-- Items behind all the places stay. -/
theorem remaining_append {removed : List Nat} {front : List α} (back : List α)
    (inside : ∀ place ∈ removed, place < front.length) :
    remaining removed (front ++ back) = remaining removed front ++ back.zipIdx front.length := by
  unfold remaining
  rw [List.zipIdx_append, List.filter_append, Nat.zero_add]
  congr 1
  refine List.filter_eq_self.mpr ?_
  rintro ⟨item, place⟩ member
  have far := List.le_snd_of_mem_zipIdx member
  have other : place ∉ removed := fun taken => Nat.not_lt_of_le far (inside place taken)
  simpa using other

/-- Items in front of a place stay where they are when that is taken out. -/
theorem map_behind_remaining {more : List Nat} {front : List α} :
    (remaining (front.length :: more) front).map (behind front.length) = remaining more front := by
  have early : ∀ entry ∈ front.zipIdx, entry.2 < front.length := fun entry member => by
    simpa using List.snd_lt_of_mem_zipIdx member
  have same : remaining (front.length :: more) front = remaining more front := by
    refine List.filter_congr fun entry member => ?_
    have before := Nat.ne_of_lt (early entry member)
    simp [before]
  rw [same]
  refine (List.map_congr_left fun entry member => ?_).trans (List.map_id _)
  have before := early entry (List.mem_filter.mp member).1
  rw [behind, if_neg (Nat.lt_asymm before), id]

/-- Items behind a place move up by one when that is taken out. -/
theorem map_behind_zipIdx {place : Nat} {more : List Nat} (item : α) (back : List α)
    (last : ∀ other ∈ more, other < place) :
    (((item :: back).zipIdx place).filter fun entry => !(place :: more).contains entry.2).map
      (behind place) = back.zipIdx place := by
  have late : ((item :: back).zipIdx place).filter
      (fun entry => !(place :: more).contains entry.2) = back.zipIdx (place + 1) := by
    rw [List.zipIdx_cons, List.filter_cons_of_neg (by simp)]
    refine List.filter_eq_self.mpr fun entry member => ?_
    have far := List.le_snd_of_mem_zipIdx member
    have other : entry.2 ∉ more := fun taken => by
      have := last _ taken
      omega
    have apart : entry.2 ≠ place := by omega
    simp [other, apart]
  rw [late, List.zipIdx_succ, List.map_map]
  refine (List.map_congr_left fun entry member => ?_).trans (List.map_id _)
  have far := List.le_snd_of_mem_zipIdx member
  change behind place (entry.1, entry.2 + 1) = entry
  rw [behind, if_pos (by change place < entry.2 + 1; omega)]
  rfl

/-- The last of the places may be taken out first.  What is behind it moves up by one. -/
theorem remaining_append_cons {more : List Nat} {front : List α} (item : α) (back : List α)
    (last : ∀ place ∈ more, place < front.length) :
    remaining more (front ++ back) =
      (remaining (front.length :: more) (front ++ item :: back)).map (behind front.length) := by
  rw [remaining_append back last, ← map_behind_remaining, ← map_behind_zipIdx item back last,
    ← List.map_append, remaining, ← List.filter_append, remaining, List.zipIdx_append, Nat.zero_add]

/-- What stands at a place of one list is related to what stands there in the other. -/
theorem exists_of_getElem?_forall₂ {β : Type} {related : α → β → Prop} {items : List α}
    {results : List β} (all : List.Forall₂ related items results) {place : Nat} {result : β}
    (found : results[place]? = some result) :
    ∃ item, items[place]? = some item ∧ related item result := by
  induction all generalizing place with
  | nil => cases found
  | cons first _ ih =>
    cases place with
    | zero =>
      cases found
      exact ⟨_, rfl, first⟩
    | succ place => exact ih found

theorem remaining_eraseIdx {place : Nat} {more : List Nat} {items : List α}
    (within : place < items.length) (last : ∀ other ∈ more, other < place) :
    remaining more (items.eraseIdx place) = (remaining (place :: more) items).map (behind place) := by
  have split : items.take place ++ items[place] :: items.drop (place + 1) = items := by
    rw [List.cons_getElem_drop_succ, List.take_append_drop]
  have size : (items.take place).length = place := List.length_take_of_le (Nat.le_of_lt within)
  have moved := remaining_append_cons items[place] (items.drop (place + 1)) (size.symm ▸ last)
  rwa [size, split, ← List.eraseIdx_eq_take_drop_succ] at moved

end

namespace TypeDef

/-! ## Accessors while methods are taken out -/

/-- Accessors move with the methods that they name: one is lost with its method, and any other one
names the same method among those that remain. -/
structure Moves (removed : List Nat) (methods : List Method)
    (move : Option UInt32 → Option UInt32) : Prop where
  nothing : move none = none
  lost : ∀ place, move (some place) = none ↔ place.toNat ∈ removed
  named : ∀ place moved method, methods[place.toNat]? = some method →
    move (some place) = some moved →
      (remaining removed methods)[moved.toNat]? = some (method, place.toNat)

theorem moves_nil (methods : List Method) : Moves [] methods id where
  nothing := rfl
  lost place := by simp
  named place moved method here same := by
    cases same
    rw [remaining_nil, List.getElem?_zipIdx, here, Option.map_some, Nat.zero_add]

/-- An accessor of another method than the one that is taken out moves as the methods do. -/
theorem exists_accessorWithout_eq {cut : Nat} {place : UInt32} (other : place.toNat ≠ cut) :
    ∃ moved, accessorWithout cut (some place) = some moved ∧
      moved.toNat = if cut < place.toNat then place.toNat - 1 else place.toNat := by
  rw [accessorWithout, Option.bind_some, if_neg other]
  split
  · next before =>
    refine ⟨_, rfl, UInt32.toNat_sub_of_le _ _ (UInt32.le_iff_toNat_le.mpr ?_)⟩
    exact Nat.lt_of_le_of_lt (Nat.zero_le cut) before
  · exact ⟨_, rfl, rfl⟩

/-- After the last of some methods the others are taken out. -/
theorem Moves.cons {cut : Nat} {more : List Nat} {methods : List Method}
    {move : Option UInt32 → Option UInt32} (within : cut < methods.length)
    (last : ∀ other ∈ more, other < cut) (moves : Moves more (methods.eraseIdx cut) move) :
    Moves (cut :: more) methods (move ∘ accessorWithout cut) where
  nothing := moves.nothing
  lost place := by
    by_cases same : place.toNat = cut
    · have gone : accessorWithout cut (some place) = none := by
        rw [accessorWithout, Option.bind_some, if_pos same]
      simp [gone, moves.nothing, same]
    · rcases exists_accessorWithout_eq same with ⟨moved, step, size⟩
      rw [Function.comp_apply, step, moves.lost, List.mem_cons, or_iff_right same, size]
      split
      · -- Behind the last of the methods nothing else is taken out.
        have far : ∀ index ≥ cut, index ∉ more := fun index behind taken =>
          Nat.not_lt_of_le behind (last index taken)
        exact iff_of_false (far _ (by omega)) (far _ (by omega))
      · rfl
  named place final method here step := by
    by_cases same : place.toNat = cut
    · rw [Function.comp_apply, accessorWithout, Option.bind_some, if_pos same, moves.nothing] at step
      cases step
    · rcases exists_accessorWithout_eq same with ⟨moved, first, size⟩
      rw [Function.comp_apply, first] at step
      have there : (methods.eraseIdx cut)[moved.toNat]? = some method := by
        rw [size, List.getElem?_eraseIdx]
        split
        · rw [if_neg (by omega), Nat.sub_add_cancel (by omega), here]
        · rw [if_pos (by omega), here]
      have found := moves.named moved final method there step
      rw [remaining_eraseIdx within last, List.getElem?_map] at found
      rcases Option.map_eq_some_iff.mp found with ⟨⟨kept, index⟩, entry, pair⟩
      rcases Prod.mk.inj pair with ⟨rfl, shifted⟩
      have stays := (mem_remaining_iff.mp (List.mem_of_getElem? entry)).2
      rw [List.mem_cons, not_or] at stays
      have back : index = place.toNat := by
        change (if cut < index then index - 1 else index) = _ at shifted
        split at shifted <;> split at size <;> omega
      rwa [back] at entry

theorem Moves.congr {removed others : List Nat} {methods : List Method}
    {move : Option UInt32 → Option UInt32} (moves : Moves removed methods move)
    (same : ∀ place, place ∈ removed ↔ place ∈ others) : Moves others methods move where
  nothing := moves.nothing
  lost place := (moves.lost place).trans (same _)
  named := by
    rw [← remaining_congr same]
    exact moves.named

/-- The methods of a type after some were taken out, and the accessors that go on with them. -/
theorem of_removals {type reduced : TypeDef} {order : List Nat}
    {remove : TypeDef → Nat → Weave TypeDef} (removes : TypePlan.Removes remove)
    (ordered : order.Pairwise (· > ·)) (removed : order.foldlM remove type = .ok reduced) :
    reduced.methods = (remaining order type.methods).map Prod.fst ∧
      ∃ move, Moves order type.methods move ∧
        reduced.properties = type.properties.map fun property => { property with
          getter := move property.getter, setter := move property.setter } := by
  induction order generalizing type with
  | nil =>
    cases removed
    refine ⟨?_, id, moves_nil _, (List.map_id _).symm⟩
    rw [remaining_nil, List.zipIdx_map_fst]
  | cons cut more ih =>
    rw [List.pairwise_cons] at ordered
    rcases bind_eq_ok_iff.mp removed with ⟨next, step, rest⟩
    rcases removes step with ⟨method, parts⟩
    rcases Option.map_eq_some_iff.mp parts with ⟨_, here, same⟩
    have within := (List.getElem?_eq_some_iff.mp here).1
    cases same
    rcases ih ordered.2 rest with ⟨methods, move, moves, properties⟩
    refine ⟨?_, _, moves.cons within ordered.1, ?_⟩
    · rw [methods, remaining_eraseIdx within ordered.1, List.map_map]
      rfl
    · rw [properties, List.map_map]
      rfl

end TypeDef

/-! ## What goes on -/

/-- The method goes on in the other one, which may have another body and other annotations.  The code
of an exposed function goes on under a name of its own. -/
structure Method.Continues (method : Method) (exposed : Bool) (later : Method) : Prop where
  parameters : later.parameters = method.parameters
  result : later.result = method.result
  flags : later.flags = method.flags
  access : later.access = method.access
  source : later.source = method.source
  name : later.name = if exposed then Naming.implementation method.name else method.name

/-- The second accessor is what has become of the first one.  It is lost if the method that it named
is one of those that were taken out.  If not, it names the method that goes on for that one. -/
structure TypeDef.Follows (type now : TypeDef) (withdrawn : List Nat) (exposed : Nat → Bool)
    (accessor later : Option UInt32) : Prop where
  nothing : accessor = none → later = none
  lost : ∀ place, accessor = some place → (later = none ↔ place.toNat ∈ withdrawn)
  named : ∀ place moved method, accessor = some place → later = some moved →
    type.methods[place.toNat]? = some method →
      (remaining withdrawn type.methods)[moved.toNat]? = some (method, place.toNat) ∧
      ∃ other, now.methods[moved.toNat]? = some other ∧
        method.Continues (exposed place.toNat) other

/-- What has become of the methods and the properties of a type.  The methods that were not taken out
go on in their order in front of all others, and each property goes on with its accessors. -/
structure TypeDef.Continues (type now : TypeDef) (withdrawn : List Nat) (exposed : Nat → Bool) :
    Prop where
  methods : ∃ survivors added, now.methods = survivors ++ added ∧
    List.Forall₂ (fun kept later => kept.1.Continues (exposed kept.2) later)
      (remaining withdrawn type.methods) survivors
  properties : List.Forall₂ (fun property later : Property =>
    later = { property with getter := later.getter, setter := later.setter } ∧
      type.Follows now withdrawn exposed property.getter later.getter ∧
      type.Follows now withdrawn exposed property.setter later.setter) type.properties now.properties

/-- A property is read by a method. -/
def TypeDef.ReadBy (type : TypeDef) (place : Nat) (reader : Method) : Prop :=
  ∃ property getter, type.properties[place]? = some property ∧
    property.getter = some getter ∧ type.methods[UInt32.toNat getter]? = some reader

namespace TypePlan

variable {plan : TypePlan} {type now : TypeDef} {exposed : Nat → Bool}

/-- The plan gives new names to the exposed methods, and to each of them the name for its code. -/
def Renames (plan : TypePlan) (type : TypeDef) (exposed : Nat → Bool) : Prop :=
  ∀ index method, type.methods[index]? = some method →
    (∀ edit ∈ plan.renames, edit.1 = index → edit.2 = Naming.implementation method.name) ∧
    (exposed index = true ↔ ∃ edit ∈ plan.renames, edit.1 = index)

theorem Renames.continues (renames : plan.Renames type exposed) {index : Nat} {method : Method}
    (here : type.methods[index]? = some method) (body : Option Body) :
    method.Continues (exposed index) { renamed index plan.renames method with body } := by
  rcases renames index method here with ⟨named, shown⟩
  cases given : exposed index with
  | true =>
    rw [renamed_of_mem named (shown.mp given)]
    exact ⟨rfl, rfl, rfl, rfl, rfl, rfl⟩
  | false =>
    have none : ∀ edit ∈ plan.renames, edit.1 ≠ index := fun edit member same => by
      rw [shown.mpr ⟨edit, member, same⟩] at given
      cases given
    rw [renamed_of_ne none]
    exact ⟨rfl, rfl, rfl, rfl, rfl, rfl⟩

/-- Code for the initializer leaves each method where it is, with another body at most. -/
theorem exists_body_of_installPrelude {prelude : Fragment} {extended : TypeDef}
    (installed : installPrelude prelude type = .ok extended) {index : Nat} {method : Method}
    (here : type.methods[index]? = some method) :
    ∃ body, extended.methods[index]? = some { method with body } := by
  by_cases first : FirstInitializer type.methods index
  · rcases getElem?_of_installPrelude_of_first installed here first with ⟨later, _, there⟩
    exact ⟨later, there⟩
  · exact ⟨method.body, getElem?_of_installPrelude installed here first⟩

/-- A method with its place goes on in one with the same place. -/
def GoesOn (exposed : Nat → Bool) (item later : Method × Nat) : Prop :=
  item.2 = later.2 ∧ item.1.Continues (exposed item.2) later.1

/-- Before methods are taken out, those of the type stand in front of all others. -/
theorem goesOn_before_removals (renames : plan.Renames type exposed) {bodied : List Method}
    (bodies : applyBodies plan.bodies type.methods = .ok bodied) {extended initialized : TypeDef}
    (installed : installPrelude plan.prelude extended = .ok initialized)
    (methods : extended.methods = applyRenames plan.renames bodied ++ plan.methods) :
    ∃ front back, initialized.methods = front ++ back ∧
      List.Forall₂ (GoesOn exposed) type.methods.zipIdx front.zipIdx := by
  have there : ∀ (index : Nat) (method : Method), type.methods[index]? = some method →
      ∃ later, initialized.methods[index]? = some later ∧
        method.Continues (exposed index) later := by
    intro index method here
    have moved := getElem?_before_removals bodies here
    rw [← methods] at moved
    rcases exists_body_of_installPrelude installed moved with ⟨body, found⟩
    exact ⟨_, found, renames.continues here body⟩
  have within : ∀ index < type.methods.length, index < initialized.methods.length := by
    intro index inside
    rcases there index _ (List.getElem?_eq_getElem inside) with ⟨later, found, _⟩
    exact (List.getElem?_eq_some_iff.mp found).1
  have enough : type.methods.length ≤ initialized.methods.length := by
    by_contra short
    exact Nat.lt_irrefl _ (within _ (Nat.lt_of_not_le short))
  refine ⟨initialized.methods.take type.methods.length,
    initialized.methods.drop type.methods.length, (List.take_append_drop _ _).symm, ?_⟩
  refine List.forall₂_of_length_eq_of_get ?_ fun index one other => ?_
  · rw [List.length_zipIdx, List.length_zipIdx, List.length_take_of_le enough]
  · rw [List.length_zipIdx] at one
    rcases there index _ (List.getElem?_eq_getElem one) with ⟨later, found, continues⟩
    rcases List.getElem?_eq_some_iff.mp found with ⟨inside, rfl⟩
    simpa [GoesOn] using continues

/-- Where methods that go on stand in front, an accessor that names a method of the type goes on to
name the one that goes on for it. -/
theorem follows_of_moves {removed : List Nat} {front back : List Method}
    {move : Option UInt32 → Option UInt32} (goesOn : List.Forall₂ (GoesOn exposed)
      (remaining removed type.methods) (remaining removed front))
    (length : front.length = type.methods.length)
    (moves : TypeDef.Moves removed (front ++ back) move)
    (methods : now.methods = (remaining removed front).map Prod.fst ++ back)
    (inside : ∀ index ∈ removed, index < front.length) (accessor : Option UInt32) :
    type.Follows now removed exposed accessor (move accessor) where
  nothing none := none ▸ moves.nothing
  lost place given := given ▸ moves.lost place
  named place moved method given step here := by
    subst given
    have before : place.toNat < front.length := length ▸ (List.getElem?_eq_some_iff.mp here).1
    have stood : (front ++ back)[place.toNat]? = some front[place.toNat] := by
      rw [List.getElem?_append_left before, List.getElem?_eq_getElem before]
    have found := moves.named place moved _ stood step
    rw [remaining_append back inside, List.getElem?_append] at found
    split at found
    · rcases exists_of_getElem?_forall₂ goesOn found with ⟨⟨kept, index⟩, entry, rfl, continues⟩
      have stays := (mem_remaining_iff.mp (List.mem_of_getElem? entry)).1
      cases here.symm.trans stays
      refine ⟨entry, _, ?_, continues⟩
      rw [methods]
      refine List.getElem?_append_left ?_ |>.trans ?_
      · rw [List.length_map]
        exact (List.getElem?_eq_some_iff.mp found).1
      · rw [List.getElem?_map, found, Option.map_some]
    · have far := List.le_snd_of_mem_zipIdx (List.mem_of_getElem? found)
      exact absurd before (Nat.not_lt_of_le far)

/-- A type goes on in the type that a plan makes of it. -/
theorem continues_of_apply (applied : plan.apply type = .ok now)
    (inside : ∀ index ∈ plan.removedMethods, index < type.methods.length)
    (renames : plan.Renames type exposed) :
    type.Continues now plan.removedMethods exposed := by
  rcases exists_stages_of_apply applied with
    ⟨bodied, initialized, reduced, ⟨bodies, installed, removed⟩, final⟩
  have whole : now.methods = reduced.methods ∧ now.properties = reduced.properties := by
    rw [final]
    exact ⟨rfl, rfl⟩
  rcases goesOn_before_removals renames bodies installed rfl with ⟨front, back, split, goesOn⟩
  rcases exists_order_of_applyRemovals removed with ⟨order, remove, ordered, same, removes, run⟩
  rcases TypeDef.of_removals removes ordered run with ⟨methods, move, moves, properties⟩
  have length : front.length = type.methods.length := by
    have sizes := goesOn.length_eq
    rwa [List.length_zipIdx, List.length_zipIdx, eq_comm] at sizes
  have within : ∀ index ∈ plan.removedMethods, index < front.length := by
    rw [length]
    exact inside
  have kept : List.Forall₂ (GoesOn exposed) (remaining plan.removedMethods type.methods)
      (remaining plan.removedMethods front) := by
    refine List.rel_filter (fun one other goes => ?_) goesOn
    dsimp only
    rw [goes.1]
  have left : now.methods = (remaining plan.removedMethods front).map Prod.fst ++ back := by
    rw [whole.1, methods, remaining_congr same, split, remaining_append back within, List.map_append,
      List.zipIdx_map_fst]
  have listed : initialized.properties = type.properties := by
    rcases exists_of_installPrelude installed with ⟨_, rfl⟩
    rfl
  refine ⟨⟨_, back, left, List.forall₂_map_right_iff.mpr (kept.imp fun _ _ => And.right)⟩, ?_⟩
  rw [whole.2, properties, listed, List.forall₂_map_right_iff]
  have follows := follows_of_moves kept length (split ▸ moves.congr same) left within
  exact List.forall₂_same.mpr fun property _ => ⟨rfl, follows _, follows _⟩

/-- A property goes on being read by the method that it names, with its last new body under its last
new name, if that is a method of objects that is not taken out. -/
theorem readBy_of_apply (applied : plan.apply type = .ok now) {place : Nat}
    {property : Property} {getter : UInt32} {reader : Method}
    (here : type.properties[place]? = some property) (reads : property.getter = some getter)
    (first : type.methods[getter.toNat]? = some reader) (instanced : reader.isStatic = false)
    (stays : getter.toNat ∉ plan.removedMethods) :
    now.ReadBy place
      ((renamed getter.toNat plan.renames reader).withBody? (lastBody? getter.toNat plan.bodies)) := by
  rcases exists_stages_of_apply applied with
    ⟨bodied, initialized, rest, ⟨bodies, installed, removed⟩, rfl⟩
  have reading := getElem?_before_removals bodies first
  have read := getElem?_of_installPrelude installed reading
    (not_firstInitializer reading instanced)
  rcases exists_of_installPrelude installed with ⟨methods, rfl⟩
  rcases exists_order_of_applyRemovals removed with ⟨order, remove, ordered, same, removes, run⟩
  rcases TypeDef.of_removals removes ordered run with ⟨left, move, moves, properties⟩
  cases moved : move (some getter) with
  | none => exact absurd ((same _).mp ((moves.lost getter).mp moved)) stays
  | some later =>
    have found := moves.named getter later _ read moved
    refine ⟨{ property with getter := move property.getter, setter := move property.setter }, later,
      ?_, reads ▸ moved, ?_⟩
    · change rest.properties[place]? = _
      rw [properties, List.getElem?_map]
      change Option.map _ type.properties[place]? = _
      rw [here]
      rfl
    · change rest.methods[later.toNat]? = _
      rw [left, List.getElem?_map, found]
      rfl

end TypePlan

end NativeWeave
