import NativeWeave.Proofs.Editing.Coverage
import NativeWeave.Proofs.Editing.Growth
import NativeWeave.Proofs.Marshalling.References

namespace NativeWeave

/-!
# The accessors that stand in for hidden fields

A token that planning hands out means the same member in the tables of the finished module.  So the
entries of the table of hidden fields can be read there: the token of the entry is a reference to the
hidden field of an exposed property, and the entry holds references to the accessors of that property.
-/

/-! ## Properties -/

/-- The token refers to the hidden field of a property. -/
def TypeDef.IsHiddenField (type : TypeDef) (tables : Tables) (property : String)
    (token : UInt32) : Prop :=
  ∃ kind, tables.member? token =
    some (.field type.signature (Naming.backingField property) kind)

/-- A declared setter has its name from the declaration, and any other one from its property. -/
def TypeDef.IsSetterName (type : TypeDef) (property : Property) (exposed name : String) : Prop :=
  match property.setter with
  | none => name = Naming.setter exposed
  | some place => ∃ method, type.methods[place.toNat]? = some method ∧ name = method.name

/-- The tokens that stand in for a hidden field refer to the accessors of its property. -/
structure BackingAccess.Means (access : BackingAccess) (tables : Tables) (type : TypeDef)
    (member : MemberBinding) (property : Property) : Prop where
  named : access.property = member.name
  getter : ∃ place method, property.getter = some place ∧
    type.methods[place.toNat]? = some method ∧ tables.member? access.getter =
      some (.instanceMethod type.signature method.name [] member.valueType)
  setter : ∀ setter ∈ access.setter, ∃ name, type.IsSetterName property member.name name ∧
    tables.member? setter =
      some (.instanceMethod type.signature name [member.valueType] .void)
  /-- Nothing stands in for a setter that is taken out. -/
  suppressed : member.category.suppressesSetter = true → access.setter = none

/-- The member of a class is bound to the property. -/
def TypeDef.Exposes (type : TypeDef) (member : MemberBinding) (property : Property) : Prop :=
  ∃ place, member.origin = .property place ∧ type.properties[place]? = some property

/-- The token means the field in which an exposed property of the class keeps its value. -/
def ClassBinding.Hides (binding : ClassBinding) (tables : Tables) (type : TypeDef)
    (token : UInt32) : Prop :=
  ∃ member ∈ binding.members, ∃ property, type.Exposes member property ∧
    type.IsHiddenField tables member.name token

/-- The slots are those that are named after a member: one for its offset, and one for the width of
truth values if the member has such values. -/
structure MemberSlots.Names (slots : MemberSlots) (tables : Tables) (owner : Signature)
    (base : String) (category : Category) : Prop where
  offset : tables.member? slots.offset = some (.staticField owner (Naming.offsetSlot base) .i32)
  width : ∀ token ∈ slots.width, category.needsWidth = true ∧
    tables.member? token = some (.staticField owner (Naming.widthSlot base) .i32)

open Emit

namespace ClassSite

variable {site : ClassSite} {member : MemberBinding} {property : Property} {slots : MemberSlots}
  {address : NativeAddress} {tokens : List UInt32}

theorem leaves_method (index : Nat) : (liftM (site.method index) : Emit Method).Leaves
    fun _ method => site.type.methods[index]? = some method :=
  .lift fun found _ => method_eq_ok found

theorem leaves_planGetter {index : Nat} : (site.planGetter member index slots address).Leaves
    fun tables reading => ∃ method, site.type.methods[index]? = some method ∧
      tables.member? reading.value =
        some (.instanceMethod site.type.signature method.name [] member.valueType) := by
  unfold planGetter
  refine .bind (leaves_method index) fun method => .after fun live => .after fun load => ?_
  refine .bind (leaves_member _) fun token => .pure fun tables means found => ?_
  exact ⟨method, found, means⟩

theorem leaves_planSetterBody :
    (site.planSetterBody member property slots address tokens).Leaves fun _ body =>
      ∀ name ∈ body.value, site.type.IsSetterName property member.name name := by
  unfold planSetterBody TypeDef.IsSetterName
  refine .after fun code => ?_
  cases property.setter with
  | some place =>
    refine .bind (leaves_method place.toNat) fun method => .pure fun tables found name same => ?_
    cases same
    exact ⟨method, found, rfl⟩
  | none =>
    refine .after fun isStored => ?_
    split
    · refine .pure fun tables name same => ?_
      cases same
      rfl
    · exact .pure fun tables name impossible => nomatch impossible

theorem leaves_planSetter : (site.planSetter member property slots address tokens).Leaves
    fun tables setter => ∀ token ∈ setter.value, ∃ name,
      site.type.IsSetterName property member.name name ∧ tables.member? token =
        some (.instanceMethod site.type.signature name [member.valueType] .void) := by
  unfold planSetter
  intro before after setter run tables grows indexed
  rcases exists_of_bind run with ⟨body, middle, begun, ended⟩
  cases given : body.value with
  | none =>
    rw [given] at ended
    cases ended
    exact fun token impossible => nomatch impossible
  | some name =>
    rw [given] at ended
    rcases exists_of_bind ended with ⟨token, last, interned, final⟩
    cases final
    have grown : middle.Grows tables := (Grows.grows interned).trans grows
    intro found same
    cases same
    exact ⟨name, leaves_planSetterBody _ _ _ begun tables grown indexed name given,
      leaves_member _ _ _ _ interned tables grows indexed⟩

theorem leaves_staticSlot (owner type : Signature) (name : String) :
    (staticSlot owner name type).Leaves fun tables slot =>
      tables.member? slot.value = some (.staticField owner name type) := by
  unfold staticSlot
  exact .bind (leaves_member _) fun token => .pure fun tables means => id means

theorem leaves_optionalSlot (wanted : Bool) (owner type : Signature) (name : String) :
    (optionalSlot wanted owner name type).Leaves fun tables slot => ∀ token ∈ slot.value,
      wanted = true ∧ tables.member? token = some (.staticField owner name type) := by
  unfold optionalSlot
  split
  · next wished =>
    refine .bind (leaves_staticSlot _ _ _) fun slot => .pure fun tables means token same => ?_
    cases same
    exact ⟨wished, means⟩
  · exact .pure fun tables token impossible => nomatch impossible

theorem leaves_memberSlots (owner : Signature) (base : String) (category : Category) :
    (memberSlots owner base category).Leaves fun tables slots =>
      slots.value.Names tables owner base category := by
  unfold memberSlots
  refine .bind (leaves_staticSlot _ _ _) fun offset => .after fun handle => ?_
  refine .after fun elementSize => .bind (leaves_optionalSlot _ _ _ _) fun width => ?_
  exact .pure fun tables width offset => ⟨offset, width⟩

/-- What a property asks for: accessors for all references to its hidden field, and the effects that
its category has. -/
structure Asks (site : ClassSite) (tables : Tables) (member : MemberBinding) (property : Property)
    (planned : PropertyPlan) : Prop where
  backing : ∃ access : BackingAccess, access.Means tables site.type member property ∧
    planned.backing = (site.fieldTokens (Naming.backingField member.name)).map (·, access)
  effects : ∃ offset, tables.member? offset =
      some (.staticField site.type.signature (Naming.offsetSlot member.name) .i32) ∧
    planned.effects = effectsOf member offset (site.fieldTokens (Naming.backingField member.name))

theorem leaves_planAccessors {getter : UInt32} (reads : property.getter = some getter) :
    (site.planAccessors member property getter.toNat).Leaves fun tables planned =>
      site.Asks tables member property planned := by
  unfold planAccessors
  refine .bind (leaves_memberSlots _ _ _) fun slots => .after fun wrapper => ?_
  refine .after fun fill => .after fun base => .bind leaves_planGetter fun reading => ?_
  dsimp only
  split
  · refine .after fun removal => ?_
    rw [pure_bind]
    refine .pure fun tables found names => ?_
    rcases found with ⟨method, here, means⟩
    refine ⟨⟨_, ⟨rfl, ⟨getter, method, reads, here, means⟩, ?_, fun _ => rfl⟩, rfl⟩,
      ⟨_, names.offset, rfl⟩⟩
    exact fun setter impossible => nomatch impossible
  · next settable =>
    refine .bind leaves_planSetter fun setter => ?_
    rw [pure_bind]
    refine .pure fun tables declared found names => ?_
    rcases found with ⟨method, here, means⟩
    exact ⟨⟨_, ⟨rfl, ⟨getter, method, reads, here, means⟩, declared, fun suppressed =>
      absurd suppressed settable⟩, rfl⟩, ⟨_, names.offset, rfl⟩⟩

theorem leaves_planProperty (member : MemberBinding) :
    (site.planProperty member).Leaves fun tables planned =>
      (∀ property, ¬ site.type.Exposes member property) ∧ planned = {} ∨
        ∃ property, site.type.Exposes member property ∧ site.Asks tables member property planned := by
  unfold planProperty
  split
  · next place bound =>
    intro before after planned run tables grows indexed
    rcases exists_of_bind run with ⟨property, middle, loaded, run⟩
    rcases exists_of_bind run with ⟨getter, last, reads, run⟩
    rcases eq_of_lift loaded with ⟨found, rfl⟩
    rcases eq_of_lift reads with ⟨declared, rfl⟩
    right
    refine ⟨property, ⟨place, bound, Weave.ofOption_eq_ok found⟩, ?_⟩
    exact leaves_planAccessors (Weave.ofOption_eq_ok declared) _ _ _ run tables grows indexed
  · next other =>
    refine .pure fun tables => .inl ⟨?_, rfl⟩
    rintro property ⟨place, bound, _⟩
    exact other place bound

/-! ## The table of hidden fields -/

theorem mem_memberTokens_iff {tables : Tables} (indexed : tables.Indexed)
    {condition : MemberRef → Bool} {token : UInt32} :
    token ∈ tables.memberTokens condition ↔
      ∃ member, tables.member? token = some member ∧ condition member = true := by
  unfold Tables.memberTokens
  rw [List.mem_map]
  constructor
  · rintro ⟨⟨member, index⟩, kept, rfl⟩
    rcases List.mem_filter.mp kept with ⟨listed, holds⟩
    have here := List.mk_mem_zipIdx_iff_getElem?.mp listed
    have inside := Nat.lt_of_lt_of_le (List.getElem?_eq_some_iff.mp here).1 indexed
    refine ⟨member, ?_, holds⟩
    unfold Tables.member?
    rwa [UInt32.toNat_ofNat_of_lt' inside]
  · rintro ⟨member, found, holds⟩
    refine ⟨(member, token.toNat), List.mem_filter.mpr ⟨?_, holds⟩, UInt32.ofNat_toNat⟩
    exact List.mk_mem_zipIdx_iff_getElem?.mpr found

theorem mem_fieldTokens_iff (indexed : site.source.tables.Indexed) {property : String}
    {token : UInt32} : token ∈ site.fieldTokens (Naming.backingField property) ↔
      site.type.IsHiddenField site.source.tables property token := by
  unfold fieldTokens TypeDef.IsHiddenField
  rw [mem_memberTokens_iff indexed]
  constructor
  · rintro ⟨⟨owner, name, kind⟩, found, holds⟩
    simp only [Bool.and_eq_true, decide_eq_true_eq, beq_iff_eq] at holds
    rcases holds with ⟨⟨rfl, rfl⟩, instanceField⟩
    cases kind with
    | field type isStatic =>
      cases isStatic with
      | false => exact ⟨type, found⟩
      | true => cases instanceField
    | method signature => cases instanceField
  · rintro ⟨kind, found⟩
    refine ⟨_, found, ?_⟩
    simp [MemberRef.field, owner]

end ClassSite

/-- The table has an entry for each reference to the hidden field of an exposed property, and every
entry stands for one. -/
structure Backing.Serves (backing : Backing) (source tables : Tables) (type : TypeDef)
    (binding : ClassBinding) : Prop where
  sound : ∀ {token access}, backing.access? token = some access →
    ∃ member ∈ binding.members, ∃ property, type.Exposes member property ∧
      type.IsHiddenField source member.name token ∧ access.Means tables type member property
  complete : ∀ member ∈ binding.members, ∀ property, type.Exposes member property →
    ∀ token, type.IsHiddenField source member.name token → backing.has token = true

namespace ClassSite

variable {site : ClassSite} {before after tables : Tables} {properties : List PropertyPlan}

theorem serves_of_planProperties
    (run : site.binding.members.mapM site.planProperty before = .ok (properties, after))
    (grows : after.Grows tables) (indexed : tables.Indexed)
    (source : site.source.tables.Indexed) :
    Backing.Serves (properties.flatMap (·.backing)).reverse site.source.tables tables site.type
      site.binding := by
  have all := Leaves.forall₂ (fun member _ => site.leaves_planProperty member) _ _ _ run tables
    grows indexed
  rcases exists_of_mem_forall₂ all with ⟨forth, back⟩
  constructor
  · intro token access found
    rcases Option.map_eq_some_iff.mp found with ⟨⟨_, _⟩, entry, rfl⟩
    have same := List.find?_some entry
    have listed := List.mem_of_find?_eq_some entry
    rcases List.mem_flatMap.mp (List.mem_reverse.mp listed) with ⟨planned, inside, made⟩
    rcases back planned inside with ⟨member, exposed, ⟨_, rfl⟩ | ⟨property, exposes, asks⟩⟩
    · cases made
    · rcases asks.backing with ⟨access, means, entries⟩
      rw [entries] at made
      rcases List.mem_map.mp made with ⟨reference, hidden, pair⟩
      cases pair
      rw [beq_iff_eq] at same
      subst same
      exact ⟨member, exposed, property, exposes, (mem_fieldTokens_iff source).mp hidden, means⟩
  · intro member exposed property exposes token hidden
    rcases forth member exposed with ⟨planned, inside, ⟨none, _⟩ | ⟨_, _, asks⟩⟩
    · exact (none property exposes).elim
    · rcases asks.backing with ⟨access, _, entries⟩
      unfold Backing.has Backing.access?
      rw [Option.isSome_map, List.find?_isSome]
      refine ⟨(token, access), List.mem_reverse.mpr (List.mem_flatMap.mpr ⟨planned, inside, ?_⟩),
        beq_self_eq_true token⟩
      rw [entries]
      exact List.mem_map_of_mem ((mem_fieldTokens_iff source).mpr hidden)

/-- The effects of the properties of a class, in the order of its members. -/
def Effects (site : ClassSite) (tables : Tables) (effects : List ConstructionEffect) : Prop :=
  ∃ parts, effects = parts.flatten ∧ List.Forall₂ (fun member part =>
    (∀ property, ¬ site.type.Exposes member property) ∧ part = [] ∨
      (∃ property, site.type.Exposes member property) ∧ ∃ offset,
        tables.member? offset =
          some (.staticField site.type.signature (Naming.offsetSlot member.name) .i32) ∧
        part = effectsOf member offset (site.fieldTokens (Naming.backingField member.name)))
    site.binding.members parts

theorem effects_of_planProperties
    (run : site.binding.members.mapM site.planProperty before = .ok (properties, after))
    (grows : after.Grows tables) (indexed : tables.Indexed) :
    site.Effects tables (properties.flatMap (·.effects)) := by
  have all := Leaves.forall₂ (fun member _ => site.leaves_planProperty member) _ _ _ run tables
    grows indexed
  refine ⟨properties.map (·.effects), List.flatMap_def, List.forall₂_map_right_iff.mpr ?_⟩
  refine all.imp fun member planned => ?_
  rintro (⟨none, rfl⟩ | ⟨property, exposes, asks⟩)
  · exact .inl ⟨none, rfl⟩
  · exact .inr ⟨⟨property, exposes⟩, asks.effects⟩

end ClassSite

end NativeWeave
