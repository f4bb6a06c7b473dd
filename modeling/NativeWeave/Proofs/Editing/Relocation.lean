import NativeWeave.Editing.Constructor
import NativeWeave.Proofs.Code.Rearrangement
import NativeWeave.Proofs.Extraction.Checked

namespace NativeWeave

/-!
# Taking early stores out of a constructor

An early store is three instructions that follow one another: they push the receiver, push a
constant, and store it.  The stores are taken out from the last one to the first, so that each of
them still stands where it was found.  What is left is the constructor without these instructions,
and a setting for every store, in the order of the stores.
-/

/-! ## Stores -/

/-- The setting that stands in for an early store, which is given by its index and its token. -/
def Backing.setting? (backing : Backing) (code : Code) (store : Nat × UInt32) :
    Option Fragment := do
  let access ← backing.access? store.2
  let setter ← access.setter
  let value ← ClassSite.storedConstant? code store.1
  return [.loadArg 0, value, .call setter]

/-- A setting pushes the receiver and a constant and calls the setter. -/
theorem Backing.setting?_eq_some {backing : Backing} {code : Code} {store : Nat × UInt32}
    {setting : Fragment} (found : backing.setting? code store = some setting) :
    ∃ value setter, setting = [.loadArg 0, value, .call setter] ∧
      ClassSite.storedConstant? code store.1 = some value ∧
      (backing.access? store.2).bind (·.setter) = some setter := by
  rcases Option.bind_eq_some_iff.mp found with ⟨access, known, found⟩
  rcases Option.bind_eq_some_iff.mp found with ⟨setter, declared, found⟩
  rcases Option.bind_eq_some_iff.mp found with ⟨value, stored, same⟩
  cases same
  exact ⟨value, setter, rfl, stored, Option.bind_eq_some_iff.mpr ⟨access, known, declared⟩⟩

/-- The instruction at an index is one of the three of a store. -/
def InStore (stores : List (Nat × UInt32)) (index : Nat) : Prop :=
  ∃ store ∈ stores, store.1 ≤ index + 2 ∧ index ≤ store.1

instance (stores : List (Nat × UInt32)) : DecidablePred (InStore stores) := fun _ =>
  inferInstanceAs (Decidable (∃ store ∈ stores, _))

theorem Instr.straight_of_isConstant {instr : Instr} (constant : instr.isConstant = true) :
    instr.Straight := by
  cases instr with
  | plain op => cases op <;> first | exact ⟨rfl, rfl⟩ | cases constant
  | constI32 _ | constI64 _ | constF32 _ | constF64 _ | constString _ => exact ⟨rfl, rfl⟩
  | _ => cases constant

theorem Instr.straight_loadArg (index : UInt16) : (loadArg index).Straight :=
  ⟨rfl, rfl⟩

theorem Instr.straight_storeField (token : UInt32) : (storeField token).Straight :=
  ⟨rfl, rfl⟩

theorem Instr.straight_call (token : UInt32) : (call token).Straight :=
  ⟨rfl, rfl⟩

/-- Renumbering jumps makes no other instruction of one, and one of no other instruction. -/
theorem Instr.mapTarget_eq_iff {instr other : Instr} {rename : Nat → Nat}
    (leadsNowhere : instr.target? = none) : other.mapTarget rename = instr ↔ other = instr := by
  constructor
  · intro same
    have still : other.target? = none := by
      rw [← same, Instruction.target?_mapTarget, Option.map_eq_none_iff] at leadsNowhere
      exact leadsNowhere
    rwa [Instr.mapTarget_eq still] at same
  · rintro rfl
    exact Instr.mapTarget_eq leadsNowhere rename

namespace ClassSite

variable {code : Code} {backing : Backing}

theorem storedConstant?_eq_some_iff {index : Nat} {value : Instr} :
    storedConstant? code index = some value ↔ 2 ≤ index ∧
      code.instrs[index - 2]? = some (.loadArg 0) ∧ code.instrs[index - 1]? = some value ∧
      value.isConstant = true := by
  unfold storedConstant?
  split
  · next low =>
    constructor
    · intro impossible
      cases impossible
    · rintro ⟨high, _⟩
      exact absurd high (Nat.not_le_of_lt low)
  · next high =>
    have enough : 2 ≤ index := Nat.le_of_not_lt high
    split
    · next found receiver pushed =>
      rw [receiver, pushed]
      constructor
      · intro same
        split at same
        · next constant =>
          cases same
          exact ⟨enough, rfl, rfl, constant⟩
        · cases same
      · rintro ⟨_, _, same, constant⟩
        cases same
        rw [if_pos constant]
    · next other =>
      constructor
      · intro impossible
        cases impossible
      · rintro ⟨_, receiver, pushed, _⟩
        exact (other _ receiver pushed).elim

/-- What a store stores depends on the code up to it only, and not on where jumps lead. -/
theorem storedConstant?_congr {other : Code} {rename : Nat → Nat} {index : Nat}
    (same : ∀ place ≤ index, other.instrs[place]? =
      code.instrs[place]?.map (·.mapTarget rename)) :
    storedConstant? other index = storedConstant? code index := by
  have unmoved : ∀ place ≤ index, ∀ instr : Instr, instr.target? = none →
      (other.instrs[place]? = some instr ↔ code.instrs[place]? = some instr) := by
    intro place near instr leadsNowhere
    simp only [same place near, Option.map_eq_some_iff, Instr.mapTarget_eq_iff leadsNowhere,
      exists_eq_right]
  refine Option.ext fun value => ?_
  rw [storedConstant?_eq_some_iff, storedConstant?_eq_some_iff]
  refine and_congr_right fun high => and_congr (unmoved _ (by omega) _ rfl) ?_
  refine and_congr_left fun constant => unmoved _ (by omega) _ ?_
  exact (Instr.straight_of_isConstant constant).leadsNowhere

theorem mem_backingStores_iff {index : Nat} {token : UInt32} :
    (index, token) ∈ backingStores backing code ↔
      code.instrs[index]? = some (.storeField token) ∧ backing.has token = true := by
  unfold backingStores
  rw [List.mem_filterMap]
  constructor
  · rintro ⟨⟨instr, place⟩, member, found⟩
    have here := List.mk_mem_zipIdx_iff_getElem?.mp member
    dsimp only at found
    split at found
    · split at found
      · next has =>
        cases found
        exact ⟨here, has⟩
      · cases found
    · cases found
  · rintro ⟨here, has⟩
    refine ⟨(.storeField token, index), List.mk_mem_zipIdx_iff_getElem?.mpr here, ?_⟩
    change (if backing.has token = true then _ else _) = _
    rw [if_pos has]

/-- The stores are listed in the order in which they stand. -/
theorem pairwise_backingStores (backing : Backing) (code : Code) :
    (backingStores backing code).Pairwise (·.1 < ·.1) := by
  unfold backingStores
  refine List.Pairwise.filterMap _ ?_ (?_ : code.instrs.zipIdx.Pairwise (·.2 < ·.2))
  · rintro ⟨one, first⟩ ⟨other, second⟩ before store found next later
    dsimp only at found later
    split at found
    · split at found
      · cases found
        split at later
        · split at later
          · cases later
            exact before
          · cases later
        · cases later
      · cases found
    · cases found
  · have indices : (code.instrs.zipIdx.map Prod.snd).Pairwise (· < ·) := by
      rw [List.zipIdx_map_snd]
      exact List.pairwise_lt_range'
    exact List.pairwise_map.mp indices

/-- The stores to hidden fields in front of the call of the base class. -/
def earlyStores (backing : Backing) (code : Code) (baseCall : Nat) : List (Nat × UInt32) :=
  (backingStores backing code).filter (·.1 < baseCall)

theorem mem_earlyStores {baseCall : Nat} {store : Nat × UInt32}
    (member : store ∈ earlyStores backing code baseCall) :
    store ∈ backingStores backing code ∧ store.1 < baseCall := by
  rcases List.mem_filter.mp member with ⟨stands, early⟩
  exact ⟨stands, of_decide_eq_true early⟩

theorem pairwise_earlyStores (backing : Backing) (code : Code) (baseCall : Nat) :
    (earlyStores backing code baseCall).Pairwise (·.1 < ·.1) :=
  (pairwise_backingStores backing code).filter _

/-- From the call of the base class on nothing belongs to an early store. -/
theorem not_inStore_earlyStores {baseCall index : Nat} (behind : baseCall ≤ index) :
    ¬ InStore (earlyStores backing code baseCall) index := by
  rintro ⟨store, member, _, far⟩
  have := (mem_earlyStores member).2
  omega

/-! ## Relocation -/

/-- Some of the stores have been taken out, and their settings are in order. -/
structure Relocated (backing : Backing) (code : Code) (stores : List (Nat × UInt32))
    (relocation : Relocation) : Prop where
  settings : stores.map (backing.setting? code) = relocation.settings.map some
  moved : ∃ place, Code.Drops code.instrs relocation.code.instrs place (InStore stores) ∧
    (∀ index, (∀ store ∈ stores, index + 2 ≤ store.1) → place index = index) ∧
    ∀ index, (∀ store ∈ stores, store.1 < index) → place index + 3 * stores.length = index

variable {site : ClassSite} {method : Method} {access : BackingAccess} {index : Nat}
  {relocation next : Relocation}

/-- A store is taken out, or there is a finding about it since it cannot be. -/
theorem relocate_eq_ok (run : site.relocate method access index relocation = .ok next) :
    (∃ finding, (access.setter = none ∨ storedConstant? relocation.code index = none) ∧
      finding.isError = true ∧
      next = { relocation with diagnostics := relocation.diagnostics ++ [finding] }) ∨
    ∃ setter value removed rest, access.setter = some setter ∧
      storedConstant? relocation.code index = some value ∧
      relocation.code.removeRange? (index - 2) 3 = some (removed, rest) ∧
      next = { relocation with
        code := rest
        settings := [.loadArg 0, value, .call setter] :: relocation.settings } := by
  unfold relocate at run
  dsimp only at run
  split at run
  · next missing =>
    cases run
    exact .inl ⟨_, .inl missing, rfl, rfl⟩
  · next setter declared =>
    split at run
    · next other =>
      cases run
      exact .inl ⟨_, .inr other, rfl, rfl⟩
    · next value stored =>
      split at run
      · cases run
      · next removed rest cut =>
        cases run
        exact .inr ⟨setter, value, removed, rest, declared, stored, cut, rfl⟩

theorem relocated_nil (backing : Backing) (code : Code) : Relocated backing code [] { code } where
  settings := rfl
  moved := by
    have nothing : ∀ index, False ↔ InStore [] index := by
      intro index
      constructor
      · exact False.elim
      · rintro ⟨_, impossible, _⟩
        cases impossible
    exact ⟨id, (Code.Drops.refl code.instrs).congr nothing, fun _ _ => rfl, fun _ _ => rfl⟩

/-- Stores that have been taken out have a setter, and they store a constant. -/
theorem Relocated.stored {stores : List (Nat × UInt32)}
    (relocated : Relocated backing code stores relocation) :
    ∀ store ∈ stores, (∃ setter, (backing.access? store.2).bind (·.setter) = some setter) ∧
      ∃ value, storedConstant? code store.1 = some value := by
  intro store member
  have given : backing.setting? code store ∈ relocation.settings.map some := by
    rw [← relocated.settings]
    exact List.mem_map_of_mem member
  rcases List.mem_map.mp given with ⟨setting, _, found⟩
  rcases Backing.setting?_eq_some found.symm with ⟨value, setter, _, stored, declared⟩
  exact ⟨⟨setter, declared⟩, value, stored⟩

/-- The instructions of a store that has been taken out. -/
theorem Relocated.of_inStore {stores : List (Nat × UInt32)} {instr : Instr}
    (relocated : Relocated backing code stores relocation)
    (stand : ∀ store ∈ stores, store ∈ backingStores backing code)
    (goes : InStore stores index) (here : code.instrs[index]? = some instr) :
    instr = .loadArg 0 ∨ instr.isConstant = true ∨ ∃ token setter, instr = .storeField token ∧
      (backing.access? token).bind (·.setter) = some setter := by
  rcases goes with ⟨store, member, near, far⟩
  rcases relocated.stored store member with ⟨⟨setter, declared⟩, value, stored⟩
  rcases storedConstant?_eq_some_iff.mp stored with ⟨high, receiver, pushed, constant⟩
  obtain rfl | rfl | rfl : index = store.1 - 2 ∨ index = store.1 - 1 ∨ index = store.1 := by omega
  · cases here.symm.trans receiver
    exact .inl rfl
  · cases here.symm.trans pushed
    exact .inr (.inl constant)
  · cases here.symm.trans (mem_backingStores_iff.mp (stand store member)).1
    exact .inr (.inr ⟨store.2, setter, rfl, declared⟩)

/-- A store stands in front of all the instructions of a store of a constant after it. -/
theorem add_three_le_of_storedConstant? {later : Nat} {token : UInt32} {value : Instr}
    (stands : code.instrs[index]? = some (.storeField token))
    (stored : storedConstant? code later = some value) (before : index < later) :
    index + 3 ≤ later := by
  rcases storedConstant?_eq_some_iff.mp stored with ⟨high, receiver, pushed, constant⟩
  have first : index ≠ later - 2 := by
    rintro rfl
    cases stands.symm.trans receiver
  have second : index ≠ later - 1 := by
    rintro rfl
    cases stands.symm.trans pushed
    cases constant
  omega

/-- A store stands in front of all the instructions of the stores after it. -/
theorem Relocated.apart {stores : List (Nat × UInt32)} {token : UInt32}
    (relocated : Relocated backing code stores relocation)
    (stands : code.instrs[index]? = some (.storeField token))
    (before : ∀ store ∈ stores, index < store.1) : ∀ store ∈ stores, index + 3 ≤ store.1 := by
  intro store member
  rcases relocated.stored store member with ⟨_, value, stored⟩
  exact add_three_le_of_storedConstant? stands stored (before store member)

/-- Up to a store in front of those that have been taken out the code is what it was. -/
theorem Relocated.front {stores : List (Nat × UInt32)} {token : UInt32}
    (relocated : Relocated backing code stores relocation)
    (stands : code.instrs[index]? = some (.storeField token))
    (before : ∀ store ∈ stores, index < store.1) :
    ∃ place, ∀ other ≤ index, relocation.code.instrs[other]? =
      code.instrs[other]?.map (·.mapTarget place) := by
  have apart := relocated.apart stands before
  rcases relocated.moved with ⟨place, drops, fixed, _⟩
  refine ⟨place, fun other low => ?_⟩
  have stays : ¬ InStore stores other := by
    rintro ⟨store, member, near, _⟩
    have := apart store member
    omega
  have there := drops.there stays
  rwa [fixed other fun store member => by have := apart store member; omega] at there

/-- The store in front of those that have been taken out is taken out of what is left. -/
theorem Relocated.step {stores : List (Nat × UInt32)} {token : UInt32} {setter : UInt32}
    {value : Instr} {removed : List Instr} {rest : Code}
    (relocated : Relocated backing code stores relocation)
    (stands : code.instrs[index]? = some (.storeField token))
    (before : ∀ store ∈ stores, index < store.1)
    (found : backing.access? token = some access) (declared : access.setter = some setter)
    (stored : storedConstant? relocation.code index = some value)
    (cut : relocation.code.removeRange? (index - 2) 3 = some (removed, rest)) :
    Relocated backing code ((index, token) :: stores) { relocation with
      code := rest, settings := [.loadArg 0, value, .call setter] :: relocation.settings } := by
  have apart := relocated.apart stands before
  rcases relocated.moved with ⟨place, drops, front, behind⟩
  rcases Code.drops_of_removeRange? cut with ⟨further, again, still, past⟩
  have fixed : ∀ other ≤ index + 1, place other = other := fun other low =>
    front other fun store member => by have := apart store member; omega
  have beyond : ∀ other, index < other → index < place other := by
    intro other order
    have reached : place (index + 1) ≤ place other := drops.monotone order
    rwa [fixed (index + 1) (Nat.le_refl _)] at reached
  have high := (storedConstant?_eq_some_iff.mp stored).1
  have original : storedConstant? code index = some value := by
    rcases relocated.front stands before with ⟨_, same⟩
    exact (storedConstant?_congr same).symm.trans stored
  refine ⟨?_, further ∘ place, (drops.trans again).congr ?_, ?_, ?_⟩
  · rw [List.map_cons, List.map_cons, relocated.settings]
    congr 1
    change (backing.access? token >>= _) = _
    rw [found]
    change (access.setter >>= _) = _
    rw [declared]
    change (storedConstant? code index >>= _) = _
    rw [original]
    rfl
  · intro other
    have window : index - 2 ≤ place other ∧ place other < index - 2 + 3 ↔
        index ≤ other + 2 ∧ other ≤ index := by
      by_cases low : other ≤ index + 1
      · rw [fixed other low]
        omega
      · have := beyond other (by omega)
        omega
    rw [window]
    constructor
    · rintro (⟨store, member, near⟩ | near)
      · exact ⟨store, List.mem_cons_of_mem _ member, near⟩
      · exact ⟨_, List.mem_cons_self, near⟩
    · rintro ⟨store, member, near⟩
      rcases List.mem_cons.mp member with rfl | later
      · exact .inr near
      · exact .inl ⟨store, later, near⟩
  · intro other low
    rw [List.forall_mem_cons] at low
    change further (place other) = other
    rw [front other low.2]
    exact still other (by omega)
  · intro other high
    rw [List.forall_mem_cons] at high
    have reached := behind other high.2
    have := past (place other) (by have := beyond other high.1; omega)
    change further (place other) + 3 * (stores.length + 1) = other
    omega

/-- What is to be taken out for a store in front of the others is there. -/
theorem Relocated.exists_relocate {stores : List (Nat × UInt32)} {token : UInt32}
    (relocated : Relocated backing code stores relocation)
    (stands : code.instrs[index]? = some (.storeField token))
    (before : ∀ store ∈ stores, index < store.1) (site : ClassSite) (method : Method)
    (access : BackingAccess) : ∃ next, site.relocate method access index relocation = .ok next := by
  unfold relocate
  dsimp only
  split
  · exact ⟨_, rfl⟩
  · split
    · exact ⟨_, rfl⟩
    · next value stored =>
      have high := (storedConstant?_eq_some_iff.mp stored).1
      have here : index < relocation.code.size := by
        rcases relocated.front stands before with ⟨place, same⟩
        have still := same index (Nat.le_refl _)
        rw [stands] at still
        exact (List.getElem?_eq_some_iff.mp still).1
      have inside : index - 2 + 3 ≤ relocation.code.size := by omega
      rcases Code.exists_removeRange? inside with ⟨removed, rest, cut⟩
      rw [cut]
      exact ⟨_, rfl⟩

/-- The stores that can be taken out. -/
def settable (backing : Backing) (code : Code) (stores : List (Nat × UInt32)) :
    List (Nat × UInt32) :=
  stores.filter fun store => (backing.setting? code store).isSome

/-- The store in front of the others is taken out if it can be, and otherwise there is a mistake. -/
theorem Relocated.tried {more : List (Nat × UInt32)} {token : UInt32}
    (relocated : Relocated backing code (settable backing code more) relocation)
    (stands : code.instrs[index]? = some (.storeField token))
    (before : ∀ store ∈ settable backing code more, index < store.1)
    (found : backing.access? token = some access)
    (run : site.relocate method access index relocation = .ok next) :
    Relocated backing code (settable backing code ((index, token) :: more)) next ∧
      ((next.diagnostics = relocation.diagnostics ∧
          settable backing code ((index, token) :: more) =
            (index, token) :: settable backing code more) ∨
        ∃ finding, finding.isError = true ∧
          next.diagnostics = relocation.diagnostics ++ [finding]) := by
  rcases relocate_eq_ok run with ⟨finding, unfit, mistake, rfl⟩ |
    ⟨setter, value, removed, rest, declared, stored, cut, rfl⟩
  · have missing : backing.setting? code (index, token) = none := by
      have setting : backing.setting? code (index, token) = access.setter.bind fun setter =>
          (storedConstant? code index).bind fun value => some [.loadArg 0, value, .call setter] := by
        rw [Backing.setting?, found]
        rfl
      rcases relocated.front stands before with ⟨_, same⟩
      rw [storedConstant?_congr same] at unfit
      rcases unfit with missing | missing
      · rw [setting, missing, Option.bind_none]
      · rw [setting, missing]
        cases access.setter <;> rfl
    have left : settable backing code ((index, token) :: more) = settable backing code more :=
      List.filter_cons_of_neg (by rw [missing]; exact Bool.false_ne_true)
    rw [left]
    exact ⟨⟨relocated.settings, relocated.moved⟩, .inr ⟨finding, mistake, rfl⟩⟩
  · have moved := relocated.step stands before found declared stored cut
    have given := (List.cons.inj moved.settings).1
    have taken : settable backing code ((index, token) :: more) =
        (index, token) :: settable backing code more :=
      List.filter_cons_of_pos (by rw [given]; rfl)
    rw [taken]
    exact ⟨moved, .inl ⟨rfl, rfl⟩⟩

/-- Stores that can be taken out are taken out, and about the others there are mistakes. -/
theorem exists_relocateAll (site : ClassSite) (method : Method) {stores : List (Nat × UInt32)}
    (ordered : stores.Pairwise (·.1 < ·.1))
    (stand : ∀ store ∈ stores, store ∈ backingStores backing code) :
    ∃ relocation, site.relocateAll backing method code stores = .ok relocation ∧
      Relocated backing code (settable backing code stores) relocation ∧
      (∀ finding ∈ relocation.diagnostics, finding.isError = true) ∧
      (relocation.diagnostics = [] → settable backing code stores = stores) := by
  induction stores with
  | nil => exact ⟨_, rfl, relocated_nil backing code, List.forall_mem_nil _, fun _ => rfl⟩
  | cons store more ih =>
    rcases store with ⟨index, token⟩
    rw [List.pairwise_cons] at ordered
    rw [List.forall_mem_cons] at stand
    rcases ih ordered.2 stand.2 with ⟨relocation, run, relocated, mistakes, all⟩
    rcases mem_backingStores_iff.mp stand.1 with ⟨stands, has⟩
    rcases Option.isSome_iff_exists.mp has with ⟨access, found⟩
    have before : ∀ store ∈ settable backing code more, index < store.1 := fun store member =>
      ordered.1 store (List.mem_of_mem_filter member)
    rcases relocated.exists_relocate stands before site method access with ⟨next, step⟩
    refine ⟨next, ?_, (relocated.tried stands before found step).1, ?_⟩
    · unfold relocateAll at run ⊢
      rw [List.foldrM_cons]
      refine bind_eq_ok_iff.mpr ⟨relocation, run, ?_⟩
      simp only [found]
      exact step
    · rcases (relocated.tried stands before found step).2 with
        ⟨same, taken⟩ | ⟨finding, mistake, extended⟩
      · rw [same, taken]
        exact ⟨mistakes, fun clean => congrArg _ (all clean)⟩
      · rw [extended]
        refine ⟨fun other member => ?_, fun clean => ?_⟩
        · rcases List.mem_append.mp member with old | new
          · exact mistakes other old
          · cases List.mem_singleton.mp new
            exact mistake
        · cases (List.append_eq_nil_iff.mp clean).2

/-- Where there are no mistakes all stores have been taken out. -/
theorem relocated_of_relocateAll {stores : List (Nat × UInt32)}
    (run : site.relocateAll backing method code stores = .ok relocation)
    (ordered : stores.Pairwise (·.1 < ·.1))
    (stand : ∀ store ∈ stores, store ∈ backingStores backing code) :
    (∀ finding ∈ relocation.diagnostics, finding.isError = true) ∧
      (relocation.diagnostics = [] → Relocated backing code stores relocation) := by
  rcases exists_relocateAll site method ordered stand with ⟨other, again, relocated, mistakes, all⟩
  cases run.symm.trans again
  refine ⟨mistakes, fun clean => ?_⟩
  rw [← all clean]
  exact relocated

theorem Relocated.length_settings {stores : List (Nat × UInt32)}
    (relocated : Relocated backing code stores relocation) :
    relocation.settings.length = stores.length := by
  have same := congrArg List.length relocated.settings
  rw [List.length_map, List.length_map] at same
  exact same.symm

/-- What stands behind all the stores is found earlier, by as much as has been taken out. -/
theorem Relocated.behind {stores : List (Nat × UInt32)}
    (relocated : Relocated backing code stores relocation)
    (before : ∀ store ∈ stores, store.1 < index) :
    3 * relocation.settings.length ≤ index ∧ ∃ place,
      relocation.code.instrs[index - 3 * relocation.settings.length]? =
        code.instrs[index]?.map (·.mapTarget place) := by
  rcases relocated.moved with ⟨place, drops, _, moved⟩
  have shift := moved index before
  have stays : ¬ InStore stores index := by
    rintro ⟨store, member, _, far⟩
    exact absurd far (Nat.not_le_of_lt (before store member))
  rw [relocated.length_settings, ← show place index = index - 3 * stores.length by omega]
  exact ⟨by omega, place, drops.there stays⟩

end ClassSite

end NativeWeave
