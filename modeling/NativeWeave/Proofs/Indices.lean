import NativeWeave.Proofs.Bounds
import NativeWeave.Proofs.Code.Edits
import NativeWeave.Proofs.Verification.Worklist

namespace NativeWeave

/-!
# Indices that are worked with

Indices into code are found in one version of it and used in another, when instructions before them
have been taken out or exchanged.  They are right all the same: what is taken out of a constructor are
separate windows in front of one call, which is found again where they say; an exchange of
instructions one by one leaves the others in their places; and the check of stack depths arrives at
instructions only.
-/

/-! ## Windows -/

namespace ClassSite

variable {backing : Backing} {code : Code} {relocation : Relocation} {baseCall : Nat}

/-- What is taken out of a constructor are the windows of some stores, of three instructions each. -/
structure Windows (code : Code) (baseCall : Nat) (stores : List (Nat × UInt32))
    (relocation : Relocation) : Prop where
  /-- Every store has become a setting. -/
  count : relocation.settings.length = stores.length
  /-- Windows are in front of the call. -/
  inside : ∀ store ∈ stores, 2 ≤ store.1 ∧ store.1 < baseCall
  /-- A window begins behind the ones before it. -/
  apart : stores.Pairwise fun first second => first.1 < second.1 - 2
  /-- The instructions of the windows are gone, and no others. -/
  gone : ∃ place, Code.Drops code.instrs relocation.code.instrs place (InStore stores) ∧
    place baseCall = baseCall - 3 * relocation.settings.length
  room : 3 * relocation.settings.length ≤ baseCall
  /-- The call is found where the windows leave it. -/
  call : ∃ token, code.instrs[baseCall]? = some (.call token) ∧
    relocation.code.instrs[baseCall - 3 * relocation.settings.length]? = some (.call token)

theorem Relocated.windows {stores : List (Nat × UInt32)} {token : UInt32}
    (relocated : Relocated backing code (settable backing code stores) relocation)
    (ordered : stores.Pairwise (·.1 < ·.1))
    (early : ∀ store ∈ stores, store ∈ earlyStores backing code baseCall)
    (call : code.instrs[baseCall]? = some (.call token)) :
    Windows code baseCall (settable backing code stores) relocation := by
  have front : ∀ store ∈ settable backing code stores, store.1 < baseCall := fun store member =>
    (mem_earlyStores (early store (List.mem_of_mem_filter member))).2
  have high : ∀ store ∈ settable backing code stores, 2 ≤ store.1 := by
    intro store member
    rcases relocated.stored store member with ⟨_, value, stored⟩
    exact (storedConstant?_eq_some_iff.mp stored).1
  rcases relocated.behind front with ⟨room, place, moved⟩
  refine ⟨relocated.length_settings, fun store member => ⟨high store member, front store member⟩, ?_,
    ?_, room, token, call, ?_⟩
  · refine (ordered.filter _).imp_of_mem fun {first second} here there order => ?_
    rcases relocated.stored second there with ⟨_, value, stored⟩
    have stands := (mem_earlyStores (early first (List.mem_of_mem_filter here))).1
    have apart := add_three_le_of_storedConstant? (mem_backingStores_iff.mp stands).1 stored order
    omega
  · rcases relocated.moved with ⟨place, drops, _, behind⟩
    refine ⟨place, drops, ?_⟩
    have shift := behind baseCall front
    rw [relocated.length_settings]
    omega
  · rw [moved, call]
    exact congrArg some (Instr.mapTarget_eq (Instr.straight_call token).leadsNowhere place)

/-- Early stores can be tried in every constructor with a call of the base class, and what is taken out
for those that can be moved are windows in front of that call. -/
theorem exists_windows (site : ClassSite) (backing : Backing) (method : Method)
    (called : site.baseCall? code = some baseCall) :
    ∃ relocation,
      site.relocateAll backing method code (earlyStores backing code baseCall) = .ok relocation ∧
        Windows code baseCall (settable backing code (earlyStores backing code baseCall))
          relocation := by
  have ordered := pairwise_earlyStores backing code baseCall
  rcases exists_relocateAll site method ordered fun store member => (mem_earlyStores member).1 with
    ⟨relocation, run, relocated, _⟩
  rcases baseCall?_eq_some called with ⟨token, _, call, _⟩
  exact ⟨relocation, run, relocated.windows ordered (fun _ => id) call⟩

end ClassSite

/-! ## Exchanges -/

namespace Code

variable {code : Code} {index : Nat}

/-- An exchange of one instruction for one moves nothing. -/
theorem replace?_singleton (inside : index < code.size) (instr : Instr) :
    code.replace? index [instr] = some { code with instrs := code.instrs.set index instr } := by
  have still : placeInstead index 1 = id := by
    funext place
    unfold placeInstead
    split
    · exact Nat.add_sub_cancel _ _
    · rfl
  have same : code.instrs.map (·.mapTarget id) = code.instrs := by
    conv_rhs => rw [← List.map_id code.instrs]
    exact List.map_congr_left fun instr _ => instr.mapTarget_id
  rw [replace?_eq (List.cons_ne_nil _ _) inside]
  change some (Code.mk _ _) = _
  rw [List.length_singleton, still, same, List.set_eq_take_append_cons_drop,
    if_pos (show index < code.instrs.length from inside), List.append_assoc]
  exact congrArg (fun points => some (Code.mk _ points)) (List.map_id code.points)

end Code

namespace Backing

/-- An exchange of the instruction at an index, if it uses a hidden field. -/
def exchange? (backing : Backing) (code : Code) (index : Nat) : Option Code :=
  match code.instrs[index]? with
  | none => some code
  | some instr =>
    if backing.redirect instr = instr then some code
    else code.replace? index [backing.redirect instr]

/-- Exchanges at all indices, one after another. -/
def exchangeAll? (backing : Backing) (code : Code) : Option Code :=
  (List.range code.size).foldlM backing.exchange? code

variable {backing : Backing}

theorem exchange?_eq (front rest : List Instr) (instr : Instr) (points : List SourcePoint) :
    backing.exchange? ⟨front ++ instr :: rest, points⟩ front.length =
      some ⟨front ++ backing.redirect instr :: rest, points⟩ := by
  have here : (front ++ instr :: rest)[front.length]? = some instr := by
    rw [List.getElem?_append_right (Nat.le_refl _), Nat.sub_self]
    rfl
  have inside : front.length < (front ++ instr :: rest).length := by simp
  unfold exchange?
  simp only [here]
  split
  · next same => rw [same]
  · rw [Code.replace?_singleton inside]
    simp

/-- Exchanges from an index on reach the end of the code. -/
theorem foldlM_exchange? (front rest : List Instr) (points : List SourcePoint) :
    (List.range' front.length rest.length).foldlM backing.exchange? ⟨front ++ rest, points⟩ =
      some ⟨front ++ rest.map backing.redirect, points⟩ := by
  induction rest generalizing front with
  | nil => rfl
  | cons instr rest ih =>
    have later := ih (front ++ [backing.redirect instr])
    rw [List.length_append, List.length_singleton, List.append_assoc, List.append_assoc] at later
    rw [List.length_cons, List.range'_succ, List.foldlM_cons, exchange?_eq]
    exact later

/-- All exchanges can be made, and together they redirect the code. -/
theorem exchangeAll?_eq (backing : Backing) (code : Code) :
    backing.exchangeAll? code = some (backing.redirectCode code) := by
  rw [exchangeAll?, List.range_eq_range']
  exact foldlM_exchange? [] code.instrs code.points

end Backing

/-! ## Arrivals -/

namespace StackCheck

variable {setting : Setting}

/-- Control stays inside of code: what goes on is not the last instruction, and jumps lead to
instructions. -/
structure Closed (instrs : List Instr) : Prop where
  onward : ∀ {index instr}, instrs[index]? = some instr → instr.isTerminator = false →
    index + 1 < instrs.length
  targets : ∀ instr ∈ instrs, ∀ index ∈ instr.target?, index < instrs.length

theorem Closed.inside {instrs : List Instr} (closed : Closed instrs) {index place : Nat}
    (flows : Frame.Flows instrs index place) : place < instrs.length := by
  cases flows with
  | next here goesOn => exact closed.onward here goesOn
  | jump here leads => exact closed.targets _ (List.mem_of_getElem? here) _ leads

theorem depthAfter_ne_fallOffEnd (frame : Frame) (instr : Instr) (offset depth other : Nat) :
    frame.depthAfter instr offset depth ≠ .error (.fallOffEnd other) := by
  unfold Frame.depthAfter
  dsimp only
  split_ifs <;> rintro ⟨⟩

theorem successors_ne_fallOffEnd (closed : Closed setting.instrs) {instr : Instr}
    {arrival : Arrival} (here : setting.instrs[arrival.index]? = some instr) (offset : Nat) :
    setting.successors instr arrival ≠ .error (.fallOffEnd offset) := by
  unfold Setting.successors
  dsimp only
  cases depth : setting.frame.depthAfter instr (setting.offsetAt arrival.index) arrival.depth with
  | error cause =>
    rintro ⟨⟩
    exact depthAfter_ne_fallOffEnd _ _ _ _ _ depth
  | ok after =>
    cases ends : instr.isTerminator with
    | true => rintro ⟨⟩
    | false =>
      have inside := closed.onward here ends
      simp only [Bool.false_eq_true, if_false, if_pos inside]
      rintro ⟨⟩

/-- The check never arrives at a place without an instruction, which is where it would answer that
control runs past the end. -/
theorem follow_ne_fallOffEnd (closed : Closed setting.instrs) {depths : List (Option Nat)}
    {pending : List Arrival} (sized : depths.length = setting.instrs.length)
    (inside : ∀ arrival ∈ pending, arrival.index < setting.instrs.length) (offset : Nat) :
    follow setting depths pending ≠ .error (.fallOffEnd offset) := by
  induction depths, pending using follow.induct setting with
  | case1 depths =>
    rw [follow]
    rintro ⟨⟩
  | case2 depths arrival pending known ih =>
    rw [follow_noted known]
    exact ih sized (List.forall_mem_cons.mp inside).2
  | case3 depths arrival pending depth known different =>
    rw [follow_mismatch known different]
    rintro ⟨⟩
  | case4 depths arrival pending instr free here cause refused =>
    rw [follow_fresh free here, refused]
    rintro ⟨⟩
    exact successors_ne_fallOffEnd closed here offset refused
  | case5 depths arrival pending instr free here next passed ih =>
    rw [follow_fresh free here, passed]
    refine ih (by rw [List.length_set, sized]) (List.forall_mem_append.mpr ⟨?_, ?_⟩)
    · exact fun other later => closed.inside ((mem_successors_iff here passed other).mp later).1
    · exact (List.forall_mem_cons.mp inside).2
  | case6 depths arrival pending unknown missing =>
    have within := (List.forall_mem_cons.mp inside).1
    have here := List.getElem?_eq_getElem within
    cases noted : depths[arrival.index]? with
    | none =>
      have outside := List.getElem?_eq_none_iff.mp noted
      omega
    | some entry =>
      cases entry with
      | none => exact absurd here (missing _ noted)
      | some depth => exact absurd noted (unknown depth)

theorem closed_of_decode {bytes : Bytes} {code : Code} {last : Instr}
    (decoded : Code.decode bytes = .ok code) (ending : code.instrs.getLast? = some last)
    (ends : last.isTerminator = true) : Closed code.instrs where
  onward {index instr} here goesOn := by
    have within := (List.getElem?_eq_some_iff.mp here).1
    by_contra outside
    have final : index = code.instrs.length - 1 := by omega
    rw [final, ← List.getLast?_eq_getElem?, ending] at here
    cases here
    rw [ends] at goesOn
    cases goesOn
  targets := (Code.storable_of_decode decoded).targetsInside

/-- With a terminator at the end, code that is read never leads the check to a place without an
instruction. -/
theorem run_ne_fallOffEnd {bytes : Bytes} {code : Code} {last : Instr}
    (decoded : Code.decode bytes = .ok code) (ending : code.instrs.getLast? = some last)
    (ends : last.isTerminator = true) (frame : Frame) (offset : Nat) :
    run ⟨frame, code.instrs, code.offsets⟩ ≠ .error (.fallOffEnd offset) := by
  have entry : 0 < code.instrs.length := by
    refine List.length_pos_iff.mpr ?_
    rintro empty
    rw [empty] at ending
    cases ending
  refine follow_ne_fallOffEnd (closed_of_decode decoded ending ends) List.length_replicate ?_ offset
  intro arrival member
  cases List.mem_singleton.mp member
  exact entry

end StackCheck

/-! ## The whole -/

/-- Weaving never works with an index that is out of range, whatever module it is given and in whatever
run.  The stores that are taken out of a constructor are separate windows in front of the call of the
base class, which is found where they leave it; uses of hidden fields can be exchanged one by one; and
the check of the code that is put in never looks for an instruction where there is none. -/
theorem Scope.weave_in_range (scope : Scope) :
    scope.weave ≠ .error .outOfRange ∧
    (∀ (site : ClassSite) (backing : Backing) (method : Method) (code : Code) (baseCall : Nat),
      site.baseCall? code = some baseCall → ∃ relocation,
        site.relocateAll backing method code (ClassSite.earlyStores backing code baseCall) =
            .ok relocation ∧
          ClassSite.Windows code baseCall
            (ClassSite.settable backing code (ClassSite.earlyStores backing code baseCall))
            relocation) ∧
    (∀ (backing : Backing) (code : Code),
      backing.exchangeAll? code = some (backing.redirectCode code)) ∧
    ∀ (bytes : Bytes) (code : Code) (last : Instr), Code.decode bytes = .ok code →
      code.instrs.getLast? = some last → last.isTerminator = true → ∀ (frame : Frame) (offset : Nat),
        StackCheck.run ⟨frame, code.instrs, code.offsets⟩ ≠ .error (.fallOffEnd offset) := by
  refine ⟨scope.weave_ne_outOfRange, fun site backing method code baseCall called => ?_,
    fun backing code => ?_, fun bytes code last decoded ending ends frame offset => ?_⟩
  · exact ClassSite.exists_windows site backing method called
  · exact backing.exchangeAll?_eq code
  · exact StackCheck.run_ne_fallOffEnd decoded ending ends frame offset

/-! ## A class with two early stores -/

namespace Rectangle

/-- Both sides are set in front of the call of the base class. -/
def code : Code where
  instrs := [.loadArg 0, .constI32 3, .storeField 0, .loadArg 0, .constI32 4, .storeField 1,
    .loadArg 0, .call 2, .ret]

def type : TypeDef where
  name := "Rectangle"
  namespaceName := "Game"
  base := some (.named ⟨"Tether.Runtime", "NativeObject"⟩)
  methods := [{ name := Method.constructorName, body := some (code.toBody []) }]

def source : Module :=
  { Module.empty "Game" with
    types := [type]
    tables := { members := [
      .field (.named ⟨"Game", "Rectangle"⟩) "<Width>k__BackingField" .i32,
      .field (.named ⟨"Game", "Rectangle"⟩) "<Height>k__BackingField" .i32,
      .instanceMethod (.named ⟨"Tether.Runtime", "NativeObject"⟩) Method.constructorName [] .void] } }

def site : ClassSite where
  config := {}
  source := source
  type := type
  binding := { name := ⟨"Game", "Rectangle"⟩, nativeName := "Rectangle", type := 0 }
  classPtr := 0

def backing : Backing := [(0, ⟨"Width", 3, some 4⟩), (1, ⟨"Height", 5, some 6⟩)]

end Rectangle

open Rectangle in
/-- Two windows of three instructions are taken out, and the call of the base class moves from the
eighth place to the second. -/
theorem Scope.weave_in_range_rectangle :
    site.baseCall? code = some 7 ∧ ∃ relocation,
      site.relocateAll backing type.methods[0] code [(2, 0), (5, 1)] = .ok relocation ∧
        relocation.settings.length = 2 ∧
        code.instrs[7]? = some (.call 2) ∧ relocation.code.instrs[1]? = some (.call 2) := by
  have called : site.baseCall? code = some 7 := by decide
  have early : ClassSite.earlyStores backing code 7 = [(2, 0), (5, 1)] := by decide
  have taken : (ClassSite.settable backing code [(2, 0), (5, 1)]).length = 2 := by decide
  rcases (Scope.weave_in_range ⟨{}, source⟩).2.1 site backing type.methods[0] code 7 called with
    ⟨relocation, run, windows⟩
  rw [early] at run windows
  have count := windows.count.trans taken
  rcases windows.call with ⟨token, before, after⟩
  rw [count] at after
  cases before
  exact ⟨called, relocation, run, count, rfl, after⟩

end NativeWeave
