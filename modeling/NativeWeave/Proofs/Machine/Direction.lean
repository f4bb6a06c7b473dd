import NativeWeave.Proofs.Editing.Transfer
import NativeWeave.Proofs.Machine.Release
import NativeWeave.Proofs.Verification.Operands

namespace NativeWeave

/-!
# What becomes of arguments

The flags of a parameter decide what an exposed function does with the argument, and what its invoker
does with the local variable that stands in for it.  An argument that is passed by reference is an
address, from which the function reads what it hands over, and to which it writes what comes back; the
invoker passes the address of its variable.  Any other argument is handed over as it is.
-/

/-! ## Handing over values -/

/-- The argument that a value is taken from, and what is done with it. -/
def ValueSource.use? : ValueSource → Option (UInt16 × Use)
  | argument index => some (index, .itself)
  | behind index _ => some (index, .read)
  | _ => none

/-- The instruction takes what was pushed last, and works on it itself. -/
structure Instr.Takes (last : Instr) (tables : Tables) : Prop where
  still : last.target? = none
  argument : last.argument? = none
  isGlobal : last.local? = none
  pops : ∀ frame : Frame, frame.tables = tables → 0 < (frame.effect last).pops
  itself : ∀ frame : Frame, frame.tables = tables → frame.useOf last 0 = .itself

/-- A call takes the last argument of a static method itself. -/
theorem Instr.takes_call {tables : Tables} {token : UInt32} {owner : Signature} {name : String}
    {parameters : List Signature} {result : Signature}
    (means : tables.member? token = some (.staticMethod owner name parameters result))
    (some : 0 < parameters.length) : Instr.Takes (.call token) tables where
  still := rfl
  argument := rfl
  isGlobal := rfl
  pops frame same := by
    subst same
    change 0 < (Frame.memberEffect .call ((frame.tables.member? token).bind (·.methodSignature?))).pops
    rw [means]
    exact some
  itself frame same := by
    subst same
    unfold Frame.useOf
    dsimp only [Instr.call]
    rw [means]
    exact if_neg fun both => Bool.false_ne_true both.1

open Emit

theorem Emit.leaves_callStatic_takes {owner : Signature} {name : String}
    {parameters : List Signature} {result : Signature} (some : 0 < parameters.length) :
    (callStatic owner name parameters result).Leaves fun tables code =>
      ∃ last, code = [last] ∧ last.Takes tables :=
  (leaves_callOf _).mono fun _ _ made => by
    rcases made with ⟨token, rfl, means⟩
    exact ⟨_, rfl, Instr.takes_call means some⟩

namespace Category

/-- The code pushes an address and a value, and an instruction takes the value.  Values that are
marshalled field by field are different: a method of such a value takes the address, and what is pushed
in front of it is the address of the value. -/
inductive Hands (address : NativeAddress) (value : ValueSource) (tables : Tables) : Fragment → Prop
  | value {front : Fragment} {last : Instr}
      (places : ∀ instr ∈ front, instr ∈ address.push ∨ ∃ token, instr = .loadStatic token)
      (takes : last.Takes tables) : Hands address value tables (front ++ value.push ++ [last])
  | method {type : Signature} {token : UInt32}
      (means : tables.member? token =
        some (.instanceMethod type Naming.toNative [.intPtr] .void)) :
      Hands address value tables (value.pushAddress ++ address.push ++ [.call token])

variable {config : Config} {category : Category} {type : Signature} {slots : MemberSlots}
  {address : NativeAddress} {value : ValueSource}

/-- Code for an address, a value and an instruction that takes it. -/
theorem hands_of_takes {tables : Tables} {last : Instr} (takes : last.Takes tables) :
    Hands address value tables (address.push ++ value.push ++ [last]) :=
  .value (fun _ member => .inl member) takes

/-- Code for a handle, an address, a value and an instruction that takes it. -/
theorem hands_of_handle {tables : Tables} {handle : UInt32} {last : Instr}
    (takes : last.Takes tables) :
    Hands address value tables (.loadStatic handle :: address.push ++ value.push ++ [last]) := by
  refine .value ?_ takes
  exact List.forall_mem_cons.mpr ⟨.inr ⟨handle, rfl⟩, fun _ member => .inl member⟩

/-- However values of a category are written, they are handed over. -/
theorem leaves_toNative_hands :
    (category.toNative config type slots address value).Leaves (Hands address value) := by
  have stores : ∀ {tables} {kind : NativeKind}, Instr.Takes (.indirect .store kind) tables :=
    ⟨rfl, rfl, rfl, fun _ _ => Nat.two_pos, fun _ _ => rfl⟩
  have calls : ∀ {owner : Signature} {parameters : List Signature} {result : Signature},
      0 < parameters.length → (do
        return address.push ++ value.push ++ (← callStatic owner "ToNative" parameters result)).Leaves
          (Hands address value) := by
    intro owner parameters result some
    refine .bind (leaves_callStatic_takes some) fun call => .pure ?_
    rintro tables ⟨last, rfl, takes⟩
    exact hands_of_takes takes
  have handled : ∀ {owner : Signature} {parameters : List Signature} {result : Signature}
      (handle : UInt32), 0 < parameters.length → (do
        return Instr.loadStatic handle :: address.push ++ value.push
          ++ (← callStatic owner "ToNative" parameters result)).Leaves (Hands address value) := by
    intro owner parameters result handle some
    refine .bind (leaves_callStatic_takes some) fun call => .pure ?_
    rintro tables ⟨last, rfl, takes⟩
    exact hands_of_handle takes
  unfold toNative
  split
  · exact .pure fun tables => hands_of_takes stores
  · exact .pure fun tables => hands_of_takes stores
  · refine .after fun width => .bind (leaves_callStatic_takes (Nat.succ_pos 2)) fun call => ?_
    refine .pure ?_
    rintro tables ⟨last, rfl, takes⟩
    have hands : Hands address value tables
        (address.push ++ [.loadStatic width] ++ value.push ++ [last]) := by
      refine .value (List.forall_mem_append.mpr ⟨fun _ member => .inl member, ?_⟩) takes
      exact List.forall_mem_singleton.mpr (.inr ⟨width, rfl⟩)
    rwa [List.append_assoc address.push] at hands
  · exact .after fun handle => handled handle (Nat.succ_pos 2)
  · exact calls (Nat.succ_pos 1)
  · refine .after fun token => .pure fun tables => hands_of_takes ?_
    exact ⟨rfl, rfl, rfl, fun _ _ => Nat.two_pos, fun _ _ => rfl⟩
  · exact calls (Nat.succ_pos 1)
  · refine .bind (leaves_callOf _) fun call => .pure ?_
    rintro tables ⟨token, rfl, means⟩
    exact .method means
  · exact calls (Nat.succ_pos 1)
  · exact calls (Nat.succ_pos 1)
  · exact calls (Nat.succ_pos 1)
  · exact calls (Nat.succ_pos 1)
  · exact leaves_inconsistent _
  · exact .after fun handle => handled handle (Nat.succ_pos 2)

namespace Hands

variable {tables : Tables} {code : Fragment}

/-- The value is handed over itself, or what lies at the address that is its argument. -/
theorem contributes (hands : Hands address value tables code) {frame : Frame}
    (same : frame.tables = tables) (moves : frame.Moves address.push 0 1)
    (apart : ∀ instr ∈ address.push, instr.argument? = none) {index : UInt16} {use : Use}
    (taken : value.use? = some (index, use)) {first : Nat} (late : first ≤ index.toNat) :
    frame.Contributes first code [(index.toNat, use)] := by
  have silent : ∀ {more : Fragment}, (∀ instr ∈ more, instr.target? = none) →
      (∀ instr ∈ more, instr.argument? = none) → frame.Contributes first more [] := by
    intro more still quiet
    refine Frame.contributes_of_argument? still fun instr member index works => ?_
    cases (quiet instr member).symm.trans works
  cases hands with
  | @value front last places takes =>
    have ahead : frame.Contributes first front [] := by
      refine silent (fun instr member => ?_) fun instr member => ?_
      · rcases places instr member with inside | ⟨token, rfl⟩
        · exact moves.still instr inside
        · rfl
      · rcases places instr member with inside | ⟨token, rfl⟩
        · exact apart instr inside
        · rfl
    have behind : frame.Contributes first [last] [] :=
      silent (List.forall_mem_singleton.mpr takes.still) (List.forall_mem_singleton.mpr takes.argument)
    rw [List.append_assoc]
    refine ahead.append ?_
    cases value with
    | argument place =>
      cases taken
      have whole := Frame.contributes_loadArg .done (takes.pops frame same) late behind
      rwa [takes.itself frame same] at whole
    | behind place type =>
      cases taken
      have load : frame.Contributes first [Instr.loadObject type] [] :=
        silent (List.forall_mem_singleton.mpr rfl) (List.forall_mem_singleton.mpr rfl)
      have loaded := @Frame.contributes_loadArg frame first index [] (.loadObject type) 0 .done
        Nat.one_pos late load
      exact loaded.append behind
    | _ => cases taken
  | @method type token means =>
    subst same
    have call : frame.Contributes first (address.push ++ [.call token]) [] := by
      refine silent (List.forall_mem_append.mpr ⟨moves.still, List.forall_mem_singleton.mpr rfl⟩) ?_
      exact List.forall_mem_append.mpr ⟨apart, List.forall_mem_singleton.mpr rfl⟩
    rw [List.append_assoc]
    cases value with
    | argument place =>
      cases taken
      exact (Frame.contributes_loadArgAddress late).append call
    | behind place _ =>
      cases taken
      have pops : 1 < (frame.effect (.call token)).pops := by
        change 1 < (Frame.memberEffect .call
          ((frame.tables.member? token).bind (·.methodSignature?))).pops
        rw [means]
        exact Nat.one_lt_two
      have whole := Frame.contributes_loadArg moves pops late call
      have read : frame.useOf (.call token) 1 = .read := by
        unfold Frame.useOf
        dsimp only [Instr.call]
        rw [means]
        exact if_pos ⟨rfl, rfl⟩
      rwa [read] at whole
    | _ => cases taken

/-- Of the local variables only the one is accessed that has the value, and it stays as it is. -/
theorem accesses {index : UInt16} (hands : Hands address (.localVariable index) tables code)
    (apart : ∀ instr ∈ address.push, instr.local? = none) :
    ∃ op, op ≠ .storeLocal ∧ ∀ count, code.accesses count =
      if index.toNat < count then [(op, index.toNat)] else [] := by
  cases hands with
  | @value front last places takes =>
    refine ⟨.loadLocal, nofun, fun count => ?_⟩
    have ahead : Fragment.accesses count front = [] := by
      refine Fragment.accesses_of_local? fun instr member => ?_
      rcases places instr member with inside | ⟨token, rfl⟩
      · exact apart instr inside
      · rfl
    have behind : Fragment.accesses count [last] = [] :=
      Fragment.accesses_of_local? (List.forall_mem_singleton.mpr takes.isGlobal)
    rw [Fragment.accesses_append, Fragment.accesses_append, ahead, behind, List.append_nil,
      List.nil_append]
    exact Fragment.accesses_local rfl count
  | @method type token means =>
    refine ⟨.loadLocalAddress, nofun, fun count => ?_⟩
    have behind : Fragment.accesses count [.call token] = [] :=
      Fragment.accesses_of_local? (List.forall_mem_singleton.mpr rfl)
    rw [Fragment.accesses_append, Fragment.accesses_append, Fragment.accesses_of_local? apart, behind,
      List.append_nil, List.append_nil]
    exact Fragment.accesses_local rfl count

end Hands

end Category

/-! ## Parts of the caller -/

namespace FunctionSite

/-- The slots of the values are static fields. -/
def Slotted (site : FunctionSite) (tables : Tables) : Prop :=
  ∀ value ∈ site.values, ∀ frame : Frame, frame.tables = tables → frame.Holds value.slots

/-- Wherever there is a local variable for the buffer, code does this with the arguments behind the
receiver. -/
def Does (site : FunctionSite) (tables : Tables) (code : Fragment) (listed : List (Nat × Use)) :
    Prop :=
  site.Slotted tables → ∀ frame : Frame, frame.tables = tables → 0 < frame.locals →
    frame.Contributes site.shift code listed

variable {site : FunctionSite} {value : CallValue} {argument : UInt16} {tables : Tables}

/-- What is done with the argument of a parameter that is handed over. -/
def given (item : CallValue × UInt16) : Nat × Use :=
  (item.2.toNat, if item.1.binding.isByRef then .read else .itself)

/-- What is done with the argument of a parameter that is handed back. -/
def returned (item : CallValue × UInt16) : Nat × Use :=
  (item.2.toNat, .written)

/-- Code that works on earlier arguments only. -/
theorem does_of_argument? {code : Fragment} (early : ∀ instr ∈ code, instr.target? = none ∧
    ∀ index ∈ instr.argument?, index.toNat < site.shift) : site.Does tables code [] :=
  fun _ _ _ _ => Frame.contributes_of_argument? (fun instr member => (early instr member).1)
    fun instr member => (early instr member).2

/-- Code that works on no arguments. -/
theorem does_of_none {code : Fragment}
    (silent : ∀ instr ∈ code, instr.target? = none ∧ instr.argument? = none) :
    site.Does tables code [] := by
  refine does_of_argument? fun instr member => ⟨(silent instr member).1, ?_⟩
  rw [(silent instr member).2]
  exact nofun

theorem does_single {instr : Instr} (still : instr.target? = none) (apart : instr.argument? = none) :
    site.Does tables [instr] [] :=
  does_of_none (List.forall_mem_singleton.mpr ⟨still, apart⟩)

theorem does_concat {fragments : List Fragment} {parts : List (List (Nat × Use))}
    (each : List.Forall₂ (site.Does tables) fragments parts) :
    site.Does tables (Fragment.concat fragments) parts.flatten :=
  fun slotted frame same buffered =>
    Frame.contributes_concat (each.imp fun _ _ does => does slotted frame same buffered)

/-- Two parts of some code work on arguments, and the others do not. -/
theorem does_parts {front middle back : List Fragment} {one other : Fragment}
    {first second : List (Nat × Use)} (early : ∀ fragment ∈ front, site.Does tables fragment [])
    (does : site.Does tables one first) (between : ∀ fragment ∈ middle, site.Does tables fragment [])
    (also : site.Does tables other second) (late : ∀ fragment ∈ back, site.Does tables fragment []) :
    site.Does tables (Fragment.concat (front ++ one :: (middle ++ other :: back)))
      (first ++ second) := by
  have nothing : ∀ {fragments : List Fragment},
      (∀ fragment ∈ fragments, site.Does tables fragment []) →
        List.Forall₂ (site.Does tables) fragments (fragments.map fun _ => []) :=
    fun each => List.forall₂_map_right_iff.mpr (List.forall₂_same.mpr each)
  have whole := does_concat (List.rel_append (nothing early)
    (.cons does (List.rel_append (nothing between) (.cons also (nothing late)))))
  have joined : ∀ fragments : List Fragment,
      (fragments.map fun _ => ([] : List (Nat × Use))).flatten = [] := fun fragments =>
    List.flatten_eq_nil_iff.mpr (List.forall_mem_map.mpr fun _ _ => rfl)
  rwa [List.flatten_append, joined, List.flatten_cons, List.flatten_append, joined,
    List.flatten_cons, joined, List.append_nil, List.nil_append, List.nil_append] at whole

theorem leaves_forAll_does {items : List (CallValue × UInt16)}
    {emit : CallValue × UInt16 → Emit Fragment} [∀ item, (emit item).Grows]
    {use : CallValue × UInt16 → Nat × Use}
    (each : ∀ item ∈ items, (emit item).Leaves fun tables code => site.Does tables code [use item]) :
    (forAll items emit).Leaves fun tables code => site.Does tables code (items.map use) := by
  refine (leaves_forAll each).mono fun tables code made => ?_
  rcases made with ⟨fragments, rfl, all⟩
  exact fun slotted frame same buffered =>
    Frame.contributes_concat_map (all.imp fun _ _ does => does slotted frame same buffered)

theorem reaches_place {frame : Frame} (buffered : 0 < frame.locals)
    (holds : frame.Holds value.slots) : frame.Reaches (value.place buffer) := by
  refine ⟨buffered, ?_⟩
  rintro _ ⟨rfl⟩
  exact holds.offset

theorem leaves_passArgument_does (listed : value ∈ site.values)
    (late : site.shift ≤ argument.toNat) : (site.passArgument value argument).Leaves
      fun tables code => site.Does tables code [given (value, argument)] := by
  have hands : ∀ {source use}, source.use? = some (argument, use) →
      (value.write site.config (value.place buffer) source).Leaves fun tables code =>
        site.Does tables code [(argument.toNat, use)] := by
    intro source use taken
    refine Category.leaves_toNative_hands.mono fun tables code hands slotted frame same buffered => ?_
    have reaches := reaches_place buffered (slotted value listed frame same)
    refine hands.contributes same (Frame.moves_address reaches (by decide)) ?_ taken late
    change ∀ instr ∈ [Instr.loadLocal 0, .loadStatic value.slots.offset, .plain .toNative,
      .plain .add], instr.argument? = none
    simp only [List.forall_mem_cons]
    exact ⟨rfl, rfl, rfl, rfl, List.forall_mem_nil _⟩
  unfold passArgument given
  split
  · refine .after fun token => ?_
    rw [pure_bind]
    exact hands rfl
  · rw [pure_bind]
    exact hands rfl

/-- Reading a value from the buffer has nothing to do with arguments. -/
theorem leaves_read_does (listed : value ∈ site.values) (valued : value.type.isVoid = false) :
    (value.read site.config (value.place buffer)).Leaves fun tables code =>
      site.Does tables code [] ∧ (site.Slotted tables → ∀ frame : Frame, frame.tables = tables →
        0 < frame.locals → frame.Moves code 0 1) := by
  refine (Category.leaves_fromNative valued).mono fun tables code reading => ?_
  have moves : site.Slotted tables → ∀ frame : Frame, frame.tables = tables → 0 < frame.locals →
      frame.Moves code 0 1 := fun slotted frame same buffered =>
    have holds := slotted value listed frame same
    reading frame same holds (reaches_place buffered holds) 0 (Nat.zero_le _)
  exact ⟨fun slotted frame same buffered =>
    (moves slotted { frame with arguments := site.shift } same buffered).contributes, moves⟩

theorem leaves_returnArgument_does (listed : value ∈ site.values)
    (valued : value.type.isVoid = false) (late : site.shift ≤ argument.toNat) :
    (site.returnArgument value argument).Leaves fun tables code =>
      site.Does tables code [returned (value, argument)] := by
  unfold returnArgument
  refine .after fun token => .bind (leaves_read_does listed valued) fun read => .pure ?_
  rintro tables ⟨does, moves⟩ slotted frame same buffered
  have stores : frame.Contributes site.shift [.storeObject token] [] :=
    Frame.contributes_of_argument? (List.forall_mem_singleton.mpr rfl)
      (List.forall_mem_singleton.mpr nofun)
  have silent := (does slotted frame same buffered).append stores
  have whole := @Frame.contributes_loadArg frame site.shift argument read (.storeObject token) 1
    (moves slotted frame same buffered) Nat.one_lt_two late silent
  have joined : Fragment.concat [[.loadArg argument], read, [.storeObject token]] =
      .loadArg argument :: (read ++ [.storeObject token]) :=
    @Fragment.concat_eq_flatten [[.loadArg argument], read, [.storeObject token]] whole.still
  rwa [joined]

theorem leaves_keepResult_does (valued : ∀ value ∈ site.values, value.type.isVoid = false) :
    site.keepResult.Leaves fun tables code => site.Does tables code [] := by
  unfold keepResult
  split
  · exact .pure fun tables _ frame _ _ => Frame.contributes_nil
  · next value found =>
    have listed : value ∈ site.values := List.mem_of_find?_eq_some found
    refine .bind (leaves_read_does listed (valued value listed)) fun read => .pure ?_
    rintro tables ⟨does, _⟩
    exact @does_concat site tables _ [[], []] (.cons does (.cons (does_single rfl rfl) .nil))

theorem leaves_cleanup_does (listed : value ∈ site.values) :
    (value.binding.category.cleanup site.config value.slots (value.place buffer)).Leaves
      fun tables code => site.Does tables code [] := by
  refine Category.leaves_cleanup.mono fun tables code tending slotted frame same buffered => ?_
  have holds := slotted value listed { frame with arguments := site.shift } same
  exact (tending { frame with arguments := site.shift } same holds (reaches_place buffered holds) 0
    (Nat.zero_le _)).contributes

/-- The receiver stands in front of the parameters. -/
theorem lt_shift_of_hasThis (received : site.hasThis = true) :
    ∀ index ∈ (Instr.loadArg 0).argument?, index.toNat < site.shift := by
  rintro _ ⟨rfl⟩
  rw [shift, received]
  exact Nat.one_pos

/-- Code that works on the receiver, and on nothing else. -/
theorem does_loadThis {code : Fragment} (received : site.hasThis = true)
    (silent : ∀ instr ∈ code, instr.target? = none ∧ instr.argument? = none) :
    site.Does tables (.loadArg 0 :: code) [] := by
  refine does_of_argument? (List.forall_mem_cons.mpr
    ⟨⟨rfl, lt_shift_of_hasThis received⟩, fun instr member => ⟨(silent instr member).1, ?_⟩⟩)
  rw [(silent instr member).2]
  exact fun index impossible => absurd impossible (Option.not_mem_none index)

theorem leaves_liveness_does (received : site.hasThis = true) :
    (liveness site.config).Leaves fun tables code => site.Does tables code [] := by
  refine .bind (leaves_callOf _) fun call => .pure ?_
  rintro tables ⟨token, rfl, _⟩
  exact does_loadThis received (List.forall_mem_singleton.mpr ⟨rfl, rfl⟩)

theorem leaves_receiver_does : site.receiver.Leaves fun tables code => site.Does tables code [] := by
  unfold receiver thisNative
  split
  · next received =>
    rw [bind_assoc]
    refine .after fun token => ?_
    rw [pure_bind]
    exact .pure fun tables =>
      does_loadThis received (List.forall_mem_singleton.mpr ⟨rfl, rfl⟩)
  · refine .bind (leaves_callOf _) fun call => .pure ?_
    rintro tables ⟨token, rfl, _⟩
    refine does_of_none ?_
    simp only [List.forall_mem_cons]
    exact ⟨⟨rfl, rfl⟩, ⟨rfl, rfl⟩, List.forall_mem_nil _⟩

theorem leaves_callee_does : site.callee.Leaves fun tables code => site.Does tables code [] := by
  unfold callee
  split
  · next both =>
    refine .after fun resolve => .bind (leaves_text _) fun name => .pure ?_
    rintro tables ⟨text, rfl, _⟩
    refine does_loadThis (Bool.and_eq_true_iff.mp both).1 (List.forall_mem_cons.mpr ⟨⟨rfl, rfl⟩, ?_⟩)
    exact List.forall_mem_singleton.mpr ⟨rfl, rfl⟩
  · exact .pure fun tables => does_single rfl rfl

end FunctionSite

/-! ## The caller -/

/-- The body has a local variable for a buffer, and its code, which has no jumps, does this with the
arguments behind the receiver. -/
def Body.Treats (body : Body) (tables : Tables) (first : Nat) (listed : List (Nat × Use)) : Prop :=
  0 < body.locals.length ∧ ∃ code, body.toCode = .ok code ∧ ∀ frame : Frame, frame.tables = tables →
    0 < frame.locals → frame.Contributes first code.instrs listed

namespace FunctionSite

variable {site : FunctionSite}

/-- What is done with the arguments of the function, in order. -/
def uses (site : FunctionSite) : List (Nat × Use) :=
  (site.arguments.filter (·.1.binding.isInput)).map given
    ++ (site.arguments.filter (·.1.binding.isByRef)).map returned

theorem treats_of_does {tables : Tables} {code : Code} {listed : List (Nat × Use)}
    {locals : List Signature} (does : site.Does tables code.instrs listed)
    (slotted : site.Slotted tables) (buffered : 0 < locals.length) :
    (code.toBody locals).Treats tables site.shift listed := by
  have still := (does slotted ⟨tables, 0, 1, false⟩ rfl Nat.one_pos).still
  rcases Code.exists_toCode_toBody (Code.storable_of_still still) locals with ⟨read, found, kept⟩
  exact ⟨buffered, read, found, kept ▸ does slotted⟩

/-- Two parts of the code of the caller work on the arguments. -/
theorem does_caller {tables : Tables} {live passed receiver callee handed kept : Fragment}
    {released : List Fragment} {owning : List CallValue} {token : UInt32}
    {first second : List (Nat × Use)} (lives : site.Does tables live [])
    (passes : site.Does tables passed first) (receives : site.Does tables receiver [])
    (calls : site.Does tables callee []) (returns : site.Does tables handed second)
    (keeps : site.Does tables kept [])
    (all : List.Forall₂ (fun _ code => site.Does tables code []) owning released) :
    site.Does tables (Fragment.concat [live, site.allocate, passed, receiver, callee, [.loadLocal 0],
      [.call token], handed, kept, Fragment.concat released,
      (site.result?.map fun _ => Instr.loadLocal 1).toList, [.ret]]) (first ++ second) := by
  have early : ∀ fragment ∈ [live, site.allocate], site.Does tables fragment [] := by
    refine List.forall_mem_cons.mpr ⟨lives, List.forall_mem_singleton.mpr (does_of_none ?_)⟩
    simp only [allocate, List.forall_mem_cons]
    exact ⟨⟨rfl, rfl⟩, ⟨rfl, rfl⟩, ⟨rfl, rfl⟩, ⟨rfl, rfl⟩, ⟨rfl, rfl⟩, ⟨rfl, rfl⟩, ⟨rfl, rfl⟩,
      List.forall_mem_nil _⟩
  have between : ∀ fragment ∈ [receiver, callee, [.loadLocal 0], [.call token]],
      site.Does tables fragment [] := by
    simp only [List.forall_mem_cons]
    exact ⟨receives, calls, does_single rfl rfl, does_single rfl rfl, List.forall_mem_nil _⟩
  have releases : site.Does tables (Fragment.concat released) [] := by
    have whole := does_concat (List.forall₂_map_right_iff.mpr all.flip)
    rwa [List.flatten_eq_nil_iff.mpr (List.forall_mem_map.mpr fun _ _ => rfl)] at whole
  have last : site.Does tables (site.result?.map fun _ => Instr.loadLocal 1).toList [] := by
    cases site.result? with
    | none => exact does_of_none (List.forall_mem_nil _)
    | some value => exact does_single rfl rfl
  have late : ∀ fragment ∈ [kept, Fragment.concat released,
      (site.result?.map fun _ => Instr.loadLocal 1).toList, [.ret]],
      site.Does tables fragment [] := by
    simp only [List.forall_mem_cons]
    exact ⟨keeps, releases, last, does_single rfl rfl, List.forall_mem_nil _⟩
  have whole := does_parts early passes between returns late
  simpa only [List.cons_append, List.nil_append] using whole

/-- The caller does with its arguments what their directions ask for. -/
theorem leaves_callerBody_treats (valued : ∀ value ∈ site.values, value.type.isVoid = false)
    (late : ∀ item ∈ site.arguments, site.shift ≤ item.2.toNat) :
    site.callerBody.Leaves fun tables body => site.Slotted tables →
      body.Treats tables site.shift site.uses := by
  have listed : ∀ {chosen : CallValue × UInt16 → Bool}, ∀ item ∈ site.arguments.filter chosen,
      item.1 ∈ site.values ∧ item ∈ site.arguments := fun item inside =>
    have member := (List.mem_filter.mp inside).1
    ⟨mem_values_of_mem_arguments member, member⟩
  have nothing : (pure [] : Emit Fragment).Leaves fun tables code => site.Does tables code [] :=
    .pure fun tables _ frame _ _ => Frame.contributes_nil
  unfold callerBody
  split
  case' isTrue received => refine .bind (leaves_liveness_does received) fun live => ?_
  case' isFalse => refine .bind nothing fun live => ?_
  all_goals
    refine .bind (leaves_forAll_does fun item inside => leaves_passArgument_does
      (listed item inside).1 (late item (listed item inside).2)) fun passed => ?_
    refine .bind leaves_receiver_does fun receiver => .bind leaves_callee_does fun callee => ?_
    refine .bind (leaves_callOf site.config.invokeNativeFunction) fun invoke => ?_
    refine .bind (leaves_forAll_does fun item inside => leaves_returnArgument_does
      (listed item inside).1 (valued _ (listed item inside).1)
      (late item (listed item inside).2)) fun handed => ?_
    refine .bind (leaves_keepResult_does valued) fun kept => ?_
    refine .bind (leaves_forAll fun value inside =>
      leaves_cleanup_does (List.mem_filter.mp inside).1) fun released => .pure ?_
    rintro tables ⟨parts, rfl, all⟩ keeps returns ⟨token, rfl, _⟩ calls receives passes lives slotted
    exact treats_of_does (does_caller lives passes receives calls returns keeps all) slotted
      (Nat.succ_pos _)

end FunctionSite

/-! ## Parts of the invoker -/

namespace FunctionSite

/-- Code without jumps does this with the local variables that stand in for the parameters. -/
def Handles (site : FunctionSite) (tables : Tables) (code : Fragment)
    (listed : List (SlotOp × Nat)) : Prop :=
  site.Slotted tables → (∀ instr ∈ code, instr.target? = none) ∧
    code.accesses site.arguments.length = listed

variable {site : FunctionSite} {value : CallValue} {index : UInt16}

/-- What is done with the variable of a parameter whose value is handed over. -/
def stored (item : CallValue × UInt16) : SlotOp × Nat :=
  (.storeLocal, item.2.toNat)

theorem toNat_lt_of_mem_unpacked (short : site.arguments.length ≤ 65536) {item : CallValue × UInt16}
    (listed : item ∈ site.unpacked) : item.2.toNat < site.arguments.length := by
  rcases List.mem_map.mp listed with ⟨⟨⟨value, argument⟩, index⟩, inside, rfl⟩
  have place := List.snd_lt_of_mem_zipIdx inside
  rw [Nat.add_zero] at place
  change (UInt16.ofNat index).toNat < _
  rwa [UInt16.toNat_ofNat_of_lt' (Nat.lt_of_lt_of_le place short)]

/-- The arguments of the invoker are the addresses of two buffers, behind the receiver. -/
theorem local?_argument (index : UInt16) (offset : Option UInt32) :
    ∀ instr ∈ (⟨.argument index, offset⟩ : NativeAddress).push, instr.local? = none := by
  cases offset with
  | none => exact List.forall_mem_singleton.mpr rfl
  | some slot =>
    change ∀ instr ∈ [Instr.loadArg index, .loadStatic slot, .plain .toNative, .plain .add], _
    simp only [List.forall_mem_cons]
    exact ⟨rfl, rfl, rfl, rfl, List.forall_mem_nil _⟩

theorem leaves_unpackArgument_handles (listed : value ∈ site.values)
    (valued : value.type.isVoid = false) (inside : index.toNat < site.arguments.length) :
    (site.unpackArgument value index).Leaves fun tables code =>
      site.Handles tables code [stored (value, index)] := by
  unfold unpackArgument
  refine .bind (Category.leaves_fromNative valued) fun read => .pure fun tables reading slotted => ?_
  -- A frame without local variables is enough to read the value.
  let frame : Frame := ⟨tables, 2, 0, false⟩
  have holds := slotted value listed frame rfl
  have reaches : frame.Reaches (value.place (.argument site.bufferArgument)) := by
    refine ⟨?_, by rintro _ ⟨rfl⟩; exact holds.offset⟩
    change site.bufferArgument.toNat < 2
    unfold bufferArgument
    split <;> decide
  have moves := reading frame rfl holds reaches 0 (Nat.zero_le _)
  have still : ∀ instr ∈ [read, [.storeLocal index]].flatten, instr.target? = none := by
    refine List.forall_mem_flatten.mpr (List.forall_mem_cons.mpr ⟨moves.still, ?_⟩)
    exact List.forall_mem_singleton.mpr (List.forall_mem_singleton.mpr rfl)
  rw [Fragment.concat_eq_flatten still]
  refine ⟨still, ?_⟩
  have none : Fragment.accesses site.arguments.length read = [] := moves.accesses_eq_nil rfl _
  rw [List.flatten_cons, Fragment.accesses_append, none, List.flatten_singleton,
    Fragment.accesses_local rfl, if_pos inside]
  rfl

/-- The variable is written to the buffer, and stays as it is. -/
theorem leaves_write_handles {address : ValueSource} {offset : Option UInt32}
    (argument : ∃ place, address = .argument place) :
    (value.write site.config ⟨address, offset⟩ (.localVariable index)).Leaves fun _ code =>
      (∀ instr ∈ code, instr.target? = none) ∧ ∃ op, op ≠ .storeLocal ∧
        ∀ count, code.accesses count = if index.toNat < count then [(op, index.toNat)] else [] := by
  rcases argument with ⟨place, rfl⟩
  refine (Category.leaves_toNative_spares.and Category.leaves_toNative_hands).mono ?_
  rintro _ code ⟨spares, hands⟩
  rcases hands.accesses (local?_argument place offset) with ⟨op, other, same⟩
  exact ⟨spares.still, op, other, same⟩

theorem leaves_unpacking_handles (valued : ∀ value ∈ site.values, value.type.isVoid = false)
    {items : List (CallValue × UInt16)} (listed : ∀ item ∈ items, item.1 ∈ site.values)
    (inside : ∀ item ∈ items, item.2.toNat < site.arguments.length) :
    (forAll items fun (value, index) => site.unpackArgument value index).Leaves fun tables code =>
      site.Handles tables code (items.map stored) := by
  refine (leaves_forAll fun item member => leaves_unpackArgument_handles (listed item member)
    (valued _ (listed item member)) (inside item member)).mono fun tables code made slotted => ?_
  rcases made with ⟨fragments, rfl, all⟩
  have still : ∀ instr ∈ fragments.flatten, instr.target? = none := by
    refine List.forall_mem_flatten.mpr fun fragment member => ?_
    rcases (exists_of_mem_forall₂ all).2 fragment member with ⟨_, _, handles⟩
    exact (handles slotted).1
  have same : fragments.map (Fragment.accesses site.arguments.length) =
      items.map fun item => [stored item] := by
    rw [← List.forall₂_eq_eq_eq, List.forall₂_map_left_iff, List.forall₂_map_right_iff]
    exact all.flip.imp fun _ _ handles => (handles slotted).2
  refine ⟨Fragment.concat_eq_flatten still ▸ still, ?_⟩
  rw [Fragment.accesses_concat, List.flatMap_def, same, ← List.flatMap_def, ← List.map_eq_flatMap]

theorem leaves_writing_handles {items : List (CallValue × UInt16)}
    (inside : ∀ item ∈ items, item.2.toNat < site.arguments.length) :
    (forAll items fun (value, index) =>
      value.write site.config (value.place (.argument site.bufferArgument))
        (.localVariable index)).Leaves fun _ code => (∀ instr ∈ code, instr.target? = none) ∧
          (code.accesses site.arguments.length).map (·.2) = items.map (·.2.toNat) ∧
          ∀ access ∈ code.accesses site.arguments.length, access.1 ≠ .storeLocal := by
  refine (leaves_forAll fun item _ => leaves_write_handles ⟨_, rfl⟩).mono fun _ code made => ?_
  rcases made with ⟨fragments, rfl, all⟩
  have still : ∀ instr ∈ fragments.flatten, instr.target? = none := by
    refine List.forall_mem_flatten.mpr fun fragment member => ?_
    rcases (exists_of_mem_forall₂ all).2 fragment member with ⟨_, _, handles, _⟩
    exact handles
  refine ⟨Fragment.concat_eq_flatten still ▸ still, ?_⟩
  rw [Fragment.accesses_concat]
  clear still
  induction all with
  | nil => exact ⟨rfl, List.forall_mem_nil _⟩
  | @cons item fragment more others first _ ih =>
    rw [List.forall_mem_cons] at inside
    rcases ih inside.2 with ⟨places, kept⟩
    rcases first with ⟨_, op, other, same⟩
    rw [List.flatMap_cons, same, if_pos inside.1]
    exact ⟨congrArg (item.2.toNat :: ·) places, List.forall_mem_cons.mpr ⟨other, kept⟩⟩

/-- What the invoker does if the arguments do not pass the validation. -/
def givesUp (text report : UInt32) : Fragment :=
  [.constString text, .call report, .ret]

/-- Validation hands over the variables, and gives up if they do not pass. -/
theorem leaves_validate_eq : site.validate.Leaves fun _ code =>
    if site.function.hasValidation then ∃ check text report,
      code = site.pushArguments ++ .call check ::
        .jump .ifTrue (5 + site.pushArguments.length) :: givesUp text report
    else code = [] := by
  unfold validate
  split
  · refine .bind (leaves_callOf _) fun check => .after fun report => ?_
    refine .bind (leaves_text _) fun text => .pure ?_
    rintro tables ⟨index, rfl, _⟩ ⟨token, rfl, _⟩
    exact ⟨token, index, report, rfl⟩
  · exact .pure fun _ => rfl

theorem leaves_callImplementation_eq : site.callImplementation.Leaves fun tables code =>
    ∃ call token, (call = Instr.call token ∨ call = .callVirtual token) ∧
      tables.member? token = some site.implementation ∧ code = site.pushArguments ++ [call] := by
  unfold callImplementation
  refine .bind (leaves_member _) fun token => .pure fun tables means => ?_
  refine ⟨_, token, ?_, means, rfl⟩
  split
  · exact .inr rfl
  · exact .inl rfl

/-- The result has a variable of its own. -/
theorem leaves_passResult_handles (short : site.arguments.length < 65536) :
    site.passResult.Leaves fun _ code => (∀ instr ∈ code, instr.target? = none) ∧
      code.accesses site.arguments.length = [] := by
  unfold passResult
  split
  · exact .pure fun _ => ⟨List.forall_mem_nil _, rfl⟩
  · next value found =>
    refine .bind (leaves_write_handles ⟨_, rfl⟩) fun write => .pure ?_
    rintro _ ⟨still, op, _, same⟩
    have whole : ∀ instr ∈ [[Instr.storeLocal (UInt16.ofNat site.arguments.length)], write].flatten,
        instr.target? = none := by
      refine List.forall_mem_flatten.mpr (List.forall_mem_cons.mpr
        ⟨List.forall_mem_singleton.mpr rfl, List.forall_mem_singleton.mpr still⟩)
    have behind : ¬ (UInt16.ofNat site.arguments.length).toNat < site.arguments.length := by
      rw [UInt16.toNat_ofNat_of_lt' short]
      exact Nat.lt_irrefl _
    rw [Fragment.concat_eq_flatten whole]
    refine ⟨whole, ?_⟩
    rw [List.flatten_cons, Fragment.accesses_append, List.flatten_singleton, same,
      Fragment.accesses_local rfl, if_neg behind, if_neg behind, List.append_nil]

end FunctionSite

/-! ## Directions -/

namespace Direction

/-- The places of the parameters that are handed over. -/
def inputs (directions : List Direction) (start : Nat) : List (Direction × Nat) :=
  (directions.zipIdx start).filter (·.1.isInput)

/-- The places of the parameters that are handed back. -/
def outputs (directions : List Direction) (start : Nat) : List (Direction × Nat) :=
  (directions.zipIdx start).filter (·.1.isByRef)

/-- What is to be done with the arguments.  Those that are addresses are read before the call, unless
nothing is handed over, and are written to afterwards. -/
def uses (directions : List Direction) (start : Nat) : List (Nat × Use) :=
  (inputs directions start).map (fun item => (item.2, if item.1.isByRef then .read else .itself))
    ++ (outputs directions start).map fun item => (item.2, .written)

/-- Push the receiver, and the local variables of the parameters or their addresses. -/
def pushes (directions : List Direction) (hasThis : Bool) : Fragment :=
  (if hasThis then [.loadArg 0] else []) ++ directions.zipIdx.map fun item =>
    if item.1.isByRef then .loadLocalAddress (UInt16.ofNat item.2)
    else .loadLocal (UInt16.ofNat item.2)

end Direction

/-- The code puts what is handed over into local variables, one for each parameter.  It calls a method
with the variables or their addresses, and may have handed these to another method before.  Afterwards
it works on the variables of the parameters that are handed back, and leaves them as they are. -/
def Fragment.Invokes (code : Fragment) (tables : Tables) (member : MemberRef)
    (directions : List Direction) (hasThis checked : Bool) : Prop :=
  ∃ (front back : Fragment) (call : Instr) (token : UInt32),
    code = front ++ (Direction.pushes directions hasThis ++ call :: back) ∧
    (call = .call token ∨ call = .callVirtual token) ∧ tables.member? token = some member ∧
    front.accesses directions.length =
      (Direction.inputs directions 0).map (fun item => (.storeLocal, item.2)) ++
        (if checked then (Direction.pushes directions hasThis).accesses directions.length else []) ∧
    (back.accesses directions.length).map (·.2) = (Direction.outputs directions 0).map (·.2) ∧
    ∀ access ∈ back.accesses directions.length, access.1 ≠ .storeLocal

theorem map_filter_of_map_eq {α β γ : Type} {items : List α} {results : List β} {given : α → β}
    (same : items.map given = results) (chosen : β → Bool) (shown : β → γ) :
    (items.filter (chosen ∘ given)).map (shown ∘ given) = (results.filter chosen).map shown := by
  rw [← same, List.filter_map, List.map_map]

namespace FunctionSite

variable {site : FunctionSite}

def directions (site : FunctionSite) : List Direction :=
  site.arguments.map (·.1.binding.direction)

theorem length_directions (site : FunctionSite) : site.directions.length = site.arguments.length :=
  List.length_map _

theorem uses_eq (site : FunctionSite) {tables : Tables} (means : site.Means tables) :
    site.uses = Direction.uses site.directions site.shift := by
  have placed : site.arguments.map (fun item => (item.1.binding.direction, item.2.toNat)) =
      site.directions.zipIdx site.shift := by
    have same := congrArg (List.map (Prod.map MemberBinding.direction id)) means.arguments
    rw [List.map_map, ← List.zipIdx_map, ← means.bindings, List.map_map] at same
    exact same
  exact congrArg₂ (· ++ ·)
    (map_filter_of_map_eq placed (·.1.isInput) fun item =>
      (item.2, if item.1.isByRef then Use.read else .itself))
    (map_filter_of_map_eq placed (·.1.isByRef) fun item => (item.2, Use.written))

theorem pushArguments_eq (site : FunctionSite) :
    site.pushArguments = Direction.pushes site.directions site.hasThis := by
  unfold pushArguments Direction.pushes unpacked directions
  rw [List.zipIdx_map, List.map_map, List.map_map]
  rfl

theorem map_unpacked (site : FunctionSite) (short : site.arguments.length ≤ 65536) :
    site.unpacked.map (fun item => (item.1.binding.direction, item.2.toNat)) =
      site.directions.zipIdx := by
  unfold unpacked directions
  rw [List.zipIdx_map, List.map_map]
  refine List.map_congr_left fun item listed => ?_
  have place := List.snd_lt_of_mem_zipIdx listed
  rw [Nat.add_zero] at place
  change (item.1.1.binding.direction, (UInt16.ofNat item.2).toNat) =
    (item.1.1.binding.direction, item.2)
  rw [UInt16.toNat_ofNat_of_lt' (Nat.lt_of_lt_of_le place short)]

end FunctionSite

/-! ## The invoker -/

/-- Fragments without jumps behind two others. -/
theorem Fragment.concat_cons_cons {first second : Fragment} {rest : List Fragment}
    (still : ∀ instr ∈ rest.flatten, instr.target? = none) :
    concat (first :: second :: rest) = first ++ second.shift first.length ++ rest.flatten := by
  change first ++ (second ++ (concat rest).shift second.length).shift first.length = _
  rw [concat_eq_flatten still, shift_eq still]
  unfold shift
  rw [List.map_append, ← List.append_assoc]
  exact congrArg (first ++ second.map _ ++ ·) (shift_eq still first.length)

/-- A single jump over a few instructions can be stored. -/
theorem Code.storable_of_skip {before skipped after : Fragment} {op : JumpOp} {code : Code}
    (same : code.instrs =
      before ++ .jump op (before.length + 1 + skipped.length) :: (skipped ++ after))
    (still : ∀ instr ∈ before ++ (skipped ++ after), instr.target? = none) (more : after ≠ [])
    (short : (skipped.map Instruction.size).sum < 2 ^ 31) : code.Storable := by
  intro index instr here target leads
  rw [List.forall_mem_append] at still
  rw [same] at here
  rcases Nat.lt_trichotomy index before.length with lower | rfl | higher
  · rw [List.getElem?_append_left lower] at here
    cases (still.1 instr (List.mem_of_getElem? here)).symm.trans leads
  · rw [List.getElem?_append_right (Nat.le_refl _), Nat.sub_self, List.getElem?_cons_zero] at here
    cases here
    cases leads
    have positive := List.length_pos_of_ne_nil more
    have front : code.instrs = (before ++ [.jump op (before.length + 1 + skipped.length)]) ++
        (skipped ++ after) := by rw [same, List.append_assoc, List.singleton_append]
    have whole : code.instrs = (before ++ [.jump op (before.length + 1 + skipped.length)] ++ skipped)
        ++ after := by rw [front, ← List.append_assoc]
    refine ⟨?_, Int32.ofInt (skipped.map Instruction.size).sum, ?_⟩
    · rw [Code.size, whole]
      simp only [List.length_append, List.length_singleton]
      omega
    · have behind : firstByte code.instrs (before.length + 1) = ((before ++
          [Instruction.jump op (before.length + 1 + skipped.length)]).map Instruction.size).sum := by
        rw [firstByte, front, List.take_left' (by rw [List.length_append]; rfl)]
      have beyond : firstByte code.instrs (before.length + 1 + skipped.length) =
          firstByte code.instrs (before.length + 1) + (skipped.map Instruction.size).sum := by
        rw [behind, firstByte, whole,
          List.take_left' (by rw [List.length_append, List.length_append]; rfl), List.map_append,
          List.sum_append]
      rw [Int32.toInt_ofInt_of_le (by omega) (by omega), beyond, Int.natCast_add]
  · rw [List.getElem?_append_right (Nat.le_of_lt higher)] at here
    rcases Nat.exists_eq_succ_of_ne_zero (Nat.sub_ne_zero_of_lt higher) with ⟨place, same⟩
    rw [same, List.getElem?_cons_succ] at here
    cases (still.2 instr (List.mem_of_getElem? here)).symm.trans leads

namespace FunctionSite

variable {site : FunctionSite}

theorem still_pushArguments (site : FunctionSite) :
    ∀ instr ∈ site.pushArguments, instr.target? = none := by
  refine List.forall_mem_append.mpr ⟨?_, List.forall_mem_map.mpr fun item _ => ?_⟩
  · split
    · exact List.forall_mem_singleton.mpr rfl
    · exact List.forall_mem_nil _
  · dsimp only
    split <;> rfl

/-- The code of the invoker, whose only jump is that of the validation. -/
theorem storable_invoker {unpacked validated rest : Fragment} {code : Code}
    (same : code.instrs = unpacked ++ validated.shift unpacked.length ++ rest)
    (still : ∀ instr ∈ unpacked ++ rest, instr.target? = none) (more : rest ≠ [])
    (checks : validated = [] ∨ ∃ check text report, validated = site.pushArguments ++ .call check ::
      .jump .ifTrue (5 + site.pushArguments.length) :: givesUp text report) : code.Storable := by
  rw [List.forall_mem_append] at still
  rcases checks with rfl | ⟨check, text, report, rfl⟩
  · refine Code.storable_of_still (same ▸ ?_)
    exact List.forall_mem_append.mpr ⟨List.forall_mem_append.mpr ⟨still.1, List.forall_mem_nil _⟩,
      still.2⟩
  · have shifted : Fragment.shift (site.pushArguments ++ .call check ::
        .jump .ifTrue (5 + site.pushArguments.length) :: givesUp text report) unpacked.length =
          site.pushArguments ++ .call check ::
            .jump .ifTrue (5 + site.pushArguments.length + unpacked.length) ::
              givesUp text report := by
      unfold Fragment.shift
      rw [List.map_append]
      exact congrArg (· ++ _) (Fragment.shift_eq site.still_pushArguments unpacked.length)
    have target : 5 + site.pushArguments.length + unpacked.length =
        (unpacked ++ (site.pushArguments ++ [Instr.call check])).length + 1 +
          (givesUp text report).length := by
      simp only [List.length_append, givesUp, List.length_cons, List.length_nil]
      omega
    have size : ((givesUp text report).map Instruction.size).sum = 11 := rfl
    refine @Code.storable_of_skip (unpacked ++ (site.pushArguments ++ [Instr.call check]))
      (givesUp text report) rest .ifTrue code ?_ ?_ more (by omega)
    · rw [same, shifted, target]
      simp only [List.append_assoc, List.cons_append, List.nil_append]
    · have ends : ∀ instr ∈ givesUp text report, instr.target? = none := by
        simp only [givesUp, List.forall_mem_cons]
        exact ⟨rfl, rfl, rfl, List.forall_mem_nil _⟩
      simp only [List.forall_mem_append]
      exact ⟨⟨still.1, site.still_pushArguments, List.forall_mem_singleton.mpr rfl⟩, ends, still.2⟩

/-- What the validation makes of the code for it. -/
theorem accesses_validated {validated : Fragment} (checks : if site.function.hasValidation then
      ∃ check text report, validated = site.pushArguments ++ .call check ::
        .jump .ifTrue (5 + site.pushArguments.length) :: givesUp text report
    else validated = []) (count : Nat) : validated.accesses count =
      if site.function.hasValidation then Fragment.accesses count site.pushArguments else [] := by
  split at checks
  · next validates =>
    rcases checks with ⟨check, text, report, rfl⟩
    rw [if_pos validates, Fragment.accesses_append]
    exact List.append_nil _
  · next free =>
    rw [checks, if_neg free]
    rfl

/-- The parts of the invoker, put together. -/
theorem invokes_of_parts {tables : Tables} {unpacked validated result returned : Fragment}
    {call : Instr} {token : UInt32} (short : site.arguments.length ≤ 65536)
    (unpacks : unpacked.accesses site.arguments.length =
      (site.unpacked.filter (·.1.binding.isInput)).map stored)
    (checks : validated.accesses site.arguments.length =
      if site.function.hasValidation then
        Fragment.accesses site.arguments.length site.pushArguments else [])
    (calls : call = .call token ∨ call = .callVirtual token)
    (means : tables.member? token = some site.implementation)
    (bare : result.accesses site.arguments.length = [])
    (places : (returned.accesses site.arguments.length).map (·.2) =
      (site.unpacked.filter (·.1.binding.isByRef)).map (·.2.toNat))
    (kept : ∀ access ∈ returned.accesses site.arguments.length, access.1 ≠ .storeLocal) :
    Fragment.Invokes (unpacked ++ validated.shift unpacked.length ++
      [site.pushArguments ++ [call], result, returned, [.ret]].flatten) tables site.implementation
        site.directions site.hasThis site.function.hasValidation := by
  have numbers := site.map_unpacked short
  refine ⟨unpacked ++ validated.shift unpacked.length, result ++ (returned ++ [.ret]), call, token, ?_,
    calls, means, ?_, ?_, ?_⟩
  · simp [← pushArguments_eq]
  · rw [← pushArguments_eq, length_directions, Fragment.accesses_append, Fragment.accesses_shift,
      unpacks, checks]
    exact congrArg (· ++ _) (map_filter_of_map_eq numbers (·.1.isInput) fun item =>
      (SlotOp.storeLocal, item.2))
  · rw [length_directions, Fragment.accesses_append, Fragment.accesses_append, bare, List.nil_append,
      List.map_append, places]
    exact (List.append_nil _).trans (map_filter_of_map_eq numbers (·.1.isByRef) (·.2))
  · rw [length_directions, Fragment.accesses_append, Fragment.accesses_append, bare, List.nil_append]
    exact List.forall_mem_append.mpr ⟨kept, List.forall_mem_nil _⟩

/-- The invoker does with its local variables what the directions of the parameters ask for. -/
theorem leaves_invokerBody_invokes (valued : ∀ value ∈ site.values, value.type.isVoid = false) :
    site.invokerBody.Leaves fun tables body => site.Slotted tables → ∃ code,
      body.toCode = .ok code ∧ Fragment.Invokes code.instrs tables site.implementation
        site.directions site.hasThis site.function.hasValidation := by
  unfold invokerBody
  split
  · intro before after body impossible
    cases impossible
  · next fits =>
    have short : site.arguments.length < 65536 := by
      unfold invokerLocals at fits
      simp only [List.length_append, List.length_map] at fits
      omega
    have listed : ∀ {chosen : CallValue × UInt16 → Bool}, ∀ item ∈ site.unpacked.filter chosen,
        item.1 ∈ site.values ∧ item.2.toNat < site.arguments.length := fun item inside =>
      have member := (List.mem_filter.mp inside).1
      ⟨mem_values_of_mem_unpacked member, toNat_lt_of_mem_unpacked (Nat.le_of_lt short) member⟩
    refine .bind (leaves_unpacking_handles valued (fun item inside => (listed item inside).1)
      fun item inside => (listed item inside).2) fun unpacked => ?_
    refine .bind leaves_validate_eq fun validated => ?_
    refine .bind leaves_callImplementation_eq fun called => ?_
    refine .bind (leaves_passResult_handles short) fun result => ?_
    refine .bind (leaves_writing_handles fun item inside => (listed item inside).2) fun returned => ?_
    refine .pure ?_
    rintro tables ⟨wrote, places, kept⟩ ⟨passed, bare⟩ ⟨call, token, calls, means, rfl⟩ checks unpacks
      slotted
    rcases unpacks slotted with ⟨stores, unpacks⟩
    have still : ∀ instr ∈ [site.pushArguments ++ [call], result, returned, [.ret]].flatten,
        instr.target? = none := by
      have called : call.target? = none := by rcases calls with rfl | rfl <;> rfl
      refine List.forall_mem_flatten.mpr ?_
      simp only [List.forall_mem_cons]
      exact ⟨List.forall_mem_append.mpr ⟨site.still_pushArguments, List.forall_mem_singleton.mpr called⟩,
        passed, wrote, ⟨rfl, List.forall_mem_nil _⟩, List.forall_mem_nil _⟩
    have whole := @Fragment.concat_cons_cons unpacked validated _ still
    have storable : Code.Storable { instrs := Fragment.concat [unpacked, validated,
        site.pushArguments ++ [call], result, returned, [.ret]] } := by
      refine @storable_invoker site _ _ _ _ whole (List.forall_mem_append.mpr ⟨stores, still⟩)
        (by simp) ?_
      split at checks
      · exact .inr checks
      · exact .inl checks
    rcases Code.exists_toCode_toBody storable site.invokerLocals with ⟨read, found, same⟩
    refine ⟨read, found, ?_⟩
    rw [same, whole]
    exact invokes_of_parts (Nat.le_of_lt short) unpacks (accesses_validated checks _) calls means bare
      places kept

end FunctionSite

/-! ## Planned functions -/

/-- A condition on results that rests on something that has nothing to do with tables. -/
theorem Emit.Leaves.assuming {α : Type} {step : Emit α} {assumed : Prop}
    {condition : Tables → α → Prop} (leaves : assumed → step.Leaves condition) :
    step.Leaves fun tables value => assumed → condition tables value :=
  fun before after value run tables grows indexed holds =>
    leaves holds before after value run tables grows indexed

/-- The plan of a function adds a caller and an invoker that do what the directions of the parameters
ask for. -/
def ClassSite.PlansDirections (site : ClassSite) (function : FunctionBinding) (tables : Tables)
    (plan : TypePlan) : Prop :=
  ∃ call : FunctionSite, ∃ calling invoking code, call.site = site ∧ call.function = function ∧
    site.type.methods[function.method]? = some call.method ∧ call.caller calling ∈ plan.methods ∧
    call.invoker invoking ∈ plan.methods ∧
    calling.Treats tables call.shift
      (Direction.uses (function.parameters.map (·.direction)) call.shift) ∧
    invoking.toCode = .ok code ∧ Fragment.Invokes code.instrs tables call.implementation
      (function.parameters.map (·.direction)) call.hasThis function.hasValidation

namespace ClassSite

variable {site : ClassSite} {function : FunctionBinding}

theorem leaves_planValue_holds {handle : UInt32} {hasThis : Bool} {value : MemberBinding} :
    (site.planValue function handle hasThis value).Leaves fun tables planned =>
      ∀ frame : Frame, frame.tables = tables → frame.Holds planned.value.slots := by
  unfold planValue
  cases value.origin with
  | parameter index =>
    refine .bind (leaves_memberSlots_holds _ _ _) fun slots => .after fun fill => ?_
    exact .after fun argument => .pure fun tables => id
  | _ =>
    refine .bind (leaves_memberSlots_holds _ _ _) fun slots => .after fun fill => ?_
    dsimp only
    rw [pure_bind]
    exact .pure fun tables => id

theorem leaves_planFunction_directions (earlier : TypePlan) (numbered : function.Numbered)
    (valued : ∀ value ∈ function.values, value.valueType.isVoid = false) :
    (site.planFunction earlier function).Leaves fun tables plan =>
      tables.member? site.classPtr = some (.staticField site.owner Naming.nativeClassPtr .intPtr) →
        site.PlansDirections function tables plan := by
  unfold planFunction
  refine .bind (.lift fun looked _ => Weave.ofOption_eq_ok looked) fun method => ?_
  refine .bind (leaves_staticSlot _ _ _) fun handle => .bind (leaves_staticSlot _ _ _) fun size => ?_
  refine .after fun findHandle => .after fun findSize => ?_
  refine .bind (.forall₂ fun value _ => leaves_planValue.and leaves_planValue_holds) fun values => ?_
  let call : FunctionSite :=
    ⟨site, function, method, handle.value, size.value, values.map (·.value)⟩
  refine .bind (.assuming fun assumed : (∀ value ∈ call.values, value.type.isVoid = false) ∧
    ∀ item ∈ call.arguments, call.shift ≤ item.2.toNat =>
      FunctionSite.leaves_callerBody_treats assumed.1 assumed.2) fun calling => ?_
  refine .bind (.assuming (@FunctionSite.leaves_invokerBody_invokes call)) fun invoking =>
    .pure ?_
  intro tables invokes treats planned sized handled found classPtr
  have plans : List.Forall₂ (fun binding value => CallValue.Plans value tables site.owner
      function.name call.shift binding) function.values call.values :=
    List.forall₂_map_right_iff.mpr (planned.imp fun _ _ both => both.1)
  have means := call.means_of_plans numbered plans classPtr handled sized
  have slotted : call.Slotted tables := by
    refine List.forall_mem_map.mpr fun value listed => ?_
    rcases (exists_of_mem_forall₂ planned).2 value listed with ⟨_, _, _, holds⟩
    exact holds
  have whole : ∀ value ∈ call.values, value.type.isVoid = false := by
    intro value listed
    rcases (exists_of_mem_forall₂ plans).2 value listed with ⟨binding, inside, plan⟩
    rw [CallValue.type, plan.binding]
    exact valued binding inside
  have late : ∀ item ∈ call.arguments, call.shift ≤ item.2.toNat := by
    intro item listed
    rcases means.parameter listed with ⟨index, place, _⟩
    exact place ▸ Nat.le_add_right _ _
  have directions : call.directions = function.parameters.map (·.direction) := by
    rw [← means.bindings, List.map_map]
    rfl
  rcases invokes whole slotted with ⟨code, read, invokes⟩
  have treats := treats ⟨whole, late⟩ slotted
  rw [call.uses_eq means, directions] at treats
  rw [directions] at invokes
  refine ⟨call, calling, invoking, code, rfl, rfl, found, ?_, ?_, treats, read, invokes⟩
  · exact List.mem_append_left _ (List.mem_append_right _ (List.mem_singleton_self _))
  · exact List.mem_append_right _ (List.mem_singleton_self _)

end ClassSite

/-! ## Initializers -/

theorem Question.PushedBy.argument? {question : Question} {tables : Tables} {owner : Signature}
    {known : List Inquiry} {pushes : Fragment}
    (pushed : question.PushedBy tables owner known pushes) :
    ∀ instr ∈ pushes, instr.argument? = none := by
  cases pushed <;> simp only [List.forall_mem_cons, List.not_mem_nil, false_implies, implies_true,
    and_true] <;> first | exact rfl | exact ⟨rfl, rfl⟩

/-- Code that makes inquiries works on no arguments. -/
theorem Fragment.Inquires.argument? {config : Config} {tables : Tables} {owner : Signature}
    {known asked : List Inquiry} {fragment : Fragment}
    (inquires : fragment.Inquires config tables owner known asked) :
    ∀ instr ∈ fragment, instr.argument? = none := by
  induction inquires with
  | nil => exact List.forall_mem_nil _
  | cons first _ ih =>
    refine List.forall_mem_append.mpr ⟨?_, ih⟩
    cases first with
    | intro pushes pushed asks keeps =>
      refine List.forall_mem_append.mpr ⟨pushed.argument?, ?_⟩
      exact List.forall_mem_cons.mpr ⟨rfl, List.forall_mem_singleton.mpr rfl⟩

/-- Code that makes inquiries may be put in front of a body. -/
theorem Body.Treats.of_prepends {body : Body} {later? : Option Body} {config : Config}
    {tables : Tables} {owner : Signature} {first : Nat} {listed : List (Nat × Use)}
    {known asked : List Inquiry} {prelude : Fragment} (treats : body.Treats tables first listed)
    (inquires : prelude.Inquires config tables owner known asked)
    (prepends : TypePlan.Prepends prelude (some body) later?) :
    ∃ later, later? = some later ∧ later.Treats tables first listed := by
  rcases treats with ⟨buffered, code, read, treats⟩
  have still := (treats ⟨tables, 0, 1, false⟩ rfl Nat.one_pos).still
  have ahead := inquires.spares.still
  rcases prepends.exists_instrs read still ahead with ⟨later, now, same, locals, found, kept⟩
  refine ⟨later, same, locals ▸ buffered, now, found, fun frame tabled buffered => ?_⟩
  rcases kept with kept | kept
  · exact kept ▸ treats frame tabled buffered
  · rw [kept]
    refine (Frame.contributes_of_argument? ahead fun instr member index works => ?_).append
      (treats frame tabled buffered)
    cases (inquires.argument? instr member).symm.trans works

/-! ## Woven classes -/

/-- What has become of the method, and the invoker of the function, do what the directions ask for. -/
def TypeDef.Directs (now : TypeDef) (tables : Tables) (function : FunctionBinding) (method : Method)
    (directions : List Direction) : Prop :=
  (∃ caller ∈ now.methods, ∃ body code, caller.name = method.name ∧
    caller.signature = method.signature ∧ caller.body = some body ∧ body.toCode = .ok code ∧
    (∀ instr ∈ code.instrs, instr.target? = none) ∧
    (caller.frame tables body).uses (if !method.isStatic then 1 else 0) code.instrs =
      Direction.uses directions (if !method.isStatic then 1 else 0)) ∧
  ∃ invoker ∈ now.methods, ∃ body code, invoker.name = Naming.invoker function.name ∧
    invoker.signature = ⟨!method.isStatic, [.intPtr, .intPtr], .void⟩ ∧ invoker.body = some body ∧
    body.toCode = .ok code ∧
    Fragment.Invokes code.instrs tables (function.implementation now.signature method) directions
      (!method.isStatic) function.hasValidation

namespace Scope

variable {scope : Scope}

/-- There are values of the types of all parameters and results. -/
theorem isVoid_of_mem_extract {binding : TypeBinding} (member : binding ∈ scope.extract.bindings) :
    ∀ value ∈ binding.values, value.valueType.isVoid = false := by
  rcases scope.exists_declares_of_mem_extract binding member with ⟨_, type, present, rfl, _⟩
  intro value listed
  rcases (outlined_valued.answering.reflects_of_mem_extract Memory.Fitting.empty member
    present).values value listed with ⟨_, valued⟩
  exact valued

/-- What an exposed function of a woven class does with its arguments, and the invoker with its
variables, is what the extracted directions ask for. -/
theorem directs_of_weave {result : WovenModule} (woven : scope.weave = .ok (.woven result))
    (indexed : result.module.tables.Indexed) (strings : result.module.tables.strings.length ≤ 2 ^ 32)
    {binding : ClassBinding}
    (bound : scope.extract.bindings.findClass? binding.name = some binding) {type : TypeDef}
    (present : scope.module.types[binding.type]? = some type) {function : FunctionBinding}
    (listed : function ∈ binding.functions) {method : Method}
    (here : type.methods[function.method]? = some method) (numbered : function.Numbered) :
    ∃ now, result.module.types[binding.type]? = some now ∧
      now.Directs result.module.tables function method (function.parameters.map (·.direction)) := by
  rcases exists_planning_of_weave woven indexed bound present with
    ⟨before, after, now, planning, there, applied, within, _, _, _⟩
  have valued : ∀ value ∈ function.values, value.valueType.isVoid = false := fun value inside =>
    isVoid_of_mem_extract (Bindings.ofClass_mem_of_findClass? bound).1 value
      (List.mem_append_right _ (List.mem_flatMap.mpr ⟨function, listed, inside⟩))
  have firstGrows : planning.start.Grows result.module.tables :=
    (Grows.grows planning.typed).trans ((Grows.grows planning.accessors).trans
      ((Grows.grows planning.constructors).trans ((Grows.grows planning.last).trans within)))
  have classPtr := ClassSite.leaves_staticSlot _ _ _ _ _ _ planning.slot _ firstGrows indexed
  have each := Leaves.forall₂ (fun (other : FunctionBinding) _ => .assuming
      fun assumed : other.Numbered ∧ ∀ value ∈ other.values, value.valueType.isVoid = false =>
        ClassSite.leaves_planFunction_directions _ assumed.1 assumed.2) _ _ _ planning.last _ within
          indexed
  rcases (exists_of_mem_forall₂ each).1 function listed with ⟨plan, planned, directs⟩
  rcases directs ⟨numbered, valued⟩ classPtr with
    ⟨call, calling, invoking, code, placed, rfl, found, calls, invokes, treats, read, hands⟩
  cases here.symm.trans found
  have owner : now.signature = type.signature :=
    congrArg Signature.named (TypePlan.sameOutside_of_apply applied).qualifiedName
  have own : call.site.owner = now.signature := by rw [placed, owner]; rfl
  have implementation : call.implementation =
      call.function.implementation now.signature call.method := by
    rw [← own]
    rfl
  rw [implementation] at hands
  have inquires := (planning.inquires within indexed strings).prelude
  refine ⟨now, there, ?_, call.invoker invoking, TypePlan.mem_of_apply_of_added applied
    planning.removed_inside (planning.mem_methods planned invokes)
    (call.isTypeInitializer_invoker invoking), invoking, code, rfl, call.signature_invoker invoking,
    rfl, read, hands⟩
  have done : ∀ {caller : Method} {body : Body}, caller ∈ now.methods →
      caller.name = call.method.name →
      caller.signature = call.method.signature → caller.body = some body →
      body.Treats result.module.tables call.shift
        (Direction.uses (call.function.parameters.map (·.direction)) call.shift) →
      ∃ caller ∈ now.methods, ∃ body code, caller.name = call.method.name ∧
        caller.signature = call.method.signature ∧ caller.body = some body ∧ body.toCode = .ok code ∧
        (∀ instr ∈ code.instrs, instr.target? = none) ∧
        (caller.frame result.module.tables body).uses call.shift code.instrs =
          Direction.uses (call.function.parameters.map (·.direction)) call.shift := by
    rintro caller body stays name signature same ⟨buffered, code, read, treats⟩
    have contributes := treats (caller.frame result.module.tables body) rfl buffered
    exact ⟨caller, stays, body, code, name, signature, same, read, contributes.still,
      contributes.uses_eq⟩
  rcases TypePlan.exists_of_apply_of_added applied planning.removed_inside
    (planning.mem_methods planned calls) with ⟨later?, stays, same | ⟨_, prepends⟩⟩
  · exact done stays rfl (call.signature_caller calling) same treats
  · rcases treats.of_prepends inquires prepends with ⟨later, same, treats⟩
    exact done stays rfl (call.signature_caller calling) same treats

/-- What is extracted agrees with the declarations of all parameters exactly if their annotations
do. -/
theorem BindsFunction.map_direction_eq_iff {owner : TypeDef} {method : Method} {index : Nat}
    {function : FunctionBinding} (binds : scope.BindsFunction owner (method, index) function)
    (out : ∀ parameter ∈ method.parameters, parameter.isOut = true → parameter.type.isByRef = true) :
    function.parameters.map (·.direction) = method.parameters.map (·.direction) ↔
      ∀ parameter ∈ method.parameters, scope.config.Respects parameter := by
  have each : ∀ {items : List (Parameter × Nat)} {values : List MemberBinding},
      List.Forall₂ (scope.BindsParameter owner method) items values →
      (∀ item ∈ items, item.1.isOut = true → item.1.type.isByRef = true) →
        (values.map (·.direction) = items.map (·.1.direction) ↔
          ∀ item ∈ items, scope.config.Respects item.1) := by
    intro items values all out
    induction all with
    | nil => simp
    | cons bound _ ih =>
      rw [List.forall_mem_cons] at out
      rw [List.map_cons, List.map_cons, List.cons.injEq, bound.direction_eq_iff out.1, ih out.2,
        List.forall_mem_cons]
  have numbered : ∀ {holds : Parameter → Prop}, (∀ parameter ∈ method.parameters, holds parameter) ↔
      ∀ item ∈ method.parameters.zipIdx, holds item.1 := by
    intro holds
    conv_lhs => rw [← List.zipIdx_map_fst 0 method.parameters]
    exact List.forall_mem_map
  have declared : method.parameters.map (·.direction) =
      method.parameters.zipIdx.map (·.1.direction) := by
    conv_lhs => rw [← List.zipIdx_map_fst 0 method.parameters]
    exact List.map_map
  rw [declared, numbered]
  exact each binds.parameters (numbered.mp out)

/-- The directions that are extracted for an exposed function are those of its declaration exactly if
no annotation of a parameter gives a flag for another direction.  The extracted ones decide what a
woven class does with the arguments: it takes those for addresses that are passed by reference, and
no others. -/
theorem directions_eq_iff (scope : Scope) (binding : ClassBinding)
    (member : .ofClass binding ∈ scope.extract.bindings) (type : TypeDef)
    (present : scope.module.types[binding.type]? = some type) (function : FunctionBinding)
    (listed : function ∈ binding.functions) (method : Method)
    (here : type.methods[function.method]? = some method)
    (out : ∀ parameter ∈ method.parameters, parameter.isOut = true → parameter.type.isByRef = true) :
    (function.parameters.map (·.direction) = method.parameters.map (·.direction) ↔
      ∀ parameter ∈ method.parameters, scope.config.Respects parameter) ∧
    ∀ result, scope.weave = .ok (.woven result) → result.module.tables.Indexed →
      result.module.tables.strings.length ≤ 2 ^ 32 →
      scope.extract.bindings.findClass? binding.name = some binding →
      ∃ now, result.module.types[binding.type]? = some now ∧
        now.Directs result.module.tables function method
          (function.parameters.map (·.direction)) := by
  have complete := complete_of_mem_extract member present
  rcases (exists_of_mem_forall₂ complete.2.2.2).2 function listed with
    ⟨⟨original, index⟩, inside, binds⟩
  have stands := List.mk_mem_zipIdx_iff_getElem?.mp (List.mem_filter.mp inside).1
  have same : function.method = index := binds.method
  subst same
  cases here.symm.trans stands
  exact ⟨binds.map_direction_eq_iff out, fun result woven indexed strings bound =>
    directs_of_weave woven indexed strings bound present listed here binds.numbered⟩

/-- What the method is handed is read before the native call, and what comes back is written
afterwards. -/
theorem directions_eq_iff_relay :
    .ofClass Relay.binding ∈ Relay.scope.extract.bindings ∧
      Relay.scope.module.types[Relay.binding.type]? = some Relay.type ∧
      Relay.function ∈ Relay.binding.functions ∧
      Relay.type.methods[Relay.function.method]? = some Relay.put ∧
      (∀ parameter ∈ Relay.put.parameters, parameter.isOut = true → parameter.type.isByRef = true) ∧
      (∀ parameter ∈ Relay.put.parameters, Relay.scope.config.Respects parameter) ∧
      ∃ result, Relay.scope.weave = .ok (.woven result) ∧ ∃ now,
        result.module.types[Relay.binding.type]? = some now ∧
        ∃ caller ∈ now.methods, ∃ body code, caller.name = "Put" ∧ caller.body = some body ∧
          body.toCode = .ok code ∧
          (caller.frame result.module.tables body).uses 0 code.instrs =
            [(0, .read), (1, .read), (0, .written), (1, .written)] := by
  rcases Relay.soleClass.exists_woven with ⟨result, woven, _, tables⟩
  have member : .ofClass Relay.binding ∈ Relay.scope.extract.bindings := by
    rw [Relay.extract_scope]
    exact List.mem_singleton_self _
  have listed : Relay.function ∈ Relay.binding.functions := List.mem_singleton_self _
  have out : ∀ parameter ∈ Relay.put.parameters,
      parameter.isOut = true → parameter.type.isByRef = true :=
    fun parameter inside => (Relay.directed_put parameter inside).1
  have main := directions_eq_iff Relay.scope Relay.binding member Relay.type rfl Relay.function listed
    Relay.put rfl out
  have indexed : result.module.tables.Indexed := tables ▸ Relay.addressable_tables.members
  have strings : result.module.tables.strings.length ≤ 2 ^ 32 := by
    rw [tables]
    decide
  rcases main.2 result woven indexed strings Relay.findClass?_binding with
    ⟨now, there, ⟨caller, inside, body, code, name, _, same, read, _, uses⟩, _⟩
  have extracted : Relay.function.parameters.map (·.direction) =
      Relay.put.parameters.map (·.direction) := by decide
  exact ⟨member, rfl, listed, rfl, out, main.1.mp extracted, result, woven, now, there, caller, inside,
    body, code, name, same, read, uses⟩

end Scope

end NativeWeave
