import NativeWeave.Proofs.Marshalling.References
import NativeWeave.Proofs.Verification.Delivery

namespace NativeWeave

/-!
# Generated code keeps the stack in balance

Code that reads a value leaves it on top of the stack, and code that writes or releases one leaves
the stack as it was.  Neither reaches below the depth at which it starts.  All that the code needs is
that its frame has the arguments, local variables and fields that it is told to use.
-/

namespace Frame

/-- The frame has the place where the value is found. -/
def Has (frame : Frame) : ValueSource → Prop
  | .argument index => index.toNat < frame.arguments
  | .localVariable index => index.toNat < frame.locals
  | .thisField token => 0 < frame.arguments ∧ frame.OperandFits (.loadField token)
  | .static token => frame.OperandFits (.loadStatic token)
  | .behind index type => index.toNat < frame.arguments ∧ type.toNat < frame.tables.types.length

/-- The frame has what the address is made from. -/
structure Reaches (frame : Frame) (address : NativeAddress) : Prop where
  base : frame.Has address.base
  offset : ∀ slot ∈ address.offset, frame.OperandFits (.loadStatic slot)

/-- The slots are static fields. -/
structure Holds (frame : Frame) (slots : MemberSlots) : Prop where
  offset : frame.OperandFits (.loadStatic slots.offset)
  handle : ∀ slot ∈ slots.handle, frame.OperandFits (.loadStatic slot)
  elementSize : ∀ slot ∈ slots.elementSize, frame.OperandFits (.loadStatic slot)
  width : ∀ slot ∈ slots.width, frame.OperandFits (.loadStatic slot)

variable {frame : Frame} {depth : Nat}

/-! ## Places and values -/

theorem moves_loadArg {index : UInt16} (inside : index.toNat < frame.arguments)
    (room : depth < 1024) : frame.Moves [.loadArg index] depth (depth + 1) :=
  moves_of_effect rfl rfl inside rfl (by omega)

theorem moves_loadStatic {token : UInt32} (fits : frame.OperandFits (.loadStatic token))
    (room : depth < 1024) : frame.Moves [.loadStatic token] depth (depth + 1) :=
  moves_of_effect rfl rfl fits rfl (by omega)

theorem moves_push {source : ValueSource} (has : frame.Has source) (room : depth < 1024) :
    frame.Moves source.push depth (depth + 1) := by
  cases source with
  | argument index => exact moves_loadArg has room
  | localVariable index => exact moves_of_effect rfl rfl has rfl (by omega)
  | thisField token =>
    have receiver : frame.Moves [.loadArg 0] depth (depth + 1) := moves_loadArg has.1 room
    exact receiver.append (moves_of_effect rfl rfl has.2 rfl (by omega))
  | static token => exact moves_loadStatic has room
  | behind index type =>
    exact (moves_loadArg has.1 room).append (moves_of_effect rfl rfl has.2 rfl (by omega))

theorem moves_pushAddress {source : ValueSource} (has : frame.Has source) (room : depth < 1024) :
    frame.Moves source.pushAddress depth (depth + 1) := by
  cases source with
  | argument index => exact moves_of_effect rfl rfl has rfl (by omega)
  | localVariable index => exact moves_of_effect rfl rfl has rfl (by omega)
  | thisField token =>
    have receiver : frame.Moves [.loadArg 0] depth (depth + 1) := moves_loadArg has.1 room
    exact receiver.append (moves_of_effect rfl rfl has.2 rfl (by omega))
  | static token => exact moves_loadStatic has room
  | behind index type => exact moves_loadArg has.1 room

theorem moves_address {address : NativeAddress} (reaches : frame.Reaches address)
    (room : depth + 1 < 1024) : frame.Moves address.push depth (depth + 1) := by
  have base := moves_push reaches.base (Nat.lt_of_succ_lt room)
  unfold NativeAddress.push
  split
  · exact base
  · next slot offset =>
    have shifted := moves_loadStatic (reaches.offset slot offset) room
    have converted : frame.Moves [.plain .toNative] (depth + 1 + 1) (depth + 1 + 1) :=
      moves_of_effect rfl rfl trivial rfl (by omega)
    have added : frame.Moves [.plain .add] (depth + 1 + 1) (depth + 1) :=
      moves_of_effect rfl rfl trivial rfl (by omega)
    exact base.append (shifted.append (converted.append added))

/-! ## Wrappers -/

/-- Code for a wrapper that is made at the first reading and kept in a field. -/
abbrev lazily (field : UInt32) (create : Fragment) : Fragment :=
  Fragment.concat [
    [.loadArg 0, .loadField field, .plain .null, .plain .equal],
    Fragment.skip .ifFalse (Fragment.concat [[.loadArg 0], create, [.storeField field]]),
    [.loadArg 0, .loadField field]]

theorem runs_lazily {field : UInt32} {create : Fragment} (received : 0 < frame.arguments)
    (fits : frame.OperandFits (.loadField field))
    (made : frame.Moves create (depth + 1) (depth + 2)) (room : depth ≤ 1000) :
    frame.Runs (lazily field create) depth (depth + 1) := by
  have receiver : frame.Moves [.loadArg 0] depth (depth + 1) := moves_loadArg received (by omega)
  have read : frame.Moves [.loadArg 0, .loadField field] depth (depth + 1) :=
    receiver.append (moves_of_effect rfl rfl fits rfl (by omega))
  have pushed : frame.Moves [.plain .null] (depth + 1) (depth + 2) :=
    moves_of_effect rfl rfl trivial rfl (by omega)
  have compared : frame.Moves [.plain .equal] (depth + 2) (depth + 1) :=
    moves_of_effect rfl rfl trivial rfl (by omega)
  have written : frame.Moves [.storeField field] (depth + 2) depth :=
    moves_of_effect rfl rfl fits rfl (by omega)
  have filled := receiver.runs.concat_cons
    (made.runs.concat_cons (written.runs.concat_cons (runs_concat_nil frame depth)))
  have shallow : depth ≤ maxDepth := by
    unfold maxDepth
    omega
  have conditional : JumpOp.ifFalse ≠ .always := by decide
  exact (read.append (pushed.append compared)).runs.concat_cons
    ((filled.skip conditional shallow).concat_cons
      (read.runs.concat_cons (runs_concat_nil frame _)))

end Frame

theorem ValueSource.length_push_le (source : ValueSource) : source.push.length ≤ 2 := by
  cases source <;> exact Nat.le_of_ble_eq_true rfl

theorem NativeAddress.length_push_le (address : NativeAddress) : address.push.length ≤ 5 := by
  have base := address.base.length_push_le
  unfold push
  split
  · omega
  · rw [List.length_append]
    exact Nat.add_le_add_right base 3

open Emit

/-! ## Calls -/

/-- How many values a result is: none if there is no result. -/
def Signature.resultCount (result : Signature) : Nat :=
  if result.isVoid then 0 else 1

theorem Signature.resultCount_of_isVoid {result : Signature} (valued : result.isVoid = false) :
    result.resultCount = 1 := by
  rw [resultCount, valued]
  rfl

namespace Frame

variable {frame : Frame} {before after : Nat}

/-- A call takes the receiver and the arguments and leaves the result. -/
theorem moves_call {token : UInt32} {member : MemberRef} {signature : MethodSignature}
    (means : frame.tables.member? token = some member) (kind : member.kind = .method signature)
    (counts : signature.parameters.length + (if signature.hasThis then 1 else 0) ≤ before ∧
      after + (signature.parameters.length + if signature.hasThis then 1 else 0) =
        before + signature.result.resultCount ∧ after ≤ 1024) :
    frame.Moves [.call token] before after := by
  refine moves_of_effect rfl rfl ⟨member, means, signature, kind⟩ ?_ counts
  have found : (frame.tables.member? token).bind (·.methodSignature?) = some signature := by
    rw [means, Option.bind_some, MemberRef.methodSignature?, kind]
  change memberEffect .call ((frame.tables.member? token).bind (·.methodSignature?)) = _
  rw [found]
  rfl

theorem moves_newObject {token : UInt32} {owner : Signature} {parameters : List Signature}
    (means : frame.tables.member? token =
      some (.instanceMethod owner Method.constructorName parameters .void))
    (counts : parameters.length ≤ before ∧ after + parameters.length = before + 1 ∧
      after ≤ 1024) : frame.Moves [.newObject token] before after := by
  refine moves_of_effect rfl rfl ⟨_, means, rfl, _, rfl, rfl⟩ ?_ counts
  change memberEffect .newObject ((frame.tables.member? token).bind (·.methodSignature?)) = _
  rw [means]
  rfl

end Frame

namespace Emit

/-- In every frame with the tables the code takes some values from the stack and leaves others. -/
def Exchanging (takes leaves : Nat) (tables : Tables) (code : Fragment) : Prop :=
  ∀ frame : Frame, frame.tables = tables → ∀ before after, takes ≤ before →
    after + takes = before + leaves → after ≤ 1024 → frame.Moves code before after

theorem leaves_call {reference : MemberRef} {signature : MethodSignature} {takes leaves : Nat}
    (kind : reference.kind = .method signature)
    (count : signature.parameters.length + (if signature.hasThis then 1 else 0) = takes)
    (result : signature.result.resultCount = leaves) :
    (call reference).Leaves (Exchanging takes leaves) := by
  refine .bind (leaves_member reference) fun token => .pure fun tables means frame same => ?_
  subst same count result
  exact fun before after enough balance room =>
    Frame.moves_call means kind ⟨enough, balance, room⟩

theorem leaves_callStatic {owner : Signature} {name : String} {parameters : List Signature}
    {result : Signature} {takes leaves : Nat} (count : parameters.length = takes)
    (value : result.resultCount = leaves) :
    (callStatic owner name parameters result).Leaves (Exchanging takes leaves) :=
  leaves_call rfl count value

theorem leaves_newObject {owner : Signature} {parameters : List Signature} {takes : Nat}
    (count : parameters.length = takes) :
    (newObject owner parameters).Leaves (Exchanging takes 1) := by
  refine .bind (leaves_member _) fun token => .pure fun tables means frame same => ?_
  subst same count
  exact fun before after enough balance room =>
    Frame.moves_newObject means ⟨enough, balance, room⟩

/-- A step that fails leaves nothing. -/
theorem leaves_inconsistent {α : Type} {condition : Tables → α → Prop} (reason : String) :
    (inconsistent reason : Emit α).Leaves condition := by
  intro before after value run
  cases run

theorem yieldsSingle_newObject {owner : Signature} {parameters : List Signature} :
    (newObject owner parameters).Yields fun code => code.length = 1 :=
  .after fun _ => .pure rfl

theorem leaves_loadString (text : String) : (loadString text).Leaves (Exchanging 0 1) := by
  refine .bind (leaves_string text) fun index => .pure fun tables inside frame same => ?_
  subst same
  exact fun before after enough balance room =>
    Frame.moves_of_effect rfl rfl inside rfl ⟨enough, balance, room⟩

end Emit

theorem MemberSlots.leaves_require {slot : Option UInt32} {what : String} {category : Category} :
    (require slot what category).Leaves fun _ token => slot = some token := by
  cases slot with
  | some token => exact .pure fun _ => rfl
  | none => exact Emit.leaves_inconsistent _

/-! ## Values -/

namespace Category

variable {config : Config} {category : Category} {type : Signature} {slots : MemberSlots}
  {address : NativeAddress} {value : ValueSource}

/-- The code pushes the value at an address. -/
def Reading (slots : MemberSlots) (address : NativeAddress) (tables : Tables) (code : Fragment) :
    Prop :=
  ∀ frame : Frame, frame.tables = tables → frame.Holds slots → frame.Reaches address →
    ∀ depth ≤ 1000, frame.Moves code depth (depth + 1)

/-- Code for an address and a call that takes the address and gives a value. -/
theorem reading_of_call {tables : Tables} {call : Fragment} (exchanges : Exchanging 1 1 tables call) :
    Reading slots address tables (address.push ++ call) :=
  fun frame same _ reaches depth room =>
    (Frame.moves_address reaches (by omega)).append
      (exchanges frame same _ _ (by omega) rfl (by omega))

/-- Code for a handle, an address and a call that takes both and gives a value. -/
theorem reading_of_handle {tables : Tables} {handle : UInt32} {call : Fragment}
    (exchanges : Exchanging 2 1 tables call) (found : slots.handle = some handle) :
    Reading slots address tables (.loadStatic handle :: address.push ++ call) :=
  fun frame same holds reaches depth room =>
    have pushed : frame.Moves [.loadStatic handle] depth (depth + 1) :=
      Frame.moves_loadStatic (holds.handle handle found) (by omega)
    (pushed.append (Frame.moves_address reaches (by omega))).append
      (exchanges frame same _ _ (by omega) rfl (by omega))

theorem leaves_fromNative_array {inner : Category} {element : Signature} {dim : UInt32}
    (type : Signature) : ((Category.array inner element dim).fromNative config type slots
      address).Leaves (Reading slots address) := by
  refine .bind MemberSlots.leaves_require fun handle => ?_
  refine .bind MemberSlots.leaves_require fun size => ?_
  have four : [Signature.intPtr, .intPtr, .i32, .i32].length = 4 := rfl
  refine .bind (leaves_newObject four) fun create => .pure fun tables exchanges sized found => ?_
  intro frame same holds reaches depth room
  have pushed : frame.Moves [.loadStatic handle] depth (depth + 1) :=
    Frame.moves_loadStatic (holds.handle handle found) (by omega)
  have placed := pushed.append (Frame.moves_address reaches (by omega))
  have counted : frame.Moves [.constI32 dim.toInt32] (depth + 1 + 1) (depth + 1 + 1 + 1) :=
    Frame.moves_of_effect rfl rfl trivial rfl (by omega)
  have measured : frame.Moves [.loadStatic size] (depth + 3) (depth + 4) :=
    Frame.moves_loadStatic (holds.elementSize size sized) (by omega)
  exact (placed.append (counted.append measured)).append
    (exchanges frame same _ _ (by simp) (by simp) (by omega))

/-- Reading a value leaves it on the stack. -/
theorem leaves_fromNative (valued : type.isVoid = false) :
    (category.fromNative config type slots address).Leaves (Reading slots address) := by
  have result := Signature.resultCount_of_isVoid valued
  unfold fromNative
  split
  · exact .pure fun tables frame same holds reaches depth room =>
      (Frame.moves_address reaches (by omega)).append
        (Frame.moves_of_effect rfl rfl trivial rfl (by omega))
  · exact .pure fun tables frame same holds reaches depth room =>
      (Frame.moves_address reaches (by omega)).append
        (Frame.moves_of_effect rfl rfl trivial rfl (by omega))
  · refine .bind MemberSlots.leaves_require fun width => ?_
    have two : [Signature.intPtr, .i32].length = 2 := rfl
    refine .bind (leaves_callStatic two rfl) fun call => .pure fun tables exchanges found => ?_
    intro frame same holds reaches depth room
    have pushed : frame.Moves [.loadStatic width] (depth + 1) (depth + 2) :=
      Frame.moves_loadStatic (holds.width width found) (by omega)
    exact (Frame.moves_address reaches (by omega)).append (pushed.append
      (exchanges frame same _ _ (by omega) rfl (by omega)))
  · exact .bind MemberSlots.leaves_require fun handle =>
      .bind (leaves_callStatic rfl rfl) fun call => .pure fun tables => reading_of_handle
  · exact .bind (leaves_callStatic rfl rfl) fun call => .pure fun tables => reading_of_call
  · refine .bind (leaves_type type) fun token => .pure fun tables inside => ?_
    intro frame same holds reaches depth room
    subst same
    exact (Frame.moves_address reaches (by omega)).append
      (Frame.moves_of_effect rfl rfl inside rfl (by omega))
  · exact .bind (leaves_callStatic rfl result) fun call => .pure fun tables => reading_of_call
  · exact .bind (leaves_newObject rfl) fun create => .pure fun tables => reading_of_call
  · refine .bind (leaves_callStatic rfl rfl) fun call => ?_
    refine .bind (leaves_type _) fun token => .pure fun tables inside exchanges => ?_
    intro frame same holds reaches depth room
    have read := reading_of_call exchanges frame same holds reaches depth room
    subst same
    exact read.append (Frame.moves_of_effect rfl rfl inside rfl (by omega))
  · refine .bind (leaves_callStatic rfl rfl) fun call => ?_
    refine .bind (leaves_type _) fun token => .pure fun tables inside exchanges => ?_
    intro frame same holds reaches depth room
    have read := reading_of_call exchanges frame same holds reaches depth room
    subst same
    exact read.append (Frame.moves_of_effect rfl rfl inside rfl (by omega))
  · exact .bind (leaves_callStatic rfl result) fun call => .pure fun tables => reading_of_call
  · exact .bind (leaves_callStatic rfl result) fun call => .pure fun tables => reading_of_call
  · exact leaves_fromNative_array type
  · exact .bind MemberSlots.leaves_require fun handle =>
      .bind (leaves_callStatic rfl result) fun call => .pure fun tables => reading_of_handle

/-- The code writes a value to an address. -/
def Writing (slots : MemberSlots) (address : NativeAddress) (value : ValueSource) (tables : Tables)
    (code : Fragment) : Prop :=
  ∀ frame : Frame, frame.tables = tables → frame.Holds slots → frame.Reaches address →
    frame.Has value → ∀ depth ≤ 1000, frame.Moves code depth depth

/-- Code for an address, a value and a call that takes both. -/
theorem writing_of_call {tables : Tables} {call : Fragment} (exchanges : Exchanging 2 0 tables call) :
    Writing slots address value tables (address.push ++ value.push ++ call) :=
  fun frame same _ reaches has depth room =>
    have placed : frame.Moves address.push depth (depth + 1) :=
      Frame.moves_address reaches (by omega)
    (placed.append (Frame.moves_push has (by omega))).append
      (exchanges frame same _ _ (by omega) rfl (by omega))

/-- Code for a handle, an address, a value and a call that takes all of them. -/
theorem writing_of_handle {tables : Tables} {handle : UInt32} {call : Fragment}
    (exchanges : Exchanging 3 0 tables call) (found : slots.handle = some handle) :
    Writing slots address value tables
      (.loadStatic handle :: address.push ++ value.push ++ call) :=
  fun frame same holds reaches has depth room =>
    have pushed : frame.Moves [.loadStatic handle] depth (depth + 1) :=
      Frame.moves_loadStatic (holds.handle handle found) (by omega)
    have placed := pushed.append (Frame.moves_address reaches (by omega))
    (placed.append (Frame.moves_push has (by omega))).append
      (exchanges frame same _ _ (by omega) rfl (by omega))

/-- Code for an address, a value and an instruction that writes the value to the address. -/
theorem writing_of_store {tables : Tables} {instr : Instr} (goesOn : instr.isTerminator = false)
    (leadsNowhere : instr.target? = none)
    (fits : ∀ frame : Frame, frame.tables = tables → frame.OperandFits instr)
    (effect : ∀ frame : Frame, frame.effect instr = ⟨2, 0⟩) :
    Writing slots address value tables (address.push ++ value.push ++ [instr]) :=
  fun frame same _ reaches has depth room =>
    have placed : frame.Moves address.push depth (depth + 1) :=
      Frame.moves_address reaches (by omega)
    (placed.append (Frame.moves_push has (by omega))).append
      (Frame.moves_of_effect goesOn leadsNowhere (fits frame same) (effect frame) (by omega))

/-- Writing a value leaves the stack as it was. -/
theorem leaves_toNative :
    (category.toNative config type slots address value).Leaves (Writing slots address value) := by
  unfold toNative
  split
  · exact .pure fun tables => writing_of_store rfl rfl (fun _ _ => trivial) fun _ => rfl
  · exact .pure fun tables => writing_of_store rfl rfl (fun _ _ => trivial) fun _ => rfl
  · refine .bind MemberSlots.leaves_require fun width => ?_
    have three : [Signature.intPtr, .i32, .bool].length = 3 := rfl
    refine .bind (leaves_callStatic three rfl) fun call => .pure fun tables exchanges found => ?_
    intro frame same holds reaches has depth room
    have pushed : frame.Moves [.loadStatic width] (depth + 1) (depth + 2) :=
      Frame.moves_loadStatic (holds.width width found) (by omega)
    have placed := (Frame.moves_address reaches (by omega)).append pushed
    have whole := (placed.append (Frame.moves_push has (by omega))).append
      (exchanges frame same _ depth (by omega) rfl (by omega))
    rwa [List.append_assoc address.push] at whole
  · exact .bind MemberSlots.leaves_require fun handle =>
      .bind (leaves_callStatic rfl rfl) fun call => .pure fun tables => writing_of_handle
  · exact .bind (leaves_callStatic rfl rfl) fun call => .pure fun tables => writing_of_call
  · refine .bind (leaves_type type) fun token => .pure fun tables inside => ?_
    exact writing_of_store rfl rfl (fun frame same => by cases same; exact inside) fun _ => rfl
  · exact .bind (leaves_callStatic rfl rfl) fun call => .pure fun tables => writing_of_call
  · have two : [Signature.intPtr].length + 1 = 2 := rfl
    refine .bind (leaves_call rfl two rfl) fun call => .pure fun tables exchanges => ?_
    intro frame same holds reaches has depth room
    have pushed : frame.Moves value.pushAddress depth (depth + 1) :=
      Frame.moves_pushAddress has (by omega)
    exact (pushed.append (Frame.moves_address reaches (by omega))).append
      (exchanges frame same _ _ (by omega) rfl (by omega))
  · exact .bind (leaves_callStatic rfl rfl) fun call => .pure fun tables => writing_of_call
  · exact .bind (leaves_callStatic rfl rfl) fun call => .pure fun tables => writing_of_call
  · exact .bind (leaves_callStatic rfl rfl) fun call => .pure fun tables => writing_of_call
  · exact .bind (leaves_callStatic rfl rfl) fun call => .pure fun tables => writing_of_call
  · exact Emit.leaves_inconsistent _
  · exact .bind MemberSlots.leaves_require fun handle =>
      .bind (leaves_callStatic rfl rfl) fun call => .pure fun tables => writing_of_handle

/-- The code works on the memory at an address. -/
def Tending (slots : MemberSlots) (address : NativeAddress) (tables : Tables) (code : Fragment) :
    Prop :=
  ∀ frame : Frame, frame.tables = tables → frame.Holds slots → frame.Reaches address →
    ∀ depth ≤ 1000, frame.Moves code depth depth

theorem tending_of_call {tables : Tables} {call : Fragment} (exchanges : Exchanging 1 0 tables call) :
    Tending slots address tables (address.push ++ call) :=
  fun frame same _ reaches depth room =>
    (Frame.moves_address reaches (by omega)).append
      (exchanges frame same _ _ (by omega) rfl (by omega))

theorem tending_of_handle {tables : Tables} {handle : UInt32} {call : Fragment}
    (exchanges : Exchanging 2 0 tables call) (found : slots.handle = some handle) :
    Tending slots address tables (.loadStatic handle :: address.push ++ call) :=
  fun frame same holds reaches depth room =>
    have pushed : frame.Moves [.loadStatic handle] depth (depth + 1) :=
      Frame.moves_loadStatic (holds.handle handle found) (by omega)
    (pushed.append (Frame.moves_address reaches (by omega))).append
      (exchanges frame same _ _ (by omega) rfl (by omega))

/-- Releasing a value leaves the stack as it was. -/
theorem leaves_cleanup :
    (category.cleanup config slots address).Leaves (Tending slots address) := by
  unfold cleanup
  split
  · exact .bind MemberSlots.leaves_require fun handle =>
      .bind (leaves_callStatic rfl rfl) fun call => .pure fun tables => tending_of_handle
  · exact .bind (leaves_callStatic rfl rfl) fun call => .pure fun tables => tending_of_call
  · exact .bind MemberSlots.leaves_require fun handle =>
      .bind (leaves_callStatic rfl rfl) fun call => .pure fun tables => tending_of_handle
  · exact .pure fun _ _ _ _ _ _ _ => .done

/-- So does making an empty value. -/
theorem leaves_defaultInit :
    (category.defaultInit config address).Leaves (Tending slots address) := by
  unfold defaultInit
  split
  · exact .bind (leaves_callStatic rfl rfl) fun call => .pure fun tables => tending_of_call
  · exact .pure fun _ _ _ _ _ _ _ => .done

/-! ## Properties -/

/-- Making a wrapper leaves it on the stack. -/
theorem leaves_newWrapper :
    (category.newWrapper config slots address).Leaves (Reading slots address) := by
  unfold newWrapper
  split
  · exact .bind (leaves_newObject rfl) fun create => .pure fun tables => reading_of_call
  · exact leaves_fromNative_array _
  · split
    · exact Emit.leaves_inconsistent _
    · next handle found =>
      exact .bind (leaves_newObject rfl) fun create => .pure fun tables exchanges =>
        reading_of_handle exchanges found
  · exact Emit.leaves_inconsistent _

/-- A wrapper is made by few instructions. -/
theorem yieldsShort_newWrapper :
    (category.newWrapper config slots address).Yields fun code => code.length ≤ 9 := by
  have base := address.length_push_le
  unfold newWrapper
  split
  · refine .bind yieldsSingle_newObject fun create single => .pure ?_
    rw [List.length_append]
    omega
  · refine .after fun handle => .after fun elementSize => ?_
    refine .bind yieldsSingle_newObject fun create single => .pure ?_
    simp only [List.length_cons, List.length_append, List.length_nil]
    omega
  · split
    · exact .throw
    · refine .bind yieldsSingle_newObject fun create single => .pure ?_
      simp only [List.length_cons, List.length_append]
      omega
  · exact .throw

/-- Reading a property of the receiver leaves its value on the stack. -/
theorem leaves_load (valued : type.isVoid = false) :
    (category.load config type slots address).Leaves fun tables code =>
      ∀ frame : Frame, frame.tables = tables → frame.Holds slots → frame.Reaches address →
        0 < frame.arguments → (∀ field ∈ slots.wrapper, frame.OperandFits (.loadField field)) →
        ∀ depth ≤ 1000, frame.Runs code depth (depth + 1) := by
  unfold load
  split
  · split
    · exact Emit.leaves_inconsistent _
    · next field kept =>
      have created : (category.newWrapper config slots address).Leaves fun tables create =>
          Reading slots address tables create ∧ create.length ≤ 9 :=
        leaves_newWrapper.and (.ofYields fun _ => yieldsShort_newWrapper)
      refine .bind created fun create => .pure fun tables made => ?_
      intro frame same holds reaches received wrapper depth room
      have shallow := made.1 frame same holds reaches 0 (Nat.zero_le _)
      have short := made.2
      have lifted : frame.Moves create (0 + (depth + 1)) (0 + 1 + (depth + 1)) :=
        shallow.lift (by omega)
      rw [Nat.zero_add, Nat.zero_add, Nat.add_comm 1] at lifted
      exact Frame.runs_lazily received (wrapper field kept) lifted room
  · refine (leaves_fromNative valued).mono fun tables code reading => ?_
    exact fun frame same holds reaches _ _ depth room =>
      (reading frame same holds reaches depth room).runs

/-- Writing a property leaves the stack as it was. -/
theorem leaves_store :
    (category.store config type slots address value).Leaves (Writing slots address value) := by
  unfold store
  split
  · exact Emit.leaves_inconsistent _
  · exact leaves_toNative

end Category

/-- Creating a subobject leaves the stack as it was. -/
theorem Emit.leaves_subobject {config : Config} {target : Signature} {nativeName : String}
    {address : NativeAddress} :
    (subobject config target nativeName address).Leaves fun tables code =>
      ∀ frame : Frame, frame.tables = tables → frame.Reaches address → 0 < frame.arguments →
        ∀ depth ≤ 1000, frame.Moves code depth depth := by
  unfold subobject
  refine .bind (leaves_member _) fun create => ?_
  refine .bind (leaves_member _) fun classPtr => ?_
  refine .bind (leaves_loadString nativeName) fun name => ?_
  have two : [Signature.intPtr, config.rootSignature].length = 2 := rfl
  refine .bind (leaves_callStatic two rfl) fun write => .pure fun tables => ?_
  intro exchanges named held made frame same reaches received depth room
  have base : frame.Moves address.push depth (depth + 1) :=
    Frame.moves_address reaches (by omega)
  have receiver : frame.Moves [.loadArg 0] (depth + 1) (depth + 2) :=
    Frame.moves_loadArg received (by omega)
  have text := named frame same (depth + 2) (depth + 3) (by omega) rfl (by omega)
  subst same
  have static : frame.Moves [.loadStatic classPtr] (depth + 3) (depth + 4) :=
    Frame.moves_loadStatic ⟨_, held, _, rfl⟩ (by omega)
  have called : frame.Moves [.call create] (depth + 4) (depth + 2) :=
    Frame.moves_call made rfl ⟨by simp, by simp; rfl, by omega⟩
  have whole := ((base.append (receiver.append text)).append (static.append called)).append
    (exchanges frame rfl (depth + 2) depth (by omega) rfl (by omega))
  exact whole

end NativeWeave
