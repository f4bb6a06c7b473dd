import NativeWeave.Proofs.Verification.Worklist

namespace NativeWeave

/-!
# Verification under growing tables

A table gains entries at its end and never loses one.  What a body refers to therefore stays where
it was, each of its instructions keeps its effect on the stack, and a body that was verified once is
verified for good.
-/

/-! ## Tables that grow -/

namespace Tables

/-- The later tables begin with the entries of the earlier ones. -/
structure Grows (before after : Tables) : Prop where
  strings : before.strings <+: after.strings
  members : before.members <+: after.members
  types : before.types <+: after.types

theorem Grows.refl (tables : Tables) : Grows tables tables :=
  ⟨List.prefix_refl _, List.prefix_refl _, List.prefix_refl _⟩

theorem Grows.trans {before middle after : Tables} (first : Grows before middle)
    (second : Grows middle after) : Grows before after :=
  ⟨first.strings.trans second.strings, first.members.trans second.members,
    first.types.trans second.types⟩

end Tables

/-- The later list is the earlier one with new items behind it, each of them once. -/
def Enlarges {α : Type} (before after : List α) : Prop :=
  ∃ added, after = before ++ added ∧ added.Nodup ∧ ∀ item ∈ added, item ∉ before

namespace Enlarges

variable {α : Type} {before middle after : List α}

theorem refl (items : List α) : Enlarges items items :=
  ⟨[], (List.append_nil items).symm, List.nodup_nil, List.forall_mem_nil _⟩

theorem trans (first : Enlarges before middle) (second : Enlarges middle after) :
    Enlarges before after := by
  rcases first with ⟨early, rfl, earlyNodup, earlyNew⟩
  rcases second with ⟨late, rfl, lateNodup, lateNew⟩
  refine ⟨early ++ late, List.append_assoc before early late, ?_,
    List.forall_mem_append.mpr ⟨earlyNew, fun item member => ?_⟩⟩
  · refine List.nodup_append.mpr ⟨earlyNodup, lateNodup, ?_⟩
    rintro item inEarly _ inLate rfl
    exact lateNew item inLate (List.mem_append_right before inEarly)
  · exact fun inBefore => lateNew item member (List.mem_append_left early inBefore)

theorem isPrefix (enlarges : Enlarges before after) : before <+: after := by
  rcases enlarges with ⟨added, rfl, _⟩
  exact List.prefix_append before added

/-- Looking up an item adds it only if it is missing. -/
theorem intern [DecidableEq α] (items : List α) (item : α) :
    Enlarges items (NativeWeave.intern items item).2 := by
  unfold NativeWeave.intern
  split
  · exact refl items
  · next absent =>
    refine ⟨[item], rfl, List.nodup_singleton item, List.forall_mem_singleton.mpr ?_⟩
    exact List.idxOf?_eq_none_iff.mp absent

end Enlarges

/-- The later tables are the earlier ones with new entries, each of them once. -/
structure Tables.Extends (before after : Tables) : Prop where
  strings : Enlarges before.strings after.strings
  members : Enlarges before.members after.members
  types : Enlarges before.types after.types

namespace Tables

variable {before middle after : Tables}

theorem Extends.refl (tables : Tables) : Extends tables tables :=
  ⟨.refl _, .refl _, .refl _⟩

theorem Extends.trans (first : before.Extends middle) (second : middle.Extends after) :
    before.Extends after :=
  ⟨first.strings.trans second.strings, first.members.trans second.members,
    first.types.trans second.types⟩

theorem Extends.grows (enlarged : before.Extends after) : before.Grows after :=
  ⟨enlarged.strings.isPrefix, enlarged.members.isPrefix, enlarged.types.isPrefix⟩

theorem extends_internString (tables : Tables) (text : String) :
    Extends tables (tables.internString text).2 :=
  ⟨.intern tables.strings text, .refl _, .refl _⟩

theorem extends_internMember (tables : Tables) (member : MemberRef) :
    Extends tables (tables.internMember member).2 :=
  ⟨.refl _, .intern tables.members member, .refl _⟩

theorem extends_internType (tables : Tables) (type : Signature) :
    Extends tables (tables.internType type).2 :=
  ⟨.refl _, .refl _, .intern tables.types type⟩

end Tables

theorem getElem?_of_prefix {α : Type} {front whole : List α} (begins : front <+: whole)
    {index : Nat} {item : α} (found : front[index]? = some item) : whole[index]? = some item := by
  rcases begins with ⟨more, rfl⟩
  have inside := (List.getElem?_eq_some_iff.mp found).1
  rw [List.getElem?_append_left inside]
  exact found

/-! ## Bodies in grown tables -/

namespace Frame

variable {frame : Frame} {before after : Tables}

/-- An operand that is in order stays in order. -/
theorem OperandFits.grow (grows : before.Grows after) {instr : Instr}
    (fits : { frame with tables := before }.OperandFits instr) :
    { frame with tables := after }.OperandFits instr := by
  cases instr with
  | constString index => exact Nat.lt_of_lt_of_le fits grows.strings.length_le
  | type op token => exact Nat.lt_of_lt_of_le fits grows.types.length_le
  | member op token =>
    rcases fits with ⟨member, found, suits⟩
    exact ⟨member, getElem?_of_prefix grows.members found, suits⟩
  | _ => exact fits

/-- An instruction with an operand that is in order keeps its effect. -/
theorem effect_grow (grows : before.Grows after) {instr : Instr}
    (fits : { frame with tables := before }.OperandFits instr) :
    { frame with tables := after }.effect instr = { frame with tables := before }.effect instr := by
  cases instr with
  | member op token =>
    rcases fits with ⟨member, found, _⟩
    have later : after.member? token = some member := getElem?_of_prefix grows.members found
    have earlier : before.member? token = some member := found
    simp only [effect, later, earlier]
  | plain op => cases op <;> rfl
  | slot op index => cases op <;> rfl
  | jump op target => cases op <;> rfl
  | type op token => cases op <;> rfl
  | indirect op kind => cases op <;> rfl
  | _ => rfl

/-- Frames in which all instructions have the same effects have the same paths. -/
theorem Path.transfer {first second : Frame} {instrs : List Instr}
    (same : ∀ instr ∈ instrs, second.effect instr = first.effect instr) {steps place : Nat}
    {depth : Int} (path : Path second instrs steps place depth) :
    Path first instrs steps place depth := by
  induction path with
  | entry => exact .entry
  | step before here flows ih =>
    have equal := same _ (List.mem_of_getElem? here)
    rw [change, equal]
    exact ih.step here flows

theorem PathsSafe.transfer {first second : Frame} {instrs : List Instr}
    (same : ∀ instr ∈ instrs, second.effect instr = first.effect instr)
    (safe : first.PathsSafe instrs) : second.PathsSafe instrs where
  inside path := safe.inside (path.transfer same)
  enough path here := by
    rw [same _ (List.mem_of_getElem? here)]
    exact safe.enough (path.transfer same) here
  bounded path here := by
    rw [change, same _ (List.mem_of_getElem? here)]
    exact safe.bounded (path.transfer same) here
  balanced path here := by
    rw [change, same _ (List.mem_of_getElem? here)]
    exact safe.balanced (path.transfer same) here
  unique path other := safe.unique (path.transfer same) (other.transfer same)

/-- Code that is in order stays in order. -/
theorem InOrder.grow (grows : before.Grows after) {code : Code}
    (ordered : { frame with tables := before }.InOrder code) :
    { frame with tables := after }.InOrder code where
  ends := ordered.ends
  operands instr member := (ordered.operands instr member).grow grows
  paths := ordered.paths.transfer fun instr member =>
    effect_grow grows (ordered.operands instr member)

end Frame

/-- A method that is verified against tables is verified against all tables that they grow into. -/
theorem Method.verify_of_grows {method : Method} {before after : Tables}
    (grows : before.Grows after) (verified : method.verify before = .ok ()) :
    method.verify after = .ok () := by
  cases present : method.body with
  | none => exact Method.verify_of_no_body present after
  | some body =>
    rcases (Method.verify_eq_ok_iff present before).mp verified with ⟨code, read, ordered⟩
    have kept : (method.frame after body).InOrder code :=
      @Frame.InOrder.grow (method.frame before body) _ _ grows _ ordered
    exact (Method.verify_eq_ok_iff present after).mpr ⟨code, read, kept⟩

/-- Verification asks nothing of a method but its body, its arguments, and whether it returns a
value. -/
theorem Method.verify_congr {first second : Method} (body : first.body = second.body)
    (arguments : first.argumentCount = second.argumentCount) (result : first.result = second.result)
    (tables : Tables) : first.verify tables = second.verify tables := by
  have frames : ∀ body, first.frame tables body = second.frame tables body := by
    intro body
    simp only [frame, arguments, result]
  simp only [verify, body, frames]

end NativeWeave
