import NativeWeave.Proofs.Marshalling.Emission

namespace NativeWeave

/-!
# Instance fields that generated code uses

Code for a value reaches into objects only where it is told to: it loads the field with the native
address if that is where the value lies, the field of a value that it writes, and the field with the
wrapper of a property.  Everything else that it refers to is a static field or a method.
-/

/-- The instance field that an instruction loads, stores or takes the address of. -/
def Instruction.fieldToken? {Target : Type} : Instruction Target → Option UInt32
  | .member .loadField token | .member .storeField token | .member .loadFieldAddress token =>
    some token
  | _ => none

@[simp] theorem Instruction.fieldToken?_mapTarget {Source Target : Type}
    (rename : Source → Target) (instr : Instruction Source) :
    (instr.mapTarget rename).fieldToken? = instr.fieldToken? := by
  cases instr with
  | member op token => cases op <;> rfl
  | _ => rfl

namespace Fragment

/-- All instance fields that the code uses are allowed. -/
def Uses (allowed : UInt32 → Prop) (fragment : Fragment) : Prop :=
  ∀ instr ∈ fragment, ∀ token ∈ instr.fieldToken?, allowed token

variable {allowed : UInt32 → Prop} {instr : Instr} {first second fragment : Fragment}

theorem uses_nil : Uses allowed [] :=
  List.forall_mem_nil _

theorem Uses.cons (own : ∀ token ∈ instr.fieldToken?, allowed token)
    (uses : fragment.Uses allowed) : Uses allowed (instr :: fragment) :=
  List.forall_mem_cons.mpr ⟨own, uses⟩

/-- An instruction that uses no field can stand anywhere. -/
theorem Uses.other (none : instr.fieldToken? = none) (uses : fragment.Uses allowed) :
    Uses allowed (instr :: fragment) := by
  refine uses.cons ?_
  rw [none]
  intro token impossible
  cases impossible

theorem Uses.append (front : first.Uses allowed) (back : second.Uses allowed) :
    Uses allowed (first ++ second) :=
  List.forall_mem_append.mpr ⟨front, back⟩

theorem uses_of_none (none : instr.fieldToken? = none) : Uses allowed [instr] :=
  uses_nil.other none

theorem Uses.shift (uses : fragment.Uses allowed) (distance : Nat) :
    (fragment.shift distance).Uses allowed := by
  refine List.forall_mem_map.mpr fun instr member => ?_
  rw [Instruction.fieldToken?_mapTarget]
  exact uses instr member

theorem Uses.join (front : first.Uses allowed) (back : second.Uses allowed) :
    (first.append second).Uses allowed :=
  Uses.append front (back.shift first.length)

theorem uses_concat {fragments : List Fragment}
    (each : ∀ fragment ∈ fragments, fragment.Uses allowed) : (concat fragments).Uses allowed := by
  induction fragments with
  | nil => exact uses_nil
  | cons fragment more ih =>
    rw [List.forall_mem_cons] at each
    exact each.1.join (ih each.2)

theorem Uses.skip {jump : JumpOp} (uses : fragment.Uses allowed) :
    (Fragment.skip jump fragment).Uses allowed :=
  (uses_of_none rfl).join uses

end Fragment

open Fragment

variable {allowed : UInt32 → Prop}

/-! ## Places and values -/

/-- The fields that tell where a value is. -/
def ValueSource.fields : ValueSource → List UInt32
  | thisField token => [token]
  | _ => []

namespace ValueSource

variable {source : ValueSource}

theorem uses_push (known : ∀ token ∈ source.fields, allowed token) : source.push.Uses allowed := by
  cases source with
  | thisField token =>
    refine .other rfl (.cons ?_ uses_nil)
    rintro other ⟨rfl⟩
    exact known token List.mem_cons_self
  | behind index type => exact .other rfl (uses_of_none rfl)
  | _ => exact uses_of_none rfl

theorem uses_pushAddress (known : ∀ token ∈ source.fields, allowed token) :
    source.pushAddress.Uses allowed := by
  cases source with
  | thisField token =>
    refine .other rfl (.cons ?_ uses_nil)
    rintro other ⟨rfl⟩
    exact known token List.mem_cons_self
  | _ => exact uses_of_none rfl

end ValueSource

theorem NativeAddress.uses_push {address : NativeAddress}
    (place : ∀ token ∈ address.base.fields, allowed token) : address.push.Uses allowed := by
  have base := ValueSource.uses_push place
  unfold push
  split
  · exact base
  · exact base.append (.other rfl (.other rfl (uses_of_none rfl)))

/-! ## Steps -/

namespace Emit

theorem yieldsUses_call (reference : MemberRef) : (call reference).Yields (Uses allowed) :=
  .after fun _ => .pure (uses_of_none rfl)

theorem yieldsUses_callStatic (owner : Signature) (name : String) (parameters : List Signature)
    (result : Signature) :
    (callStatic owner name parameters result).Yields (Uses allowed) :=
  yieldsUses_call _

theorem yieldsUses_newObject (owner : Signature) (parameters : List Signature) :
    (newObject owner parameters).Yields (Uses allowed) :=
  .after fun _ => .pure (uses_of_none rfl)

theorem yieldsUses_loadString (text : String) : (loadString text).Yields (Uses allowed) :=
  .after fun _ => .pure (uses_of_none rfl)

theorem yieldsUses_liveness (config : Config) : (liveness config).Yields (Uses allowed) :=
  .bind (yieldsUses_call _) fun _ call => .pure (call.other rfl)

end Emit

/-! ## Values -/

namespace Category

open Emit

variable {config : Config} {category : Category} {type : Signature} {slots : MemberSlots}
  {address : NativeAddress} {value : ValueSource}
  (known : ∀ token ∈ address.base.fields, allowed token)
include known

theorem yieldsUses_fromNative_array {inner : Category} {element : Signature} {dim : UInt32}
    (type : Signature) : ((Category.array inner element dim).fromNative config type slots
      address).Yields (Uses allowed) := by
  have place := NativeAddress.uses_push known
  exact .after fun handle => .after fun size => .bind (yieldsUses_newObject _ _) fun _ create =>
    .pure (((place.other rfl).append (.other rfl (uses_of_none rfl))).append create)

/-- Reading a value uses the field that tells where it is. -/
theorem yieldsUses_fromNative : (category.fromNative config type slots address).Yields
    (Uses allowed) := by
  have place := NativeAddress.uses_push known
  unfold fromNative
  split
  · exact .pure (place.append (uses_of_none rfl))
  · exact .pure (place.append (uses_of_none rfl))
  · exact .after fun width => .bind (yieldsUses_callStatic _ _ _ _) fun _ call =>
      .pure (place.append (call.other rfl))
  · exact .after fun handle => .bind (yieldsUses_callStatic _ _ _ _) fun _ call =>
      .pure ((place.other rfl).append call)
  · exact .bind (yieldsUses_callStatic _ _ _ _) fun _ call => .pure (place.append call)
  · exact .after fun token => .pure (place.append (uses_of_none rfl))
  · exact .bind (yieldsUses_callStatic _ _ _ _) fun _ call => .pure (place.append call)
  · exact .bind (yieldsUses_newObject _ _) fun _ create => .pure (place.append create)
  · exact .bind (yieldsUses_callStatic _ _ _ _) fun _ call => .after fun token =>
      .pure ((place.append call).append (uses_of_none rfl))
  · exact .bind (yieldsUses_callStatic _ _ _ _) fun _ call => .after fun token =>
      .pure ((place.append call).append (uses_of_none rfl))
  · exact .bind (yieldsUses_callStatic _ _ _ _) fun _ call => .pure (place.append call)
  · exact .bind (yieldsUses_callStatic _ _ _ _) fun _ call => .pure (place.append call)
  · exact yieldsUses_fromNative_array known type
  · exact .after fun handle => .bind (yieldsUses_callStatic _ _ _ _) fun _ call =>
      .pure ((place.other rfl).append call)

/-- Writing a value uses the fields that tell where it goes and where it comes from. -/
theorem yieldsUses_toNative (given : ∀ token ∈ value.fields, allowed token) :
    (category.toNative config type slots address value).Yields (Uses allowed) := by
  have place := NativeAddress.uses_push known
  have source := ValueSource.uses_push given
  have both := place.append source
  unfold toNative
  split
  · exact .pure (both.append (uses_of_none rfl))
  · exact .pure (both.append (uses_of_none rfl))
  · exact .after fun width => .bind (yieldsUses_callStatic _ _ _ _) fun _ call =>
      .pure ((place.append (source.other rfl)).append call)
  · exact .after fun handle => .bind (yieldsUses_callStatic _ _ _ _) fun _ call =>
      .pure (((place.other rfl).append source).append call)
  · exact .bind (yieldsUses_callStatic _ _ _ _) fun _ call => .pure (both.append call)
  · exact .after fun token => .pure (both.append (uses_of_none rfl))
  · exact .bind (yieldsUses_callStatic _ _ _ _) fun _ call => .pure (both.append call)
  · exact .bind (yieldsUses_call _) fun _ call =>
      .pure (((ValueSource.uses_pushAddress given).append place).append call)
  · exact .bind (yieldsUses_callStatic _ _ _ _) fun _ call => .pure (both.append call)
  · exact .bind (yieldsUses_callStatic _ _ _ _) fun _ call => .pure (both.append call)
  · exact .bind (yieldsUses_callStatic _ _ _ _) fun _ call => .pure (both.append call)
  · exact .bind (yieldsUses_callStatic _ _ _ _) fun _ call => .pure (both.append call)
  · exact .throw
  · exact .after fun handle => .bind (yieldsUses_callStatic _ _ _ _) fun _ call =>
      .pure (((place.other rfl).append source).append call)

theorem yieldsUses_cleanup : (category.cleanup config slots address).Yields (Uses allowed) := by
  have place := NativeAddress.uses_push known
  unfold cleanup
  split
  · exact .after fun handle => .bind (yieldsUses_callStatic _ _ _ _) fun _ call =>
      .pure ((place.other rfl).append call)
  · exact .bind (yieldsUses_callStatic _ _ _ _) fun _ call => .pure (place.append call)
  · exact .after fun handle => .bind (yieldsUses_callStatic _ _ _ _) fun _ call =>
      .pure ((place.other rfl).append call)
  · exact .pure uses_nil

theorem yieldsUses_defaultInit : (category.defaultInit config address).Yields (Uses allowed) := by
  unfold defaultInit
  split
  · exact .bind (yieldsUses_callStatic _ _ _ _) fun _ call =>
      .pure ((NativeAddress.uses_push known).append call)
  · exact .pure uses_nil

/-! ## Properties -/

theorem yieldsUses_newWrapper : (category.newWrapper config slots address).Yields
    (Uses allowed) := by
  have place := NativeAddress.uses_push known
  unfold newWrapper
  split
  · exact .bind (yieldsUses_newObject _ _) fun _ create => .pure (place.append create)
  · exact yieldsUses_fromNative_array known _
  · split
    · exact .throw
    · exact .bind (yieldsUses_newObject _ _) fun _ create =>
        .pure ((place.other rfl).append create)
  · exact .throw

/-- Reading a property also uses the field with its wrapper. -/
theorem yieldsUses_load (wrapper : ∀ token ∈ slots.wrapper, allowed token) :
    (category.load config type slots address).Yields (Uses allowed) := by
  unfold load
  split
  · split
    · exact .throw
    · next field wrapped =>
      have own := wrapper field wrapped
      have only : ∀ token ∈ some field, allowed token := by
        rintro token ⟨rfl⟩
        exact own
      have reading : Uses allowed [.loadArg 0, .loadField field] := .other rfl (uses_nil.cons only)
      have testing : Uses allowed [.loadArg 0, .loadField field, .plain .null, .plain .equal] :=
        reading.append (.other rfl (uses_of_none rfl))
      have keeping : Uses allowed [.storeField field] := uses_nil.cons only
      refine .bind (yieldsUses_newWrapper known) fun create uses => .pure (uses_concat ?_)
      have making : Uses allowed (concat [[.loadArg 0], create, [.storeField field]]) :=
        uses_concat (List.forall_mem_cons.mpr ⟨uses_of_none rfl, List.forall_mem_cons.mpr
          ⟨uses, List.forall_mem_singleton.mpr keeping⟩⟩)
      exact List.forall_mem_cons.mpr ⟨testing, List.forall_mem_cons.mpr ⟨making.skip,
        List.forall_mem_singleton.mpr reading⟩⟩
  · exact yieldsUses_fromNative known

theorem yieldsUses_store (given : ∀ token ∈ value.fields, allowed token) :
    (category.store config type slots address value).Yields (Uses allowed) := by
  unfold store
  split
  · exact .throw
  · exact yieldsUses_toNative known given

end Category

open Emit in
theorem Emit.yieldsUses_subobject {address : NativeAddress}
    (known : ∀ token ∈ address.base.fields, allowed token) (config : Config) (target : Signature)
    (nativeName : String) : (subobject config target nativeName address).Yields (Uses allowed) := by
  refine .after fun create => .after fun classPtr => ?_
  have calls : Uses allowed [.loadStatic classPtr, .call create] := .other rfl (uses_of_none rfl)
  exact .bind (yieldsUses_loadString _) fun name text =>
    .bind (yieldsUses_callStatic _ _ _ _) fun write call =>
      .pure ((((NativeAddress.uses_push known).append (text.other rfl)).append calls).append call)

end NativeWeave
