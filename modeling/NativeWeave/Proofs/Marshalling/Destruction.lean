import NativeWeave.Proofs.Marshalling.Balance

namespace NativeWeave

/-!
# Code that destroys native instances, and code that does not

The instance in a slot is destroyed by a call of the marshaller that made it.  Code that moves values
makes no such call, and control runs straight through it, so that only the code that is there for it
destroys anything.
-/

/-- The instruction calls a method that destroys a native instance. -/
def Tables.Destroys (tables : Tables) (instr : Instr) : Prop :=
  ∃ token member, (instr = .call token ∨ instr = .callVirtual token) ∧
    tables.member? token = some member ∧ member.name = "DestructInstance"

/-- Control runs straight through the code, which destroys nothing. -/
def Tables.Spares (tables : Tables) (code : Fragment) : Prop :=
  ∀ instr ∈ code, instr.Straight ∧ ¬ tables.Destroys instr

/-- Control goes on from the instruction, and it is no call. -/
def Instr.isQuiet : Instr → Bool
  | .plain .ret | .plain .throw | .jump _ _ | .member .call _ | .member .callVirtual _ => false
  | _ => true

namespace Tables

variable {tables : Tables} {first second : Fragment}

theorem spares_nil : tables.Spares [] :=
  List.forall_mem_nil _

theorem Spares.append (front : tables.Spares first) (back : tables.Spares second) :
    tables.Spares (first ++ second) :=
  List.forall_mem_append.mpr ⟨front, back⟩

theorem spares_of_isQuiet {code : Fragment} (quiet : code.all Instr.isQuiet = true) :
    tables.Spares code := by
  intro instr member
  have silent := List.all_eq_true.mp quiet instr member
  constructor
  · cases instr with
    | plain op => cases op <;> first | exact ⟨rfl, rfl⟩ | cases silent
    | jump op target => cases silent
    | _ => exact ⟨rfl, rfl⟩
  · rintro ⟨token, member, rfl | rfl, _⟩
    · cases silent
    · cases silent

theorem Spares.cons {instr : Instr} {code : Fragment} (spares : tables.Spares code)
    (quiet : instr.isQuiet = true) : tables.Spares (instr :: code) := by
  have single : [instr].all Instr.isQuiet = true := by rw [List.all_cons, quiet, List.all_nil]; rfl
  exact (spares_of_isQuiet single).append spares

theorem spares_call {token : UInt32} {member : MemberRef} (means : tables.member? token = some member)
    (other : member.name ≠ "DestructInstance") : tables.Spares [.call token] := by
  refine List.forall_mem_singleton.mpr ⟨⟨rfl, rfl⟩, ?_⟩
  rintro ⟨_, _, same | same, found, named⟩
  · cases same
    cases means.symm.trans found
    exact other named
  · cases same

theorem spares_push (source : ValueSource) : tables.Spares source.push := by
  cases source <;> exact spares_of_isQuiet rfl

theorem spares_pushAddress (source : ValueSource) : tables.Spares source.pushAddress := by
  cases source <;> exact spares_of_isQuiet rfl

theorem spares_address (address : NativeAddress) : tables.Spares address.push := by
  unfold NativeAddress.push
  split
  · exact spares_push _
  · exact (spares_push _).append (spares_of_isQuiet rfl)

theorem spares_flatten {fragments : List Fragment}
    (each : ∀ fragment ∈ fragments, tables.Spares fragment) : tables.Spares fragments.flatten :=
  List.forall_mem_flatten.mpr each

/-- Code without jumps is the same wherever it stands. -/
theorem Spares.still {code : Fragment} (spares : tables.Spares code) :
    ∀ instr ∈ code, instr.target? = none :=
  fun instr member => (spares instr member).1.leadsNowhere

theorem spares_concat {fragments : List Fragment}
    (each : ∀ fragment ∈ fragments, tables.Spares fragment) :
    tables.Spares (Fragment.concat fragments) := by
  have spares := spares_flatten each
  rwa [Fragment.concat_eq_flatten spares.still]

end Tables

open Tables

/-! ## Steps -/

namespace Emit

theorem leaves_call_spares {reference : MemberRef} (other : reference.name ≠ "DestructInstance") :
    (call reference).Leaves Tables.Spares :=
  .bind (leaves_member reference) fun _ => .pure fun _ means => spares_call means other

theorem leaves_callStatic_spares {owner : Signature} {name : String} {parameters : List Signature}
    {result : Signature} (other : name ≠ "DestructInstance") :
    (callStatic owner name parameters result).Leaves Tables.Spares :=
  leaves_call_spares other

theorem leaves_newObject_spares {owner : Signature} {parameters : List Signature} :
    (newObject owner parameters).Leaves Tables.Spares :=
  .after fun _ => .pure fun _ => spares_of_isQuiet rfl

end Emit

open Emit

namespace Category

variable {config : Config} {category : Category} {type : Signature} {slots : MemberSlots}
  {address : NativeAddress} {value : ValueSource}

/-- Code behind an address. -/
theorem spares_behind_address {tables : Tables} {code : Fragment} (spares : tables.Spares code) :
    tables.Spares (address.push ++ code) :=
  (spares_address address).append spares

/-- Reading a value destroys nothing. -/
theorem leaves_fromNative_spares :
    (category.fromNative config type slots address).Leaves Tables.Spares := by
  have moves : ∀ {owner parameters result},
      (callStatic owner "FromNative" parameters result).Leaves Tables.Spares :=
    leaves_callStatic_spares (by decide)
  unfold fromNative
  split
  · exact .pure fun tables => spares_behind_address (spares_of_isQuiet rfl)
  · exact .pure fun tables => spares_behind_address (spares_of_isQuiet rfl)
  · refine .after fun width => .bind moves fun call => .pure fun tables spares => ?_
    exact spares_behind_address (spares.cons rfl)
  · refine .after fun handle => .bind moves fun call => .pure fun tables spares => ?_
    exact (spares_behind_address spares).cons rfl
  · exact .bind moves fun call => .pure fun tables => spares_behind_address
  · exact .after fun token => .pure fun tables => spares_behind_address (spares_of_isQuiet rfl)
  · exact .bind moves fun call => .pure fun tables => spares_behind_address
  · exact .bind leaves_newObject_spares fun create => .pure fun tables => spares_behind_address
  · refine .bind moves fun call => .after fun token => .pure fun tables spares => ?_
    exact (spares_behind_address spares).append (spares_of_isQuiet rfl)
  · refine .bind moves fun call => .after fun token => .pure fun tables spares => ?_
    exact (spares_behind_address spares).append (spares_of_isQuiet rfl)
  · exact .bind moves fun call => .pure fun tables => spares_behind_address
  · exact .bind moves fun call => .pure fun tables => spares_behind_address
  · refine .after fun handle => .after fun size => ?_
    refine .bind leaves_newObject_spares fun create => .pure fun tables spares => ?_
    exact ((spares_behind_address (spares_of_isQuiet rfl)).cons rfl).append spares
  · refine .after fun handle => .bind moves fun call => .pure fun tables spares => ?_
    exact (spares_behind_address spares).cons rfl

/-- Writing a value destroys nothing. -/
theorem leaves_toNative_spares :
    (category.toNative config type slots address value).Leaves Tables.Spares := by
  have moves : ∀ {owner parameters result},
      (callStatic owner "ToNative" parameters result).Leaves Tables.Spares :=
    leaves_callStatic_spares (by decide)
  have both : ∀ {tables : Tables} {code : Fragment}, tables.Spares code →
      tables.Spares (address.push ++ value.push ++ code) :=
    fun spares => (spares_behind_address (spares_push value)).append spares
  unfold toNative
  split
  · exact .pure fun tables => both (spares_of_isQuiet rfl)
  · exact .pure fun tables => both (spares_of_isQuiet rfl)
  · refine .after fun width => .bind moves fun call => .pure fun tables spares => ?_
    exact (spares_behind_address ((spares_push value).cons rfl)).append spares
  · refine .after fun handle => .bind moves fun call => .pure fun tables spares => ?_
    exact (both spares).cons rfl
  · exact .bind moves fun call => .pure fun tables => both
  · exact .after fun token => .pure fun tables => both (spares_of_isQuiet rfl)
  · exact .bind moves fun call => .pure fun tables => both
  · have other : Naming.toNative ≠ "DestructInstance" := by decide
    refine .bind (leaves_call_spares other) fun call => .pure fun tables spares => ?_
    exact ((spares_pushAddress value).append (spares_address address)).append spares
  · exact .bind moves fun call => .pure fun tables => both
  · exact .bind moves fun call => .pure fun tables => both
  · exact .bind moves fun call => .pure fun tables => both
  · exact .bind moves fun call => .pure fun tables => both
  · exact leaves_inconsistent _
  · refine .after fun handle => .bind moves fun call => .pure fun tables spares => ?_
    exact (both spares).cons rfl

/-! ## Destruction -/

/-- The method that destroys the native instances which values of the category are marshalled to. -/
def destructor? (config : Config) : Category → Option MemberRef
  | string => some (.staticMethod (config.runtimeSignature .stringMarshaller) "DestructInstance"
      [.intPtr, .intPtr] .void)
  | text => some (.staticMethod (config.runtimeSignature .textMarshaller) "DestructInstance"
      [.intPtr] .void)
  | list _ element => some (.staticMethod (config.runtimeGeneric .listMarshaller element)
      "DestructInstance" [.intPtr, .intPtr] .void)
  | _ => none

/-- The code calls the destructor of the category on the address once, with the handle in the slot for
it if the category has one, and does nothing else. -/
def Destruction (config : Config) (category : Category) (slots : MemberSlots)
    (address : NativeAddress) (tables : Tables) (code : Fragment) : Prop :=
  ∃ token destructor handle, category.destructor? config = some destructor ∧
    tables.member? token = some destructor ∧
    (category.needsHandle = false ∧ handle = [] ∨
      ∃ slot, slots.handle = some slot ∧ handle = [.loadStatic slot]) ∧
    code = handle ++ address.push ++ [.call token]

theorem Destruction.still {tables : Tables} {code : Fragment}
    (destruction : category.Destruction config slots address tables code) :
    ∀ instr ∈ code, instr.target? = none := by
  rcases destruction with ⟨token, destructor, handle, _, _, needed, rfl⟩
  have loaded : ∀ instr ∈ handle, instr.target? = none := by
    rcases needed with ⟨_, rfl⟩ | ⟨slot, _, rfl⟩
    · exact List.forall_mem_nil _
    · exact List.forall_mem_singleton.mpr rfl
  rw [List.forall_mem_append, List.forall_mem_append]
  have pushed : tables.Spares address.push := spares_address address
  exact ⟨⟨loaded, pushed.still⟩, List.forall_mem_singleton.mpr rfl⟩

/-- What owns native memory is destroyed. -/
theorem leaves_cleanup_destroys (owning : category.needsCleanup = true) :
    (category.cleanup config slots address).Leaves
      (category.Destruction config slots address) := by
  cases category with
  | string =>
    refine .bind MemberSlots.leaves_require fun handle => ?_
    refine .bind (leaves_callOf _) fun code => .pure fun tables called found => ?_
    rcases called with ⟨token, rfl, means⟩
    exact ⟨token, _, [.loadStatic handle], rfl, means, .inr ⟨handle, found, rfl⟩, rfl⟩
  | text =>
    refine .bind (leaves_callOf _) fun code => .pure fun tables called => ?_
    rcases called with ⟨token, rfl, means⟩
    exact ⟨token, _, [], rfl, means, .inl ⟨rfl, rfl⟩, rfl⟩
  | list inner element =>
    refine .bind MemberSlots.leaves_require fun handle => ?_
    refine .bind (leaves_callOf _) fun code => .pure fun tables called found => ?_
    rcases called with ⟨token, rfl, means⟩
    exact ⟨token, _, [.loadStatic handle], rfl, means, .inr ⟨handle, found, rfl⟩, rfl⟩
  | _ => cases owning

end Category

end NativeWeave
