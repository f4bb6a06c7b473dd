import NativeWeave.Proofs.Editing.Application
import NativeWeave.Proofs.Editing.Placement
import NativeWeave.Proofs.Format.Body
import NativeWeave.Proofs.Verification.Growth
import NativeWeave.Proofs.Verification.Levels

namespace NativeWeave

/-!
# Plans that leave a type verified

A plan is verifiable if the bodies that it brings are, in the methods that they are for, and if its
prelude leaves the stack as it was.  A verified type with the edits of such a plan is verified again,
as long as no body gets too long and the initializer that is to run the prelude has a body of its own.
-/

/-! ## Bodies that are built

A body that is stored from code in order is verified, and a fragment with certified depths is such
code.  Conversely the code of a verified body has certified depths, so that other code with certified
depths may be put in front of it. -/

/-- The body takes less than 31 bits of bytes, so that every jump in it can be stored. -/
def Body.Short (body : Body) : Prop :=
  body.code.length < 2 ^ 31

namespace Frame

variable {frame : Frame} {code : Code}

/-- Code that control enters with an empty stack and never runs past is in order. -/
theorem Carries.inOrder (carries : frame.Carries code.instrs 0 none) : frame.InOrder code where
  ends := (carries.closed rfl).ends
  operands := carries.operands
  paths := by
    rcases carries.levels with ⟨level, levels, entry, final, beyond⟩
    refine levels.pathsSafe entry fun place depth known => Nat.lt_of_not_le fun outside => ?_
    rcases Nat.eq_or_lt_of_le outside with rfl | further
    · cases known.symm.trans final
    · cases known.symm.trans (beyond place further)

/-- The depths with which paths arrive carry code that is in order. -/
theorem InOrder.carries (ordered : frame.InOrder code) (inside : code.TargetsInside) :
    frame.Carries code.instrs 0 none where
  operands := ordered.operands
  inside instr member target leads := Nat.le_of_lt (inside instr member target leads)
  closed _ := ⟨ordered.ends, inside⟩
  levels := by
    have nowhere : ∀ place, code.instrs.length ≤ place →
        frame.arrival code.instrs place = none := by
      intro place outside
      cases reached : frame.arrival code.instrs place with
      | none => rfl
      | some depth =>
        rcases exists_path_of_arrival reached with ⟨steps, path⟩
        exact absurd (ordered.paths.inside path) (Nat.not_lt_of_le outside)
    exact ⟨_, ordered.paths.levels, ordered.paths.arrival_eq .entry, nowhere _ (Nat.le_refl _),
      fun place outside => nowhere place (Nat.le_of_lt outside)⟩

end Frame

namespace Method

variable {method : Method} {tables : Tables} {body : Body} {code : Code} {locals : List Signature}

/-- A body is verified exactly if it can be read for editing as code that is in order. -/
theorem verify_eq_ok_iff_toCode (present : method.body = some body) (tables : Tables) :
    method.verify tables = .ok () ↔
      ∃ code, body.toCode = .ok code ∧ (method.frame tables body).InOrder code := by
  rw [verify_eq_ok_iff present]
  constructor
  · rintro ⟨code, read, ends, operands, paths⟩
    exact ⟨_, bind_eq_ok_iff.mpr ⟨code, read, rfl⟩, ends, operands, paths⟩
  · rintro ⟨code, loaded, ordered⟩
    rcases bind_eq_ok_iff.mp loaded with ⟨read, decoded, final⟩
    cases final
    exact ⟨read, decoded, ordered.ends, ordered.operands, ordered.paths⟩

/-- Code that is in order and can be stored makes a verified body. -/
theorem verify_of_storable (present : method.body = some (code.toBody locals))
    (storable : code.Storable)
    (ordered : (method.frame tables (code.toBody locals)).InOrder code) :
    method.verify tables = .ok () := by
  rcases Code.exists_toCode_toBody storable locals with ⟨read, found, same⟩
  refine (verify_eq_ok_iff_toCode present tables).mpr ⟨read, found, ?_, ?_, ?_⟩
  · rw [same]
    exact ordered.ends
  · rw [same]
    exact ordered.operands
  · rw [same]
    exact ordered.paths

/-- A fragment that control enters with an empty stack and never runs past makes a verified body. -/
theorem verify_of_carries (present : method.body = some (code.toBody locals))
    (carries : (method.frame tables (code.toBody locals)).Carries code.instrs 0 none)
    (short : (code.toBody locals).Short) : method.verify tables = .ok () := by
  have inside : code.TargetsInside := (carries.closed rfl).targets
  refine verify_of_storable present (Code.storable_of_targetsInside inside ?_) carries.inOrder
  rwa [Body.Short, Code.toBody, Code.length_encode] at short

/-- The code of a verified body has certified depths. -/
theorem exists_carries_of_verify (present : method.body = some body)
    (verified : method.verify tables = .ok ()) :
    ∃ code, body.toCode = .ok code ∧ (method.frame tables body).Carries code.instrs 0 none := by
  rcases (verify_eq_ok_iff_toCode present tables).mp verified with ⟨code, read, ordered⟩
  exact ⟨code, read, ordered.carries (Code.storable_of_toCode read).targetsInside⟩

end Method

/-! ## Plans -/

/-- The method is verified unless its body is too long. -/
def Method.Verifiable (tables : Tables) (method : Method) : Prop :=
  (∀ body ∈ method.body, body.Short) → method.verify tables = .ok ()

theorem Method.Verifiable.of_verify {tables : Tables} {method : Method}
    (verified : method.verify tables = .ok ()) : method.Verifiable tables :=
  fun _ => verified

/-- New names do not matter. -/
theorem Method.Verifiable.rename {tables : Tables} {method : Method}
    (verifiable : method.Verifiable tables) (name : String) (attributes : List Attribute) :
    Method.Verifiable tables { method with name, attributes } :=
  fun short =>
    have same : Method.verify { method with name, attributes } tables = method.verify tables :=
      Method.verify_congr rfl rfl rfl tables
    same.trans (verifiable short)

/-- A fragment that control enters with an empty stack and never runs past makes a verifiable body. -/
theorem Method.verifiable_of_carries {tables : Tables} {method : Method} {code : Code}
    {locals : List Signature} (present : method.body = some (code.toBody locals))
    (carries : (method.frame tables (code.toBody locals)).Carries code.instrs 0 none) :
    method.Verifiable tables :=
  fun short => Method.verify_of_carries present carries (short _ present)

namespace TypePlan

/-- What the plan brings is verified, apart from bodies that are too long. -/
structure Verifiable (plan : TypePlan) (type : TypeDef) (tables : Tables) : Prop where
  bodies : ∀ edit ∈ plan.bodies, ∀ method, type.methods[edit.1]? = some method →
    Method.Verifiable tables { method with body := some edit.2 }
  methods : ∀ method ∈ plan.methods, method.body.isSome = true ∧ method.Verifiable tables
  /-- No method becomes an initializer. -/
  renames : ∀ edit ∈ plan.renames, edit.2 ≠ Method.initializerName
  prelude : ∀ frame : Frame, frame.tables = tables → frame.Moves plan.prelude 0 0

namespace Verifiable

variable {first second plan : TypePlan} {type reduced : TypeDef} {tables : Tables}

theorem of_nil (bodies : plan.bodies = []) (methods : plan.methods = [])
    (renames : plan.renames = []) (prelude : plan.prelude = []) : plan.Verifiable type tables where
  bodies := by
    rw [bodies]
    exact List.forall_mem_nil _
  methods := by
    rw [methods]
    exact List.forall_mem_nil _
  renames := by
    rw [renames]
    exact List.forall_mem_nil _
  prelude _ _ := by
    rw [prelude]
    exact .done

theorem append (front : first.Verifiable type tables) (back : second.Verifiable type tables) :
    (first ++ second).Verifiable type tables where
  bodies := List.forall_mem_append.mpr ⟨front.bodies, back.bodies⟩
  methods := List.forall_mem_append.mpr ⟨front.methods, back.methods⟩
  renames := List.forall_mem_append.mpr ⟨front.renames, back.renames⟩
  prelude frame same := by
    have behind := back.prelude frame same
    have whole := (front.prelude frame same).append behind
    change frame.Moves (first.prelude.append second.prelude) 0 0
    rwa [Fragment.append, behind.shift_eq]

theorem concat {plans : List TypePlan} (each : ∀ plan ∈ plans, plan.Verifiable type tables) :
    (TypePlan.concat plans).Verifiable type tables := by
  induction plans with
  | nil => exact of_nil rfl rfl rfl rfl
  | cons plan more ih =>
    rw [List.forall_mem_cons] at each
    exact each.1.append (ih each.2)

theorem replaceBody {index : Nat} {name : String} {body : Body}
    (verifiable : ∀ method, type.methods[index]? = some method →
      Method.Verifiable tables { method with body := some body }) :
    (TypePlan.replaceBody index name body).Verifiable type tables where
  bodies := List.forall_mem_singleton.mpr verifiable
  methods := List.forall_mem_nil _
  renames := List.forall_mem_nil _
  prelude _ _ := .done

theorem addMethod {method : Method} (present : method.body.isSome = true)
    (verifiable : method.Verifiable tables) :
    (TypePlan.addMethod method).Verifiable type tables where
  bodies := List.forall_mem_nil _
  methods := List.forall_mem_singleton.mpr ⟨present, verifiable⟩
  renames := List.forall_mem_nil _
  prelude _ _ := .done

end Verifiable

/-! ## Applying a plan -/

variable {plan : TypePlan} {type reduced : TypeDef} {tables : Tables}

/-- Code in front of other code makes a body longer. -/
theorem length_le_of_prependCode {prelude : Fragment} {body later : Body}
    (prepended : prependCode prelude body = .ok later) : body.code.length ≤ later.code.length := by
  rcases bind_eq_ok_iff.mp prepended with ⟨code, loaded, prepended⟩
  rw [Code.insert?_zero] at prepended
  cases prepended
  rcases bind_eq_ok_iff.mp (eq_ok_of_mapError loaded) with ⟨read, decoded, final⟩
  cases final
  have written : read.encode = body.code := Code.encode_of_decode decoded
  change body.code.length ≤ (Code.encode _).length
  rw [← written, Code.length_encode, Code.length_encode, Code.byteSize_eq_sum, Code.byteSize_eq_sum]
  change _ ≤ ((prelude ++ read.instrs.map _).map Instruction.size).sum
  rw [List.map_append, List.sum_append, List.map_map]
  have sizes : read.instrs.map (Instruction.size ∘ (·.mapTarget (· + prelude.length))) =
      read.instrs.map Instruction.size :=
    List.map_congr_left fun instr _ => Instruction.size_mapTarget _ instr
  rw [sizes]
  exact Nat.le_add_left _ _

/-- A verified body stays verified behind code that leaves the empty stack empty. -/
theorem verify_of_prependCode {prelude : Fragment} {method : Method} {body later : Body}
    (moves : (method.frame tables body).Moves prelude 0 0) (present : method.body = some body)
    (verified : method.verify tables = .ok ())
    (prepended : prependCode prelude body = .ok later) :
    Method.verify { method with body := some later } tables = .ok () := by
  rcases Method.exists_carries_of_verify present verified with ⟨code, read, carries⟩
  rcases bind_eq_ok_iff.mp prepended with ⟨other, loaded, prepended⟩
  cases read.symm.trans (eq_ok_of_mapError loaded)
  rw [Code.insert?_zero] at prepended
  cases prepended
  have whole : (method.frame tables body).Carries (code.behind prelude).instrs 0 none :=
    moves.carries.append carries
  have storable := (Code.storable_of_toCode read).behind fun instr member =>
    (moves.straight instr member).leadsNowhere
  exact Method.verify_of_storable rfl storable whole.inOrder

/-- The methods of a verified type with the edits of a verifiable plan are verifiable. -/
theorem Verifiable.of_apply (verifiable : plan.Verifiable type tables)
    (applied : plan.apply type = .ok reduced)
    (verified : ∀ method ∈ type.methods, method.verify tables = .ok ())
    (initializers : ∀ method ∈ type.methods, method.isTypeInitializer = true →
      method.body.isSome = true) : ∀ method ∈ reduced.methods, method.Verifiable tables := by
  suffices all : ∀ method ∈ reduced.methods, method.Verifiable tables ∧
      (method.isTypeInitializer = true → method.body.isSome = true) from
    fun method member => (all method member).1
  refine forall_method_of_apply applied (fun edit member method here => ?_)
    (fun method member => ?_) (fun index method here _ _ => ?_) (fun edit member method holds => ?_)
    (fun method later _ prepended holds => ?_) ?_
  · exact ⟨verifiable.bodies edit member method here, fun _ => rfl⟩
  · exact ⟨(verifiable.methods method member).2, fun _ => (verifiable.methods method member).1⟩
  · have member := List.mem_of_getElem? here
    exact ⟨.of_verify (verified method member), initializers method member⟩
  · refine ⟨holds.1.rename _ _, fun initializes => ?_⟩
    rw [Method.isTypeInitializer, Bool.and_eq_true, beq_iff_eq] at initializes
    exact (verifiable.renames edit member initializes.1).elim
  · rename_i initializes
    refine ⟨fun short => ?_, fun _ => rfl⟩
    rcases Option.isSome_iff_exists.mp (holds.2 initializes) with ⟨body, present⟩
    rw [present] at prepended
    have shorter : body.Short :=
      Nat.lt_of_le_of_lt (length_le_of_prependCode prepended) (short later rfl)
    refine verify_of_prependCode (verifiable.prelude _ rfl) present (holds.1 ?_) prepended
    intro other same
    cases present.symm.trans same
    exact shorter
  · refine ⟨Method.verifiable_of_carries rfl ?_, fun _ => rfl⟩
    exact (verifiable.prelude _ rfl).carries.append (Frame.carries_ret rfl)

/-- All methods are verified if they are verifiable and short. -/
theorem verifyTouched_eq_ok {touched : List String}
    (verifiable : ∀ method ∈ type.methods, method.Verifiable tables)
    (short : ∀ method ∈ type.methods, ∀ body ∈ method.body, body.Short) :
    verifyTouched touched tables type = .ok () :=
  verifyTouched_of_verify fun method member => verifiable method member (short method member)

end TypePlan

end NativeWeave
