import Mathlib.Data.List.GetD
import Mathlib.Data.List.Induction
import NativeWeave.Code.Builder
import NativeWeave.Proofs.Format.Body

namespace NativeWeave

/-!
# Built code

What a label stands for can be said by the steps alone by which code is built, without the builder
that carries them out: what is added next after the last step that binds it.  Code is built if every
label that a jump names is bound, and what is built is read back if something follows there.
-/

namespace Instruction

variable {Source Target Cause : Type} {resolve : Source → Except Cause Target}
  {rename : Source → Target} {instr : Instruction Source}

theorem resolveTarget_eq_mapTarget
    (each : ∀ target ∈ instr.target?, resolve target = .ok (rename target)) :
    instr.resolveTarget resolve = .ok (instr.mapTarget rename) := by
  cases instr with
  | jump op target =>
    rw [resolveTarget, each target rfl]
    rfl
  | _ => rfl

theorem exists_of_resolveTarget {resolved : Instruction Target}
    (found : instr.resolveTarget resolve = .ok resolved) :
    ∀ target ∈ instr.target?, ∃ place, resolve target = .ok place := by
  cases instr with
  | jump op target =>
    rintro _ ⟨rfl⟩
    simp only [resolveTarget] at found
    cases looked : resolve target with
    | error cause =>
      rw [looked] at found
      cases found
    | ok place => exact ⟨place, rfl⟩
  | _ =>
    intro target impossible
    cases impossible

end Instruction

/-! ## Which code is read back -/

namespace Code

variable {code : Code}

theorem getElem?_displaceFrom (starts : List Nat) (total start : Nat) (instrs : List Instr)
    (index : Nat) : (displaceFrom starts total start instrs)[index]? = instrs[index]?.map
      (·.mapTarget (displacement starts total (start + firstByte instrs (index + 1)))) := by
  induction instrs generalizing start index with
  | nil => rfl
  | cons instr more ih =>
    rw [displaceFrom]
    cases index with
    | zero => simp
    | succ index =>
      rw [List.getElem?_cons_succ, List.getElem?_cons_succ, ih, firstByte_cons_succ, Nat.add_assoc]

/-- A jump to no instruction is stored as a jump to the end of the code. -/
theorem landing?_of_le (short : code.byteSize < 2 ^ 31) {index target : Nat} {instr : Instr}
    (here : code.instrs[index]? = some instr) (leads : instr.target? = some target)
    (outside : code.size ≤ target) :
    landing? (displaceFrom code.offsets code.byteSize 0 code.instrs) index =
      some (code.byteSize : Int) := by
  have sizes := map_size_displaceFrom code.offsets code.byteSize 0 code.instrs
  have behind : firstByte (displaceFrom code.offsets code.byteSize 0 code.instrs) (index + 1) =
      firstByte code.instrs (index + 1) := by
    rw [firstByte, List.map_take, sizes, ← List.map_take, firstByte]
  have far : displacement code.offsets code.byteSize (firstByte code.instrs (index + 1)) target =
      Int32.ofInt ((code.byteSize : Int) - firstByte code.instrs (index + 1)) := by
    rw [displacement, List.getD_eq_default]
    rwa [offsets, length_offsetsFrom]
  have before : firstByte code.instrs (index + 1) ≤ code.byteSize := by
    rw [byteSize_eq_sum]
    exact firstByte_le_sum _ _
  cases instr with
  | jump op aim =>
    cases leads
    rw [landing?, getElem?_displaceFrom, here, Nat.zero_add, behind]
    simp only [Option.map_some, Option.bind_some, Instruction.mapTarget, Instruction.target?, far]
    rw [Int32.toInt_ofInt_of_le (by omega) (by omega)]
    congr 1
    omega
  | _ => cases leads

/-- Of code with short distances all that is read back whose jumps lead to its instructions. -/
theorem exists_decode_encode_iff (short : code.byteSize < 2 ^ 31) :
    (∃ read, decode code.encode = .ok read) ↔ code.TargetsInside := by
  constructor
  · rintro ⟨read, found⟩ instr member target leads
    by_contra outside
    rcases List.mem_iff_getElem?.mp member with ⟨index, here⟩
    have ends := landing?_of_le short here leads (Nat.le_of_not_lt outside)
    have size := length_encode code
    rw [encode, encodeFrom_eq_flatMap] at found size
    rcases decode_flatMap_encode (displaceFrom code.offsets code.byteSize 0 code.instrs) with
      ⟨_, _, land⟩ | ⟨_, _, _, _, failed⟩
    · rcases land index _ ends with ⟨aim, inside, same⟩
      exact ne_firstByte (.inl (congrArg _ size.symm)) aim inside same
    · rw [found] at failed
      cases failed
  · exact fun inside => ⟨_, decode_encode inside short⟩

end Code

/-! ## Steps -/

namespace Builder

/-- What is done to code under construction. -/
inductive Step
  | addLocal (type : Signature)
  | newLabel
  | bind (label : Nat)
  | emit (added : List Instr)
deriving DecidableEq, Repr

namespace Step

/-- A local variable that is one too many is not added. -/
def apply (builder : Builder) : Step → Builder
  | addLocal type =>
    match builder.addLocal type with
    | .ok (_, wider) => wider
    | .error _ => builder
  | newLabel => builder.newLabel.2
  | bind label => builder.bind label
  | emit added => builder.emit added

/-- The instructions that a step adds. -/
@[simp] def emitted : Step → List Instr
  | emit added => added
  | _ => []

/-- The local variable that a step asks for. -/
@[simp] def declared : Step → List Signature
  | addLocal type => [type]
  | _ => []

end Step

def run (builder : Builder) (steps : List Step) : Builder :=
  steps.foldl Step.apply builder

def emitted (steps : List Step) : List Instr :=
  steps.flatMap Step.emitted

def declared (steps : List Step) : List Signature :=
  steps.flatMap Step.declared

def labelCount (steps : List Step) : Nat :=
  steps.count .newLabel

/-- The steps before and behind the last one that binds a label, which has been made before. -/
def LastBind (steps : List Step) (label : Nat) (before after : List Step) : Prop :=
  steps = before ++ .bind label :: after ∧ label < labelCount before ∧ .bind label ∉ after

/-- The last step that binds the label places it before the instruction with this index. -/
def BoundAt (steps : List Step) (label index : Nat) : Prop :=
  ∃ before after, LastBind steps label before after ∧ (emitted before).length = index

variable {steps : List Step} {step : Step} {label index : Nat}

@[simp] theorem emitted_append_singleton (steps : List Step) (step : Step) :
    emitted (steps ++ [step]) = emitted steps ++ step.emitted := by
  simp [emitted]

@[simp] theorem declared_append_singleton (steps : List Step) (step : Step) :
    declared (steps ++ [step]) = declared steps ++ step.declared := by
  simp [declared]

@[simp] theorem labelCount_append_singleton (steps : List Step) (step : Step) :
    labelCount (steps ++ [step]) = labelCount steps + if step = .newLabel then 1 else 0 := by
  simp [labelCount, List.count_singleton]

theorem boundAt_append_singleton : BoundAt (steps ++ [step]) label index ↔
    (step = .bind label ∧ label < labelCount steps ∧ (emitted steps).length = index) ∨
      (step ≠ .bind label ∧ BoundAt steps label index) := by
  constructor
  · rintro ⟨before, after, ⟨same, made, last⟩, placed⟩
    rcases List.eq_nil_or_concat after with rfl | ⟨rest, final, rfl⟩
    · rcases List.append_inj' same rfl with ⟨rfl, ends⟩
      cases ends
      exact .inl ⟨rfl, made, placed⟩
    · rw [List.concat_eq_append, ← List.cons_append, ← List.append_assoc] at same
      rcases List.append_inj' same rfl with ⟨rfl, ends⟩
      cases ends
      rw [List.concat_eq_append, List.mem_append, List.mem_singleton, not_or] at last
      exact .inr ⟨Ne.symm last.2, before, rest, ⟨rfl, made, last.1⟩, placed⟩
  · rintro (⟨rfl, made, placed⟩ | ⟨other, before, after, ⟨rfl, made, last⟩, placed⟩)
    · exact ⟨steps, [], ⟨rfl, made, List.not_mem_nil⟩, placed⟩
    · refine ⟨before, after ++ [step], ⟨by simp, made, ?_⟩, placed⟩
      rw [List.mem_append, List.mem_singleton, not_or]
      exact ⟨last, Ne.symm other⟩

theorem boundAt_append_of_ne (other : step ≠ .bind label) :
    BoundAt (steps ++ [step]) label index ↔ BoundAt steps label index := by
  rw [boundAt_append_singleton]
  simp [other]

/-! ## What the builder knows -/

/-- The builder that had these local variables first, after steps, said by the steps.  There is room
for the variables as long as the index of the next one fits into an operand. -/
structure Reflects (builder : Builder) (locals : List Signature) (steps : List Step) : Prop where
  locals : builder.locals.toList = locals ++ (declared steps).take (65535 - locals.length)
  instrs : builder.instrs.toList = emitted steps
  labels : builder.labels.size = labelCount steps
  bound : ∀ label index, builder.labels[label]? = some (some index) ↔ BoundAt steps label index

namespace Reflects

variable {builder : Builder} {locals : List Signature}

theorem addLocal (reflects : builder.Reflects locals steps) (type : Signature) :
    (Step.apply builder (.addLocal type)).Reflects locals (steps ++ [.addLocal type]) := by
  have sized : builder.locals.size =
      locals.length + min (65535 - locals.length) (declared steps).length := by
    rw [← Array.length_toList, reflects.locals, List.length_append, List.length_take]
  have bound : ∀ label index, builder.labels[label]? = some (some index) ↔
      BoundAt (steps ++ [.addLocal type]) label index := fun label index => by
    rw [boundAt_append_of_ne Step.noConfusion, reflects.bound]
  by_cases full : 65535 ≤ builder.locals.size
  · have same : Step.apply builder (.addLocal type) = builder := by
      simp [Step.apply, Builder.addLocal, full]
    rw [same]
    refine ⟨?_, by simpa using reflects.instrs, by simpa using reflects.labels, bound⟩
    rw [declared_append_singleton, List.take_append_of_le_length (by omega), reflects.locals]
  · have wider : Step.apply builder (.addLocal type) =
        { builder with locals := builder.locals.push type } := by
      simp [Step.apply, Builder.addLocal, full]
    rw [wider]
    refine ⟨?_, by simpa using reflects.instrs, by simpa using reflects.labels, bound⟩
    rw [Array.toList_push, reflects.locals, declared_append_singleton, List.append_assoc,
      List.take_of_length_le (by omega), Step.declared, List.take_of_length_le]
    rw [List.length_append, List.length_singleton]
    omega

theorem newLabel (reflects : builder.Reflects locals steps) :
    (Step.apply builder .newLabel).Reflects locals (steps ++ [.newLabel]) where
  locals := by simpa [Step.apply, Builder.newLabel] using reflects.locals
  instrs := by simpa [Step.apply, Builder.newLabel] using reflects.instrs
  labels := by simpa [Step.apply, Builder.newLabel] using reflects.labels
  bound label index := by
    rw [boundAt_append_of_ne Step.noConfusion, ← reflects.bound, Step.apply, Builder.newLabel,
      Array.getElem?_push]
    split
    · next last => simp [last]
    · rfl

theorem bind (reflects : builder.Reflects locals steps) (label : Nat) :
    (Step.apply builder (.bind label)).Reflects locals (steps ++ [.bind label]) where
  locals := by simpa [Step.apply, Builder.bind] using reflects.locals
  instrs := by simpa [Step.apply, Builder.bind] using reflects.instrs
  labels := by simpa [Step.apply, Builder.bind] using reflects.labels
  bound other index := by
    rw [boundAt_append_singleton, ← reflects.bound, ← reflects.labels, ← reflects.instrs,
      Array.length_toList, Step.apply, Builder.bind, Array.getElem?_setIfInBounds]
    by_cases same : label = other
    · subst same
      simp
    · simp [same]

theorem emit (reflects : builder.Reflects locals steps) (added : List Instr) :
    (Step.apply builder (.emit added)).Reflects locals (steps ++ [.emit added]) where
  locals := by simpa [Step.apply, Builder.emit] using reflects.locals
  instrs := by simpa [Step.apply, Builder.emit] using reflects.instrs
  labels := by simpa [Step.apply, Builder.emit] using reflects.labels
  bound label index := by
    rw [boundAt_append_of_ne Step.noConfusion, ← reflects.bound]
    rfl

theorem apply (reflects : builder.Reflects locals steps) (step : Step) :
    (step.apply builder).Reflects locals (steps ++ [step]) := by
  cases step with
  | addLocal type => exact reflects.addLocal type
  | newLabel => exact reflects.newLabel
  | bind label => exact reflects.bind label
  | emit added => exact reflects.emit added

end Reflects

/-- What the builder knows after any steps. -/
theorem reflects_run (locals : List Signature) (steps : List Step) :
    (run { locals := locals.toArray } steps).Reflects locals steps := by
  induction steps using List.reverseRecOn with
  | nil =>
    refine ⟨by simp [run, declared], rfl, rfl, fun label index => ?_⟩
    constructor
    · intro impossible
      simp [run] at impossible
    · rintro ⟨before, after, ⟨impossible, _⟩, _⟩
      cases before <;> cases impossible
  | append_singleton steps step ih =>
    rw [run, List.foldl_append]
    exact ih.apply step

/-! ## Finishing -/

/-- Every label that a jump names is bound. -/
def AllBound (steps : List Step) : Prop :=
  ∀ instr ∈ emitted steps, ∀ label ∈ instr.target?, ∃ index, BoundAt steps label index

/-- Something is added after the last step that binds a label which a jump names. -/
def AllFollowed (steps : List Step) : Prop :=
  ∀ instr ∈ emitted steps, ∀ label ∈ instr.target?, ∀ before after,
    LastBind steps label before after → emitted after ≠ []

theorem place_eq_ok_iff {builder : Builder} :
    builder.place label = .ok index ↔ builder.labels[label]? = some (some index) := by
  rw [place]
  cases builder.labels[label]? with
  | none => simp
  | some found => cases found <;> simp

/-- The index that a label is bound to, and zero for other labels. -/
def aim (builder : Builder) (label : Nat) : Nat :=
  (builder.place label).toOption.getD 0

theorem aim_eq {builder : Builder} (placed : builder.place label = .ok index) :
    builder.aim label = index := by
  rw [aim, placed]
  rfl

/-- Code is finished exactly if all labels that its jumps name have a place. -/
theorem finish_eq_ok_iff {builder : Builder} {code : Code} :
    builder.finish = .ok code ↔
      (∀ instr ∈ builder.instrs.toList, ∀ label ∈ instr.target?,
        ∃ index, builder.place label = .ok index) ∧
      code = { instrs := builder.instrs.toList.map (·.mapTarget builder.aim) } := by
  have resolved (each : ∀ instr ∈ builder.instrs.toList, ∀ label ∈ instr.target?,
      ∃ index, builder.place label = .ok index) :
      builder.instrs.toList.mapM (·.resolveTarget builder.place) =
        .ok (builder.instrs.toList.map (·.mapTarget builder.aim)) := by
    refine mapM_eq_ok_map fun instr member => ?_
    refine Instruction.resolveTarget_eq_mapTarget fun label leads => ?_
    rcases each instr member label leads with ⟨index, placed⟩
    rw [placed, aim_eq placed]
  unfold finish
  rw [bind_eq_ok_iff]
  constructor
  · rintro ⟨instrs, run, final⟩
    have each : ∀ instr ∈ builder.instrs.toList, ∀ label ∈ instr.target?,
        ∃ index, builder.place label = .ok index := by
      intro instr member
      rcases List.mem_iff_append.mp member with ⟨front, back, split⟩
      rw [split] at run
      rcases exists_of_mapM_append run with ⟨_, _, _, _, found, _⟩
      exact Instruction.exists_of_resolveTarget found
    rw [resolved each] at run
    cases run
    cases final
    exact ⟨each, rfl⟩
  · rintro ⟨each, rfl⟩
    exact ⟨_, resolved each, rfl⟩

theorem LastBind.emitted_eq {before after : List Step} (last : LastBind steps label before after) :
    emitted steps = emitted before ++ emitted after := by
  rcases last with ⟨rfl, _⟩
  simp [emitted]

/-- There is one last step that binds a label. -/
theorem LastBind.unique {before after front back : List Step}
    (last : LastBind steps label before after) (other : LastBind steps label front back) :
    before = front ∧ after = back := by
  rcases last with ⟨rfl, _, last⟩
  rcases other with ⟨same, _, other⟩
  rcases List.append_eq_append_iff.mp same with ⟨middle, rfl, rest⟩ | ⟨middle, rfl, rest⟩
  · cases middle with
    | nil =>
      cases rest
      exact ⟨(List.append_nil before).symm, rfl⟩
    | cons step middle =>
      cases rest
      exact absurd (by simp) last
  · cases middle with
    | nil =>
      cases rest
      exact ⟨List.append_nil front, rfl⟩
    | cons step middle =>
      cases rest
      exact absurd (by simp) other

namespace Reflects

variable {builder : Builder} {locals : List Signature}

theorem place_eq_ok_iff (reflects : builder.Reflects locals steps) :
    builder.place label = .ok index ↔ BoundAt steps label index := by
  rw [Builder.place_eq_ok_iff, reflects.bound]

theorem aim_eq (reflects : builder.Reflects locals steps) {before after : List Step}
    (last : LastBind steps label before after) : builder.aim label = (emitted before).length :=
  Builder.aim_eq (reflects.place_eq_ok_iff.mpr ⟨before, after, last, rfl⟩)

theorem finish_eq_ok_iff (reflects : builder.Reflects locals steps) {code : Code} :
    builder.finish = .ok code ↔
      AllBound steps ∧ code = { instrs := (emitted steps).map (·.mapTarget builder.aim) } := by
  rw [Builder.finish_eq_ok_iff, reflects.instrs]
  simp only [reflects.place_eq_ok_iff]
  rfl

/-- A label leads into the code if something is added behind the step that binds it last. -/
theorem aim_lt_iff (reflects : builder.Reflects locals steps) {before after : List Step}
    (last : LastBind steps label before after) :
    builder.aim label < (emitted steps).length ↔ emitted after ≠ [] := by
  rw [reflects.aim_eq last, last.emitted_eq, List.length_append, ← List.length_pos_iff]
  omega

theorem targetsInside_iff (reflects : builder.Reflects locals steps) (bound : AllBound steps) :
    Code.TargetsInside { instrs := (emitted steps).map (·.mapTarget builder.aim) } ↔
      AllFollowed steps := by
  unfold Code.TargetsInside Code.size
  simp only [List.forall_mem_map, List.length_map, Instruction.target?_mapTarget]
  constructor
  · intro inside instr member label leads before after last
    rw [← reflects.aim_lt_iff last]
    exact inside instr member _ (Option.mem_map_of_mem _ leads)
  · intro followed instr member target leads
    rcases Option.map_eq_some_iff.mp leads with ⟨label, named, rfl⟩
    rcases bound instr member label named with ⟨_, before, after, last, _⟩
    exact (reflects.aim_lt_iff last).mpr (followed instr member label named before after last)

/-- The instruction at the place of a label is the one that is added next after the label is bound. -/
theorem getElem?_aim (reflects : builder.Reflects locals steps) {before after : List Step}
    (last : LastBind steps label before after) :
    (emitted steps)[builder.aim label]? = (emitted after).head? := by
  rw [reflects.aim_eq last, last.emitted_eq, List.getElem?_append_right (Nat.le_refl _),
    Nat.sub_self, List.head?_eq_getElem?]

end Reflects

/-- Code is built by steps if every label that a jump names is bound by one of them, after the one
that makes it.  What is built, with distances that a displacement can hold, is read back if something
is added behind the last step that binds each of these labels.  It has the instructions that were
added, and each jump leads to the one that was added next after its label was bound for the last
time. -/
theorem build_reads_back (locals : List Signature) (steps : List Step) :
    ((∃ body, (run { locals := locals.toArray } steps).build = .ok body) ↔ AllBound steps) ∧
    ∀ body, (run { locals := locals.toArray } steps).build = .ok body →
      body.locals = locals ++ (declared steps).take (65535 - locals.length) ∧
      (body.code.length < 2 ^ 31 →
        ((∃ code, Code.decode body.code = .ok code) ↔ AllFollowed steps) ∧
        ∀ code, Code.decode body.code = .ok code → ∃ place : Nat → Nat,
          code.instrs = (emitted steps).map (·.mapTarget place) ∧
          ∀ label before after, LastBind steps label before after →
            place label = (emitted before).length ∧
            code.instrs[place label]? = (emitted after).head?.map (·.mapTarget place)) := by
  have reflects := reflects_run locals steps
  generalize run { locals := locals.toArray } steps = builder at reflects
  constructor
  · constructor
    · rintro ⟨body, built⟩
      rcases bind_eq_ok_iff.mp built with ⟨code, finished, _⟩
      exact (reflects.finish_eq_ok_iff.mp finished).1
    · intro bound
      exact ⟨_, bind_eq_ok_iff.mpr ⟨_, reflects.finish_eq_ok_iff.mpr ⟨bound, rfl⟩, rfl⟩⟩
  · intro body built
    rcases bind_eq_ok_iff.mp built with ⟨finished, found, final⟩
    cases final
    rcases reflects.finish_eq_ok_iff.mp found with ⟨bound, rfl⟩
    refine ⟨reflects.locals, fun short => ?_⟩
    rw [Code.toBody, Code.length_encode] at short
    have readable := (Code.exists_decode_encode_iff short).trans (reflects.targetsInside_iff bound)
    refine ⟨readable, fun code read => ⟨builder.aim, ?_⟩⟩
    have inside := (Code.exists_decode_encode_iff short).mp ⟨code, read⟩
    cases (Code.decode_encode inside short).symm.trans read
    refine ⟨rfl, fun label before after last => ⟨reflects.aim_eq last, ?_⟩⟩
    rw [← reflects.getElem?_aim last, List.getElem?_map]

/-- A jump forward over something that is not needed. -/
def forward : List Step :=
  [.newLabel, .emit [.loadArg 0], .emit [.jump .ifTrue 0],
    .emit [.constI32 7, .plain .pop], .bind 0, .emit [.ret]]

/-- A jump to a label behind which nothing is added. -/
def dangling : List Step :=
  [.newLabel, .emit [.jump .always 0], .bind 0]

/-- The jump forward is built and read back with its target; the other one is built as well, and
cannot be read. -/
theorem build_reads_back_forward :
    (∃ body code, (run { locals := #[] } forward).build = .ok body ∧
      Code.decode body.code = .ok code ∧ code.instrs =
        [.loadArg 0, .jump .ifTrue 4, .constI32 7, .plain .pop, .ret]) ∧
    ∃ body, (run { locals := #[] } dangling).build = .ok body ∧
      ¬ ∃ code, Code.decode body.code = .ok code := by
  constructor
  · obtain ⟨body, built, short⟩ : ∃ body, (run { locals := #[] } forward).build = .ok body ∧
        body.code.length < 2 ^ 31 := ⟨_, rfl, by decide⟩
    have last : LastBind forward 0 [.newLabel, .emit [.loadArg 0], .emit [.jump .ifTrue 0],
        .emit [.constI32 7, .plain .pop]] [.emit [.ret]] := ⟨rfl, by decide, by decide⟩
    have followed : AllFollowed forward := by
      have only : ∀ instr ∈ emitted forward, ∀ label ∈ instr.target?, label = 0 := by decide
      intro instr member label leads before after other
      cases only instr member label leads
      rw [← (last.unique other).2]
      decide
    rcases ((build_reads_back [] forward).2 body built).2 short with ⟨readable, kept⟩
    rcases readable.mpr followed with ⟨code, read⟩
    rcases kept code read with ⟨place, same, placed⟩
    refine ⟨body, code, built, read, ?_⟩
    rw [same]
    simp [forward, emitted, Instruction.mapTarget, Instr.loadArg, Instr.ret,
      (placed 0 _ _ last).1]
  · obtain ⟨body, built, short⟩ : ∃ body, (run { locals := #[] } dangling).build = .ok body ∧
        body.code.length < 2 ^ 31 := ⟨_, rfl, by decide⟩
    have ends : LastBind dangling 0 [.newLabel, .emit [.jump .always 0]] [] :=
      ⟨rfl, by decide, by decide⟩
    refine ⟨body, built, ?_⟩
    rw [(((build_reads_back [] dangling).2 body built).2 short).1]
    intro followed
    exact followed _ (List.mem_singleton_self _) 0 rfl _ _ ends rfl

end Builder

end NativeWeave
