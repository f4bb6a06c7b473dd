import NativeWeave.Proofs.Outcome
import NativeWeave.Weaving

namespace NativeWeave

/-!
# The stages of a run

A module is woven by a run over its structs and then over its classes, both in their order, and each
step hashes and edits one type.  What a step does and which stages a run goes through is said here
once; a property of a run is followed from its start through these stages.
-/

namespace Draft

variable {draft : Draft} {scope : Scope} {bindings : Bindings}

/-- A draft starts as the module at hand. -/
theorem eq_of_start (begun : Draft.start scope bindings = .ok draft) :
    draft = ⟨scope.config, scope.module, scope.module, []⟩ := by
  unfold Draft.start at begun
  split at begun
  · rcases bind_eq_ok_iff.mp begun with ⟨_, _, final⟩
    exact (Except.ok.inj final).symm
  · exact (Except.ok.inj begun).symm

theorem checkCollaborators_of_start (begun : Draft.start scope bindings = .ok draft)
    (needed : bindings.needCode = true) : scope.checkCollaborators bindings.categories = .ok () := by
  unfold Draft.start at begun
  rw [if_pos needed] at begun
  rcases bind_eq_ok_iff.mp begun with ⟨_, checked, _⟩
  exact checked

end Draft

/-- A name is marked only if it was not marked before. -/
theorem Ledger.mark_eq_ok {ledger next : Ledger} {name : QualifiedName}
    (marked : ledger.mark name = .ok next) :
    name ∉ ledger.processed ∧ next.processed = name :: ledger.processed := by
  unfold Ledger.mark at marked
  split at marked
  · cases marked
  · rename_i fresh
    cases marked
    exact ⟨by simpa [isProcessed] using fresh, rfl⟩

namespace Progress

variable {bindings : Bindings} {progress next : Progress} {name : QualifiedName}

theorem exists_of_processStruct (step : progress.processStruct bindings name = .ok next) :
    name ∉ progress.ledger.processed ∧ next.ledger.processed = name :: progress.ledger.processed ∧
      ∃ binding, bindings.findStruct? name = some binding ∧
        progress.draft.editStruct binding = .ok next.draft ∧
        ∃ hash, progress.known.addStruct bindings binding = .ok (hash, next.known) := by
  rcases bind_eq_ok_iff.mp step with ⟨ledger, marked, step⟩
  rcases bind_eq_ok_iff.mp step with ⟨binding, bound, step⟩
  rcases bind_eq_ok_iff.mp step with ⟨⟨hash, known⟩, hashed, step⟩
  rcases bind_eq_ok_iff.mp step with ⟨draft, edited, final⟩
  cases final
  rcases Ledger.mark_eq_ok marked with ⟨fresh, recorded⟩
  exact ⟨fresh, recorded, binding, Weave.ofOption_eq_ok bound, edited, hash, hashed⟩

theorem exists_of_processClass (step : progress.processClass bindings name = .ok next) :
    name ∉ progress.ledger.processed ∧ next.ledger.processed = name :: progress.ledger.processed ∧
      ∃ binding, bindings.findClass? name = some binding ∧
        progress.draft.editClass binding = .ok next.draft ∧
        ∃ hash, progress.known.addClass bindings progress.draft.source binding =
          .ok (hash, next.known) := by
  rcases bind_eq_ok_iff.mp step with ⟨ledger, marked, step⟩
  rcases bind_eq_ok_iff.mp step with ⟨binding, bound, step⟩
  rcases bind_eq_ok_iff.mp step with ⟨⟨hash, known⟩, hashed, step⟩
  rcases bind_eq_ok_iff.mp step with ⟨draft, edited, final⟩
  cases final
  rcases Ledger.mark_eq_ok marked with ⟨fresh, recorded⟩
  exact ⟨fresh, recorded, binding, Weave.ofOption_eq_ok bound, edited, hash, hashed⟩

end Progress

namespace Scope

variable {scope : Scope} {bindings : Bindings} {progress : Progress}

/-- A run in its stages: the orders, the draft that it starts with, and what it has come to when all
structs and when all classes are processed. -/
structure Stages (scope : Scope) (bindings : Bindings) (structs classes : List QualifiedName)
    (middle last : Progress) : Prop where
  structsOrdered : bindings.structOrder = .ok structs
  classesOrdered : bindings.classOrder = .ok classes
  begun : Draft.start scope bindings = .ok ⟨scope.config, scope.module, scope.module, []⟩
  first : structs.foldlM (Progress.processStruct bindings)
    { draft := ⟨scope.config, scope.module, scope.module, []⟩ } = .ok middle
  second : classes.foldlM (Progress.processClass bindings) middle = .ok last

/-- Enumerations are marked in the end, and nothing else is done for them. -/
theorem exists_stages_of_process (run : scope.process bindings = .ok progress) :
    ∃ structs classes middle last ledger, scope.Stages bindings structs classes middle last ∧
      progress = { last with ledger } := by
  rcases bind_eq_ok_iff.mp run with ⟨structs, structsOrdered, run⟩
  rcases bind_eq_ok_iff.mp run with ⟨classes, classesOrdered, run⟩
  rcases bind_eq_ok_iff.mp run with ⟨draft, begun, run⟩
  rcases bind_eq_ok_iff.mp run with ⟨middle, first, run⟩
  rcases bind_eq_ok_iff.mp run with ⟨last, second, run⟩
  rcases bind_eq_ok_iff.mp run with ⟨ledger, _, final⟩
  cases Draft.eq_of_start begun
  exact ⟨structs, classes, middle, last, ledger,
    ⟨structsOrdered, classesOrdered, begun, first, second⟩, (Except.ok.inj final).symm⟩

/-- What holds at the start and is kept by each step holds in the end. -/
theorem Stages.induction {structs classes : List QualifiedName} {middle last : Progress}
    (stages : scope.Stages bindings structs classes middle last) (holds : Progress → Prop)
    (start : holds { draft := ⟨scope.config, scope.module, scope.module, []⟩ })
    (structStep : ∀ progress name next, holds progress →
      progress.processStruct bindings name = .ok next → holds next)
    (classStep : ∀ progress name next, holds progress →
      progress.processClass bindings name = .ok next → holds next) : holds last := by
  have reached : holds middle := foldlM_induction holds start
    (fun progress name next _ => structStep progress name next) stages.first
  exact foldlM_induction holds reached
    (fun progress name next _ => classStep progress name next) stages.second

end Scope

end NativeWeave
