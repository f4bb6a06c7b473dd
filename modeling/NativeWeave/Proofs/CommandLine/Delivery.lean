import NativeWeave.CommandLine.Weave
import NativeWeave.Proofs.Binding.Observation
import NativeWeave.Proofs.CommandLine.Location
import NativeWeave.Proofs.Format.Module

namespace NativeWeave

/-!
# What is reported is what was written

A module that is reported as woven has been written: its output holds the encoding of the woven
module and its sidecar the report, and nothing is written for any other module.  Modules are handled
one after the other, and outputs are named by the file names of the modules alone, so that a later
module can be written over an earlier one.  What no later module is reported to have been written to
is still there at the end.
-/

/-! ## Steps that can fail -/

namespace Loading

variable {α β : Type} {disk after : Disk}

/-- Two steps end with the failure of the first or with the second. -/
theorem bind_of_ran {first : StateM Disk α} {next : α → StateM Disk β} {value : α}
    (ran : first disk = (value, after)) : (first >>= next) disk = next value after := by
  change next (first disk).1 (first disk).2 = _
  rw [ran]

theorem bind_eq {first : Loading (StateM Disk) α} {next : α → Loading (StateM Disk) β}
    {result : Except Failure β} (run : (first >>= next).run disk = (result, after)) :
    (∃ failure, first.run disk = (.error failure, after) ∧ result = .error failure) ∨
      ∃ value middle, first.run disk = (.ok value, middle) ∧
        (next value).run middle = (result, after) := by
  change (ExceptT.bindCont next (first.run disk).1) (first.run disk).2 = _ at run
  cases ran : first.run disk with
  | mk found middle =>
    rw [ran] at run
    cases found with
    | error failure =>
      cases run
      exact .inl ⟨failure, rfl, rfl⟩
    | ok value => exact .inr ⟨value, middle, rfl, run⟩

theorem attempt_eq {operation : StateM Disk (Except FileError α)} {failure : FileError → Failure}
    {result : Except Failure α} (run : (attempt operation failure).run disk = (result, after)) :
    (∃ error, operation disk = (.error error, after) ∧ result = .error (failure error)) ∨
      ∃ value, operation disk = (.ok value, after) ∧ result = .ok value := by
  rcases bind_eq run with ⟨other, impossible, _⟩ | ⟨found, middle, ran, last⟩
  · cases impossible
  · cases ran
    cases ended : operation disk with
    | mk found middle =>
      rw [ended] at last
      cases found with
      | error error =>
        cases last
        exact .inl ⟨error, rfl, rfl⟩
      | ok value =>
        cases last
        exact .inr ⟨value, rfl, rfl⟩

/-- Reading a module changes no file. -/
theorem module_eq {path : Path} {result : Except Failure Module}
    (run : (module path : Loading (StateM Disk) Module).run disk = (result, after)) :
    after = disk ∧ ∀ module, result = .ok module →
      ∃ bytes, disk.read path = .ok bytes ∧ Module.decode bytes = .ok module := by
  rcases bind_eq run with ⟨failure, ran, rfl⟩ | ⟨bytes, middle, ran, last⟩
  · rcases attempt_eq ran with ⟨error, read, _⟩ | ⟨_, _, impossible⟩
    · exact ⟨(congrArg Prod.snd read).symm, fun _ impossible => nomatch impossible⟩
    · cases impossible
  · rcases attempt_eq ran with ⟨_, _, impossible⟩ | ⟨_, read, same⟩
    · cases impossible
    · cases same
      have still : disk = middle := congrArg Prod.snd read
      have held : disk.read path = .ok bytes := congrArg Prod.fst read
      subst still
      cases decoded : Module.decode bytes with
      | error error =>
        rw [decoded] at last
        cases last
        exact ⟨rfl, fun _ impossible => nomatch impossible⟩
      | ok module =>
        rw [decoded] at last
        cases last
        exact ⟨rfl, fun _ same => ⟨bytes, held, Except.ok.inj same ▸ decoded⟩⟩

end Loading

/-- An operation that changes the disk is refused or made. -/
theorem Disk.change_eq {operation : Disk → Except FileError Disk} {disk after : Disk}
    {result : Except FileError Unit} (run : Disk.change operation disk = (result, after)) :
    (∃ error, result = .error error) ∨ operation disk = .ok after := by
  unfold Disk.change at run
  split at run
  · next changed made =>
    cases run
    exact .inr made
  · cases run
    exact .inl ⟨_, rfl⟩

/-! ## One module -/

/-- The path leads to an entry of the directory. -/
def Path.IsEntryOf (path directory : Path) : Prop :=
  ∃ name, EntryName name ∧ path = directory.join name

/-- Different entries of a directory are at different places. -/
theorem Path.IsEntryOf.place_ne {path other directory : Path} {disk later : Disk}
    {place there : Place} (entry : path.IsEntryOf directory) (entry' : other.IsEntryOf directory)
    (different : path ≠ other) (located : disk.locate path = .ok place)
    (located' : later.locate other = .ok there) : place ≠ there := by
  rcases entry with ⟨name, proper, rfl⟩
  rcases entry' with ⟨name', proper', rfl⟩
  exact Disk.place_ne_of_locate proper proper' (fun same => different (same ▸ rfl)) located located'

namespace Disk

/-- The path leads to a file with these contents. -/
def Holds (disk : Disk) (path : Path) (bytes : Bytes) : Prop :=
  ∃ place, disk.locate path = .ok place ∧ disk.contents? place = some bytes

variable {disk after : Disk} {path other directory : Path} {bytes written : Bytes}

theorem Holds.read (holds : disk.Holds path bytes) : disk.read path = .ok bytes := by
  rcases holds with ⟨place, located, held⟩
  exact read_eq_ok located held

theorem holds_of_write (run : disk.write path bytes = .ok after) : after.Holds path bytes := by
  rcases write_eq_ok run with ⟨place, located, rfl⟩
  exact ⟨place, locate_of_growsTo (growsTo_put _ _ _) located, contents?_put _ _ _⟩

/-- A file stays as it is when another entry of its directory is written. -/
theorem Holds.write (holds : disk.Holds path bytes) (entry : path.IsEntryOf directory)
    (entry' : other.IsEntryOf directory) (different : path ≠ other)
    (run : disk.write other written = .ok after) : after.Holds path bytes := by
  rcases holds with ⟨place, located, held⟩
  rcases write_eq_ok run with ⟨there, located', rfl⟩
  refine ⟨place, locate_of_growsTo (growsTo_put _ _ _) located, ?_⟩
  rw [contents?_put_of_ne _ _ (entry.place_ne entry' different located located')]
  exact held

theorem Holds.makeDirectories (holds : disk.Holds path bytes)
    (run : disk.makeDirectories other = .ok after) : after.Holds path bytes := by
  rcases holds with ⟨place, located, held⟩
  rcases makeDirectories_eq_ok run with ⟨grows, files⟩
  refine ⟨place, locate_of_growsTo grows located, ?_⟩
  rw [contents?, files]
  exact held

end Disk

namespace ModuleOutcome

/-- The files that were written according to the outcome. -/
def files : ModuleOutcome → List Path
  | .woven files _ => files.module :: files.sidecar.toList
  | _ => []

/-- Writing was refused. -/
def FailedToWrite (outcome : ModuleOutcome) : Prop :=
  ∃ path error, outcome = .failed (.ofWrite path error)

end ModuleOutcome

namespace WeaveRequest

variable {context : Context} {outDir source : Path} {disk after : Disk} {sidecar : Bool}
  {woven : WovenModule} {files : WrittenFiles}

/-- A woven module is at its output, its report is beside it if that is wanted, and all other entries
of the output directory are what they were. -/
structure Wrote (outDir source : Path) (sidecar : Bool) (woven : WovenModule) (files : WrittenFiles)
    (disk after : Disk) : Prop where
  names : ∃ name stem, source.fileName? = some name ∧ source.stem? = some stem ∧
    files.module = outDir.join name ∧
    files.sidecar = if sidecar then some (outDir.join (stem ++ ".tether.json")) else none
  module : after.Holds files.module woven.module.encode
  report : ∀ path ∈ files.sidecar, after.Holds path (Bytes.ofString woven.report.toJson.pretty)
  spares : ∀ path bytes, path.IsEntryOf outDir → path ∉ files.module :: files.sidecar.toList →
    disk.Holds path bytes → after.Holds path bytes

/-- The files written for a module are entries of the output directory. -/
theorem Wrote.isEntryOf (wrote : Wrote outDir source sidecar woven files disk after) :
    ∀ path ∈ files.module :: files.sidecar.toList, path.IsEntryOf outDir := by
  rcases wrote.names with ⟨name, stem, named, stemmed, own, beside⟩
  rw [List.forall_mem_cons, own, beside]
  refine ⟨⟨name, Path.entryName_of_fileName? named, rfl⟩, fun path listed => ?_⟩
  split at listed
  · cases List.mem_singleton.mp listed
    exact ⟨_, (Path.entryName_report stemmed named).1, rfl⟩
  · cases listed

/-- One file is written, or writing is refused. -/
theorem write_eq {path : Path} {bytes : Bytes} {result : Except Failure Unit}
    (run : (Loading.attempt (FileAccess.write path bytes) (Failure.ofWrite path) :
      Loading (StateM Disk) Unit).run disk = (result, after)) :
    (∃ error, result = .error (.ofWrite path error)) ∨
      result = .ok () ∧ disk.write path bytes = .ok after := by
  rcases Loading.attempt_eq run with ⟨error, _, rfl⟩ | ⟨_, changed, rfl⟩
  · exact .inl ⟨error, rfl⟩
  · rcases Disk.change_eq changed with ⟨_, impossible⟩ | written
    · cases impossible
    · exact .inr ⟨rfl, written⟩

/-- Writing is refused, or nothing is written for want of a name, or all is written. -/
theorem writeFiles_eq {result : Except Failure WrittenFiles}
    (run : (writeFiles outDir sidecar source woven : Loading (StateM Disk) WrittenFiles).run disk =
      (result, after)) :
    (∃ path error, result = .error (.ofWrite path error)) ∨
      (result = .error (.ofNameless source) ∧ after = disk) ∨
      ∃ files, result = .ok files ∧ Wrote outDir source sidecar woven files disk after := by
  unfold writeFiles at run
  cases named : source.fileName? with
  | none =>
    rw [named] at run
    cases run
    exact .inr (.inl ⟨rfl, rfl⟩)
  | some name =>
    have stemmed : source.stem? = some (Path.splitExtension name).1 := by
      rw [Path.stem?, named]
      rfl
    have proper := Path.entryName_of_fileName? named
    rcases Path.entryName_report stemmed named with ⟨proper', different⟩
    rw [named, stemmed] at run
    rcases Loading.bind_eq run with ⟨failure, ran, rfl⟩ | ⟨_, made, ran, run⟩
    · rcases Loading.attempt_eq ran with ⟨error, _, same⟩ | ⟨_, _, impossible⟩
      · cases same
        exact .inl ⟨_, error, rfl⟩
      · cases impossible
    rcases Loading.attempt_eq ran with ⟨_, _, impossible⟩ | ⟨_, changed, _⟩
    · cases impossible
    rcases Disk.change_eq changed with ⟨_, impossible⟩ | madeDirectories
    · cases impossible
    rcases Loading.bind_eq run with ⟨failure, ran, rfl⟩ | ⟨_, middle, ran, run⟩
    · rcases write_eq ran with ⟨error, same⟩ | ⟨impossible, _⟩
      · cases same
        exact .inl ⟨_, error, rfl⟩
      · cases impossible
    rcases write_eq ran with ⟨_, impossible⟩ | ⟨_, written⟩
    · cases impossible
    have module := Disk.holds_of_write written
    have own : (outDir.join name).IsEntryOf outDir := ⟨name, proper, rfl⟩
    cases sidecar with
    | false =>
      cases run
      refine .inr (.inr ⟨_, rfl, ⟨name, _, named, stemmed, rfl, rfl⟩, module,
        (fun _ impossible => nomatch impossible), fun path bytes entry others holds => ?_⟩)
      exact (holds.makeDirectories madeDirectories).write entry own
        (List.ne_of_not_mem_cons others) written
    | true =>
      rcases Loading.bind_eq run with ⟨failure, ran, rfl⟩ | ⟨_, last, ran, run⟩
      · rcases write_eq ran with ⟨error, same⟩ | ⟨impossible, _⟩
        · cases same
          exact .inl ⟨_, error, rfl⟩
        · cases impossible
      rcases write_eq ran with ⟨_, impossible⟩ | ⟨_, reported⟩
      · cases impossible
      cases run
      have beside : (outDir.join ((Path.splitExtension name).1 ++ ".tether.json")).IsEntryOf outDir :=
        ⟨_, proper', rfl⟩
      refine .inr (.inr ⟨_, rfl, ⟨name, _, named, stemmed, rfl, rfl⟩,
        module.write own beside (Path.join_ne proper proper' different) reported, ?_, fun path bytes entry others holds => ?_⟩)
      · rintro path ⟨⟩
        exact Disk.holds_of_write reported
      · refine ((holds.makeDirectories madeDirectories).write entry own ?_ written).write entry beside
          ?_ reported
        · exact List.ne_of_not_mem_cons others
        · exact List.ne_of_not_mem_cons (List.not_mem_of_not_mem_cons others)

/-- What is concluded about a module: writing is refused, nothing is written, or the module was woven
and written. -/
theorem conclude_eq {module : Module} {result : Except Failure ModuleOutcome}
    (run : (conclude context outDir source module : Loading (StateM Disk) ModuleOutcome).run disk =
      (result, after)) :
    (∃ path error, result = .error (.ofWrite path error)) ∨
      ((∀ outcome, result = .ok outcome → outcome.files = []) ∧ after = disk) ∨
      ∃ files woven, result = .ok (.woven files woven.diagnostics) ∧
        Scope.weave ⟨context, module⟩ = .ok (.woven woven) ∧
        Wrote outDir source context.config.sidecar woven files disk after := by
  have silent : ∀ (result : Except Failure ModuleOutcome) outcome, result = .ok outcome →
      outcome.files = [] → ∀ other, result = .ok other → other.files = [] := by
    rintro _ _ rfl none other ⟨⟩
    exact none
  unfold conclude at run
  cases weaving : Scope.weave ⟨context, module⟩ with
  | error error =>
    rw [weaving] at run
    refine .inr (.inl ?_)
    cases error <;> cases run <;>
      first | exact ⟨silent _ _ rfl rfl, rfl⟩ | exact ⟨nofun, rfl⟩
  | ok outcome =>
    rw [weaving] at run
    cases outcome with
    | noBindings =>
      cases run
      exact .inr (.inl ⟨silent _ _ rfl rfl, rfl⟩)
    | rejected diagnostics =>
      cases run
      exact .inr (.inl ⟨silent _ _ rfl rfl, rfl⟩)
    | woven woven =>
      rcases Loading.bind_eq run with ⟨failure, writing, rfl⟩ | ⟨files, last, writing, final⟩
      · rcases writeFiles_eq writing with ⟨path, error, same⟩ | ⟨_, still⟩ | ⟨_, impossible, _⟩
        · cases same
          exact .inl ⟨path, error, rfl⟩
        · exact .inr (.inl ⟨fun _ impossible => (nomatch impossible), still⟩)
        · cases impossible
      · cases final
        rcases writeFiles_eq writing with ⟨_, _, impossible⟩ | ⟨impossible, _⟩ | ⟨_, same, wrote⟩
        · cases impossible
        · cases impossible
        · cases same
          exact .inr (.inr ⟨files, woven, rfl, rfl, wrote⟩)

/-- The module that was read from the source was woven and written. -/
structure Delivered (context : Context) (outDir source : Path) (files : WrittenFiles)
    (diagnostics : List Diagnostic) (woven : WovenModule) (disk after : Disk) : Prop where
  origin : ∃ bytes module, disk.read source = .ok bytes ∧ Module.decode bytes = .ok module ∧
    Scope.weave ⟨context, module⟩ = .ok (.woven woven)
  diagnostics : diagnostics = woven.diagnostics
  wrote : Wrote outDir source context.config.sidecar woven files disk after

/-- A step over one module is refused to write, or writes nothing, or delivers the module. -/
theorem weaveModule_eq {outcome : ModuleOutcome}
    (run : (weaveModule context outDir source : StateM Disk ModuleOutcome) disk =
      (outcome, after)) :
    outcome.FailedToWrite ∨ (outcome.files = [] ∧ after = disk) ∨
      ∃ files diagnostics woven, outcome = .woven files diagnostics ∧
        Delivered context outDir source files diagnostics woven disk after := by
  let steps : Loading (StateM Disk) ModuleOutcome := do
    conclude context outDir source (← Loading.module source)
  have ended : ∃ result, steps.run disk = (result, after) ∧
      ((∃ failure, result = .error failure ∧ outcome = .failed failure) ∨ result = .ok outcome) := by
    cases whole : steps.run disk with
    | mk result last =>
      replace run := (Loading.bind_of_ran whole).symm.trans run
      cases result with
      | error failure =>
        cases run
        exact ⟨_, rfl, .inl ⟨failure, rfl, rfl⟩⟩
      | ok outcome =>
        cases run
        exact ⟨_, rfl, .inr rfl⟩
  rcases ended with ⟨result, whole, ended⟩
  rcases Loading.bind_eq whole with ⟨failure, reading, rfl⟩ | ⟨module, middle, reading, concluding⟩
  · rcases ended with ⟨_, _, rfl⟩ | impossible
    · exact .inr (.inl ⟨rfl, (Loading.module_eq reading).1⟩)
    · cases impossible
  · rcases Loading.module_eq reading with ⟨still, decoded⟩
    rcases decoded module rfl with ⟨bytes, read, decoded⟩
    rw [still] at concluding
    rcases conclude_eq concluding with ⟨path, error, rfl⟩ | ⟨silent, same⟩ |
      ⟨files, woven, rfl, weaving, wrote⟩
    · rcases ended with ⟨_, same, rfl⟩ | impossible
      · cases same
        exact .inl ⟨path, error, rfl⟩
      · cases impossible
    · rcases ended with ⟨_, _, rfl⟩ | same'
      · exact .inr (.inl ⟨rfl, same⟩)
      · exact .inr (.inl ⟨silent outcome same', same⟩)
    · rcases ended with ⟨_, impossible, _⟩ | same
      · cases impossible
      · cases same
        exact .inr (.inr ⟨files, _, woven, rfl, ⟨bytes, module, read, decoded, weaving⟩, rfl, wrote⟩)

/-! ## Many modules -/

/-- Modules are handled one after the other, up to one at which the program stops. -/
theorem weaveModules_cons {more : List Path} {results : List (Path × ModuleOutcome)} {final : Disk}
    (run : (weaveModules context outDir (source :: more) : StateM Disk _) disk = (results, final)) :
    ∃ outcome after back, results = (source, outcome) :: back ∧
      (weaveModule context outDir source : StateM Disk ModuleOutcome) disk = (outcome, after) ∧
      ((outcome = .aborted ∧ back = [] ∧ final = after) ∨ outcome ≠ .aborted ∧
        (weaveModules context outDir more : StateM Disk _) after = (back, final)) := by
  cases step : (weaveModule context outDir source : StateM Disk ModuleOutcome) disk with
  | mk outcome after =>
    simp only [weaveModules, bind, StateT.bind, step] at run
    split at run
    · next stops =>
      cases run
      exact ⟨outcome, _, [], rfl, rfl, .inl ⟨stops, rfl, rfl⟩⟩
    · next goes =>
      cases others : (weaveModules context outDir more : StateM Disk _) after with
      | mk back last =>
        change (((source, outcome) :: ((weaveModules context outDir more : StateM Disk _) after).1),
          ((weaveModules context outDir more : StateM Disk _) after).2) = _ at run
        rw [others] at run
        cases run
        exact ⟨outcome, after, back, rfl, rfl, .inr ⟨goes, others⟩⟩

/-- A step at which the program does not stop is followed by the other modules. -/
theorem weaveModules_of_step {more : List Path} {outcome : ModuleOutcome}
    {back : List (Path × ModuleOutcome)} {final : Disk}
    (step : (weaveModule context outDir source : StateM Disk ModuleOutcome) disk = (outcome, after))
    (goes : outcome ≠ .aborted)
    (others : (weaveModules context outDir more : StateM Disk _) after = (back, final)) :
    (weaveModules context outDir (source :: more) : StateM Disk _) disk =
      ((source, outcome) :: back, final) := by
  simp only [weaveModules, bind, StateT.bind, step]
  rw [if_neg goes]
  change (((source, outcome) :: ((weaveModules context outDir more : StateM Disk _) after).1),
    ((weaveModules context outDir more : StateM Disk _) after).2) = _
  rw [others]

/-- What a file of the output directory holds stays there while modules are handled of which none is
reported to be written to it. -/
theorem holds_of_weaveModules {sources : List Path} {results : List (Path × ModuleOutcome)}
    {final : Disk} {path : Path} {bytes : Bytes} (entry : path.IsEntryOf outDir)
    (run : (weaveModules context outDir sources : StateM Disk _) disk = (results, final))
    (written : ∀ result ∈ results, ¬ result.2.FailedToWrite)
    (others : ∀ result ∈ results, path ∉ result.2.files) (holds : disk.Holds path bytes) :
    final.Holds path bytes := by
  induction sources generalizing disk results with
  | nil =>
    cases run
    exact holds
  | cons source more ih =>
    rcases weaveModules_cons run with ⟨outcome, middle, back, rfl, step, rest⟩
    rw [List.forall_mem_cons] at written others
    have here : middle.Holds path bytes := by
      rcases weaveModule_eq step with refused | ⟨_, rfl⟩ | ⟨files, diagnostics, woven, rfl, delivered⟩
      · exact absurd refused written.1
      · exact holds
      · exact delivered.wrote.spares path bytes entry others.1 holds
    rcases rest with ⟨_, rfl, rfl⟩ | ⟨_, rest⟩
    · exact here
    · exact ih rest written.2 others.2 here

/-- Every result is that of one step, with the results before it and behind it on either side. -/
theorem exists_step_of_weaveModules {sources : List Path} {results : List (Path × ModuleOutcome)}
    {final : Disk}
    (run : (weaveModules context outDir sources : StateM Disk _) disk = (results, final))
    {front back : List (Path × ModuleOutcome)} {outcome : ModuleOutcome}
    (split : results = front ++ (source, outcome) :: back) :
    ∃ before after rest, sources = front.map (·.1) ++ source :: rest ∧
      (weaveModules context outDir (front.map (·.1)) : StateM Disk _) disk = (front, before) ∧
      (weaveModule context outDir source : StateM Disk ModuleOutcome) before = (outcome, after) ∧
      ((back = [] ∧ final = after) ∨
        (weaveModules context outDir rest : StateM Disk _) after = (back, final)) := by
  induction front generalizing disk sources results with
  | nil =>
    cases sources with
    | nil =>
      cases run
      cases split
    | cons first rest =>
      rcases weaveModules_cons run with ⟨_, after, _, rfl, step, later⟩
      cases split
      exact ⟨disk, after, rest, rfl, rfl, step, later.imp And.right And.right⟩
  | cons head front ih =>
    cases sources with
    | nil =>
      cases run
      cases split
    | cons first more =>
      rcases weaveModules_cons run with ⟨result, middle, others, rfl, step, later⟩
      cases split
      rcases later with ⟨_, impossible, _⟩ | ⟨goes, later⟩
      · exact absurd impossible (List.append_ne_nil_of_right_ne_nil _ (List.cons_ne_nil _ _))
      · rcases ih later rfl with ⟨before, after, rest, rfl, early, here, late⟩
        exact ⟨before, after, rest, rfl, weaveModules_of_step step goes early, here, late⟩

/-- Where every write succeeds, each module that is reported as woven is the module that was read from
its path when its turn came, woven; its output is the encoding of that and its sidecar the report, and
so they are at the end, unless a later module is reported to have been written to the same path.  For
a module with any other outcome no file changes. -/
theorem weaveModules_delivers (context : Context) (outDir : Path) {sources : List Path}
    {results : List (Path × ModuleOutcome)} {disk final : Disk}
    (run : (weaveModules context outDir sources : StateM Disk _) disk = (results, final))
    (written : ∀ result ∈ results, ¬ result.2.FailedToWrite)
    {front back : List (Path × ModuleOutcome)} {source : Path} {outcome : ModuleOutcome}
    (split : results = front ++ (source, outcome) :: back) :
    ∃ before after rest, sources = front.map (·.1) ++ source :: rest ∧
      (weaveModules context outDir (front.map (·.1)) : StateM Disk _) disk = (front, before) ∧
      (weaveModule context outDir source : StateM Disk ModuleOutcome) before = (outcome, after) ∧
      ((∀ files diagnostics, outcome ≠ .woven files diagnostics) → after = before) ∧
      ∀ files diagnostics, outcome = .woven files diagnostics →
        ∃ bytes module woven name stem,
          before.read source = .ok bytes ∧ Module.decode bytes = .ok module ∧
          Scope.weave ⟨context, module⟩ = .ok (.woven woven) ∧ diagnostics = woven.diagnostics ∧
          source.fileName? = some name ∧ source.stem? = some stem ∧
          files.module = outDir.join name ∧
          files.sidecar = (if context.config.sidecar then
            some (outDir.join (stem ++ ".tether.json")) else none) ∧
          ((∀ later ∈ back, files.module ∉ later.2.files) →
            final.read files.module = .ok woven.module.encode) ∧
          ∀ report ∈ files.sidecar, (∀ later ∈ back, report ∉ later.2.files) →
            final.read report = .ok (Bytes.ofString woven.report.toJson.pretty) := by
  rcases exists_step_of_weaveModules run split with ⟨before, after, rest, whole, early, step, late⟩
  rw [split, List.forall_mem_append, List.forall_mem_cons] at written
  refine ⟨before, after, rest, whole, early, step, fun unwoven => ?_, ?_⟩
  · rcases weaveModule_eq step with refused | ⟨_, still⟩ | ⟨files, diagnostics, _, same, _⟩
    · exact absurd refused written.2.1
    · exact still
    · exact absurd same (unwoven files diagnostics)
  · rintro files diagnostics rfl
    rcases weaveModule_eq step with refused | ⟨impossible, _⟩ | ⟨_, _, woven, same, delivered⟩
    · exact absurd refused written.2.1
    · cases impossible
    cases same
    rcases delivered.origin with ⟨bytes, module, read, decoded, weaving⟩
    rcases delivered.wrote.names with ⟨name, stem, named, stemmed, own, beside⟩
    have stays : ∀ path ∈ files.module :: files.sidecar.toList, ∀ bytes, after.Holds path bytes →
        (∀ later ∈ back, path ∉ later.2.files) → final.read path = .ok bytes := by
      intro path listed bytes holds others
      rcases late with ⟨_, rfl⟩ | late
      · exact holds.read
      · exact (holds_of_weaveModules (delivered.wrote.isEntryOf path listed) late written.2.2 others
          holds).read
    exact ⟨bytes, module, woven, name, stem, read, decoded, weaving, delivered.diagnostics, named,
      stemmed, own, beside, stays _ List.mem_cons_self _ delivered.wrote.module,
      fun report listed => stays report
        (List.mem_cons_of_mem _ (Option.mem_toList.mpr listed)) _
        (delivered.wrote.report report listed)⟩

end WeaveRequest

/-! ## Two copies of a module -/

namespace Loading

variable {α β : Type} {disk middle : Disk}

theorem bind_of_ok {first : Loading (StateM Disk) α} {next : α → Loading (StateM Disk) β}
    {value : α} (run : first.run disk = (.ok value, middle)) :
    (first >>= next).run disk = (next value).run middle := by
  change (ExceptT.bindCont next (first.run disk).1) (first.run disk).2 = _
  rw [run]
  rfl

/-- A file that holds a module is read. -/
theorem module_of_read {path : Path} {bytes : Bytes} {module : Module}
    (read : disk.read path = .ok bytes) (decoded : Module.decode bytes = .ok module) :
    (Loading.module path : Loading (StateM Disk) Module).run disk = (.ok module, disk) := by
  have taken : (attempt (FileAccess.read path) (Failure.ofRead path) :
      Loading (StateM Disk) Bytes).run disk = (.ok bytes, disk) := by
    have lifted : (liftM (FileAccess.read path : StateM Disk (Except FileError Bytes)) :
        Loading (StateM Disk) _).run disk = (.ok (.ok bytes), disk) := by
      change (Except.ok (disk.read path), disk) = _
      rw [read]
    exact (bind_of_ok lifted).trans rfl
  refine (bind_of_ok taken).trans ?_
  rw [decoded]
  rfl

end Loading

namespace Stance

open WeaveRequest

variable {bytes : Bytes} {module : Module} {woven : WovenModule}

theorem weaveModule_of_read {context : Context} {outDir source : Path} {disk after : Disk}
    {outcome : ModuleOutcome} (read : disk.read source = .ok bytes)
    (decoded : Module.decode bytes = .ok module)
    (concluded : (conclude context outDir source module : Loading (StateM Disk) _).run disk =
      (.ok outcome, after)) :
    (weaveModule context outDir source : StateM Disk _) disk = (outcome, after) := by
  let steps : Loading (StateM Disk) ModuleOutcome :=
    Loading.module source >>= conclude context outDir source
  have ended : steps.run disk = (.ok outcome, after) :=
    (Loading.bind_of_ok (Loading.module_of_read read decoded)).trans concluded
  exact Loading.bind_of_ran ended

theorem decode_encode : Module.decode (scope "Calm").module.encode = .ok (scope "Calm").module := by
  have fits : (scope "Calm").module.Fits := by
    simp +decide [scope, type, Module.empty, Module.fits_iff, Tables.fits_iff, TypeDef.fits_iff,
      Field.fits_iff, Attribute.fits_iff, NamedArgumentFits, AttributeValue.Fits, Signature.Fits,
      QualifiedName.fits_iff, ListFits, OptionFits]
  exact Module.decode_of_reads _ (Module.restores_payload fits)

/-- Copies of a module in different directories and under different names. -/
def copies (bytes : Bytes) : Disk where
  files := [(⟨.above 0, ["a", "Calm.tmod"]⟩, bytes), (⟨.above 0, ["b", "Tense.tmod"]⟩, bytes)]

def outcome (woven : WovenModule) (name : String) : ModuleOutcome :=
  .woven ⟨⟨"out/" ++ name ++ ".tmod"⟩, some ⟨"out/" ++ name ++ ".tether.json"⟩⟩ woven.diagnostics

/-- Both copies are woven and written. -/
theorem exists_run (decoded : Module.decode bytes = .ok module)
    (weaving : Scope.weave ⟨{ modules := [] }, module⟩ = .ok (.woven woven)) : ∃ final,
    (weaveModules { modules := [] } ⟨"out"⟩ [⟨"a/Calm.tmod"⟩, ⟨"b/Tense.tmod"⟩] : StateM Disk _)
        (copies bytes) =
      ([(⟨"a/Calm.tmod"⟩, outcome woven "Calm"), (⟨"b/Tense.tmod"⟩, outcome woven "Tense")],
        final) := by
  let concludes := fun source : Path =>
    (conclude { modules := [] } ⟨"out"⟩ source module : Loading (StateM Disk) ModuleOutcome)
  obtain ⟨middle, final, first, read, second⟩ : ∃ middle final : Disk,
      (concludes ⟨"a/Calm.tmod"⟩).run (copies bytes) = (.ok (outcome woven "Calm"), middle) ∧
      middle.read ⟨"b/Tense.tmod"⟩ = .ok bytes ∧
      (concludes ⟨"b/Tense.tmod"⟩).run middle = (.ok (outcome woven "Tense"), final) := by
    simp only [concludes, conclude, weaving]
    exact ⟨_, _, rfl, rfl, rfl⟩
  exact ⟨final, weaveModules_of_step (weaveModule_of_read rfl decoded first) nofun
    (weaveModules_of_step (weaveModule_of_read read decoded second) nofun rfl)⟩

end Stance

/-- The output of the first copy is there at the end, and so is its report. -/
theorem WeaveRequest.weaveModules_delivers_stance : ∃ results final woven,
    (weaveModules { modules := [] } ⟨"out"⟩ [⟨"a/Calm.tmod"⟩, ⟨"b/Tense.tmod"⟩] : StateM Disk _)
      (Stance.copies (Stance.scope "Calm").module.encode) = (results, final) ∧
    (∀ result ∈ results, ¬ result.2.FailedToWrite) ∧
    results = [] ++ (⟨"a/Calm.tmod"⟩, Stance.outcome woven "Calm") ::
      [(⟨"b/Tense.tmod"⟩, Stance.outcome woven "Tense")] ∧
    final.read ⟨"out/Calm.tmod"⟩ = .ok woven.module.encode ∧
    final.read ⟨"out/Calm.tether.json"⟩ = .ok (Bytes.ofString woven.report.toJson.pretty) := by
  rcases Stance.exists_woven (.inl rfl) with ⟨woven, weaving, _⟩
  rcases Stance.exists_run Stance.decode_encode weaving with ⟨final, run⟩
  have written : ∀ result ∈ [((⟨"a/Calm.tmod"⟩ : Path), Stance.outcome woven "Calm"),
      (⟨"b/Tense.tmod"⟩, Stance.outcome woven "Tense")], ¬ result.2.FailedToWrite := by
    simp [ModuleOutcome.FailedToWrite, Stance.outcome]
  rcases weaveModules_delivers _ _ run written (List.nil_append _).symm with
    ⟨_, _, _, _, early, _, _, delivers⟩
  rcases delivers _ _ rfl with
    ⟨bytes, module, other, _, _, read, decoded, again, _, _, _, _, _, held, reported⟩
  have apart : ∀ path ∈ [(⟨"out/Calm.tmod"⟩ : Path), ⟨"out/Calm.tether.json"⟩],
      ∀ later ∈ [((⟨"b/Tense.tmod"⟩ : Path), Stance.outcome woven "Tense")],
        path ∉ later.2.files := by
    intro path listed later same
    cases List.mem_singleton.mp same
    revert path
    change ∀ path ∈ [(⟨"out/Calm.tmod"⟩ : Path), ⟨"out/Calm.tether.json"⟩],
      path ∉ [(⟨"out/Tense.tmod"⟩ : Path), ⟨"out/Tense.tether.json"⟩]
    decide
  cases early
  cases read
  cases Stance.decode_encode.symm.trans decoded
  cases weaving.symm.trans again
  exact ⟨_, final, woven, run, written, rfl, held (apart _ List.mem_cons_self),
    reported _ rfl (apart _ (List.mem_cons_of_mem _ List.mem_cons_self))⟩

end NativeWeave
