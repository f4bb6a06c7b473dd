import NativeWeave.Proofs.Bounds
import NativeWeave.Proofs.CommandLine.Delivery
import NativeWeave.Proofs.CommandLine.Folder

namespace NativeWeave

/-!
# Modules of one run do not matter to one another

All modules of a run are woven with the same settings, and each of them is read when its turn comes.
So what becomes of a module can depend on the modules before it only through the disk: through what
they have written, and through the directory that they have made.  If nothing of that is looked at
when the modules are read, then each comes to the same end as it does alone.
-/

/-! ## Settings -/

namespace Loading

variable {α β : Type}

/-- The step changes nothing on the disk. -/
def Looks (step : Loading (StateM Disk) α) : Prop :=
  ∀ disk, (step.run disk).2 = disk

namespace Looks

theorem pure (value : α) : Looks (Pure.pure value : Loading (StateM Disk) α) :=
  fun _ => rfl

theorem throw (failure : Failure) : Looks (MonadExcept.throw failure : Loading (StateM Disk) α) :=
  fun _ => rfl

theorem bind {first : Loading (StateM Disk) α} {next : α → Loading (StateM Disk) β}
    (start : Looks first) (finish : ∀ value, Looks (next value)) : Looks (first >>= next) := by
  intro disk
  cases ran : (first >>= next).run disk with
  | mk result after =>
    have here := start disk
    rcases bind_eq ran with ⟨failure, failed, _⟩ | ⟨value, middle, passed, rest⟩
    · rw [failed] at here
      exact here
    · rw [passed] at here
      cases here
      have there := finish value middle
      rw [rest] at there
      exact there

theorem lift {step : StateM Disk α} (same : ∀ disk, (step disk).2 = disk) :
    Looks (ExceptT.lift step) :=
  same

theorem attempt {operation : StateM Disk (Except FileError α)} (failure : FileError → Failure)
    (same : ∀ disk, (operation disk).2 = disk) : Looks (Loading.attempt operation failure) := by
  refine bind same fun result => ?_
  cases result with
  | ok value => exact pure value
  | error error => exact throw (failure error)

theorem mapM {items : List α} {step : α → Loading (StateM Disk) β} (each : ∀ item, Looks (step item)) :
    Looks (items.mapM step) := by
  induction items with
  | nil =>
    rw [List.mapM_nil]
    exact pure []
  | cons item more ih =>
    rw [List.mapM_cons]
    exact bind (each item) fun first => bind ih fun others => pure (first :: others)

end Looks

theorem looks_module (path : Path) : Looks (module path : Loading (StateM Disk) Module) := by
  refine .bind (.attempt _ fun _ => rfl) fun bytes => ?_
  cases Module.decode bytes with
  | ok module => exact .pure module
  | error error => exact .throw _

theorem looks_text (path : Path) (failure : String → Failure) :
    Looks (text path failure : Loading (StateM Disk) String) := by
  refine .bind (.attempt _ fun _ => rfl) fun bytes => ?_
  cases Bytes.toString? bytes with
  | some text => exact .pure text
  | none => exact .throw _

theorem looks_config (path? : Option Path) : Looks (config path? : Loading (StateM Disk) Config) := by
  cases path? with
  | none => exact .pure ({} : Config)
  | some path =>
    refine .bind (looks_text path _) fun content => ?_
    cases Config.ofText content with
    | ok config => exact .pure config
    | error error => exact .throw _

theorem looks_manifest (path? : Option Path) :
    Looks (manifest path? : Loading (StateM Disk) Manifest) := by
  cases path? with
  | none => exact .pure ({} : Manifest)
  | some path =>
    refine .bind (looks_text path _) fun content => ?_
    cases Manifest.ofText? content with
    | some manifest => exact .pure manifest
    | none => exact .throw _

theorem looks_references (searchPaths : List Path) :
    Looks (references searchPaths : Loading (StateM Disk) (List Module)) := by
  have candidate : ∀ path, Looks (candidates path : Loading (StateM Disk) (List Path)) := by
    intro path
    refine .bind (.lift fun _ => rfl) fun isFile => ?_
    cases isFile with
    | true => exact .pure [path]
    | false =>
      refine .bind (.lift fun _ => rfl) fun isDirectory => ?_
      cases isDirectory with
      | true => exact .bind (.attempt _ fun _ => rfl) fun files => .pure _
      | false => exact .pure []
  have readable : ∀ paths disk, ((readable paths : StateM Disk (List Module)) disk).2 = disk := by
    intro paths
    induction paths with
    | nil => exact fun _ => rfl
    | cons path more ih =>
      intro disk
      change ((readable more : StateM Disk (List Module))
        ((module path : Loading (StateM Disk) Module).run disk).2).2 = disk
      rw [ih]
      exact looks_module path disk
  exact .bind (.mapM candidate) fun files => .lift (readable _)

/-- Loading the settings changes nothing on the disk. -/
theorem looks_context (config manifest : Option Path) (searchPaths : List Path) :
    Looks (context config manifest searchPaths : Loading (StateM Disk) Context) :=
  .bind (looks_config config) fun _ => .bind (looks_manifest manifest) fun _ =>
    .bind (looks_references searchPaths) fun _ => .pure _

end Loading

/-! ## One module on two disks -/

/-- A step ends the same way on two disks.  It changes neither, or it makes the directory for the
outputs on both and goes on to write the same. -/
structure SameStep {α : Type} (outDir : Path) (disk later : Disk) (first second : α × Disk) :
    Prop where
  result : second.1 = first.1
  disks : first.2 = disk ∧ second.2 = later ∨
    ∃ made, disk.makeDirectories outDir = .ok made ∧ Disk.Abreast made later first.2 second.2

namespace SameStep

variable {α : Type} {outDir : Path} {disk later : Disk} {first second : α × Disk}

theorem of_unchanged (value : α) : SameStep outDir disk later (value, disk) (value, later) where
  result := rfl
  disks := .inl ⟨rfl, rfl⟩

/-- The step leaves the second disk prepared. -/
theorem prepares (same : SameStep outDir disk later first second)
    (prepares : disk.Prepares outDir later) : disk.Prepares outDir second.2 := by
  rcases same.disks with ⟨_, unchanged⟩ | ⟨made, run, abreast⟩
  · rwa [unchanged]
  · exact abreast.prepares run

variable {place : Place}

/-- What the step leaves alone on the first disk is left alone on the second. -/
theorem sameAt_second (same : SameStep outDir disk later first second)
    (before : disk.SameAt later place) (alone : disk.SameAt first.2 place) :
    disk.SameAt second.2 place := by
  rcases same.disks with ⟨_, unchanged⟩ | ⟨made, _, abreast⟩
  · rwa [unchanged]
  · refine ⟨?_, ?_⟩
    · rw [abreast.right, ← abreast.left, alone.directory]
    · rcases abreast.contents place with ⟨_, kept⟩ | equal
      · exact kept.trans before.contents
      · exact equal.trans alone.contents

/-- What the step leaves as it was at first on the second disk is left alone on the first. -/
theorem sameAt_first (same : SameStep outDir disk later first second)
    (after : disk.SameAt second.2 place) : disk.SameAt first.2 place := by
  rcases same.disks with ⟨unchanged, _⟩ | ⟨made, run, abreast⟩
  · rw [unchanged]
    exact ⟨rfl, rfl⟩
  · refine ⟨?_, ?_⟩
    · rw [abreast.left, ← abreast.right, after.directory]
    · rcases abreast.contents place with ⟨kept, _⟩ | equal
      · rw [kept, Disk.contents?, (Disk.makeDirectories_eq_ok run).2]
        rfl
      · exact equal.symm.trans after.contents

end SameStep

namespace Loading

variable {α β : Type} {made later one other : Disk} {outDir folder' : Path}

/-- Runs on two disks end the same way, and the disks go on to be abreast. -/
def InStep (made later : Disk) (first second : Except Failure α × Disk) : Prop :=
  second.1 = first.1 ∧ Disk.Abreast made later first.2 second.2

theorem InStep.bind {first : Loading (StateM Disk) α} {next : α → Loading (StateM Disk) β}
    (start : InStep made later (first.run one) (first.run other))
    (finish : ∀ value one other, Disk.Abreast made later one other →
      InStep made later ((next value).run one) ((next value).run other)) :
    InStep made later ((first >>= next).run one) ((first >>= next).run other) := by
  change InStep made later (ExceptT.bindCont next (first.run one).1 (first.run one).2)
    (ExceptT.bindCont next (first.run other).1 (first.run other).2)
  rw [start.1]
  cases (first.run one).1 with
  | error failure => exact ⟨rfl, start.2⟩
  | ok value => exact finish value _ _ start.2

theorem bind_of_error {first : Loading (StateM Disk) α} {next : α → Loading (StateM Disk) β}
    {failure : Failure} {disk after : Disk} (run : first.run disk = (.error failure, after)) :
    (first >>= next).run disk = (.error failure, after) := by
  change (ExceptT.bindCont next (first.run disk).1) (first.run disk).2 = _
  rw [run]
  rfl

theorem attempt_run (operation : StateM Disk (Except FileError α)) (failure : FileError → Failure)
    (disk : Disk) : (attempt operation failure).run disk =
      ((operation disk).1.mapError failure, (operation disk).2) := by
  have lifted : (liftM operation : Loading (StateM Disk) (Except FileError α)).run disk =
      (.ok (operation disk).1, (operation disk).2) := rfl
  refine (bind_of_ok lifted).trans ?_
  cases (operation disk).1 <;> rfl

theorem change_run_ok (operation : Disk → Except FileError Disk) {disk after : Disk}
    (changed : operation disk = .ok after) (failure : FileError → Failure) :
    (attempt (Disk.change operation) failure).run disk = (.ok (), after) := by
  rw [attempt_run, Disk.change, changed]
  rfl

theorem change_run_error (operation : Disk → Except FileError Disk) {disk : Disk}
    {error : FileError} (refused : operation disk = .error error) (failure : FileError → Failure) :
    (attempt (Disk.change operation) failure).run disk = (.error (failure error), disk) := by
  rw [attempt_run, Disk.change, refused]
  rfl

theorem make_run_ok {directory : Path} {disk made : Disk}
    (run : disk.makeDirectories directory = .ok made) (failure : FileError → Failure) :
    (attempt (FileAccess.makeDirectories directory) failure : Loading (StateM Disk) Unit).run disk =
      (.ok (), made) :=
  change_run_ok (·.makeDirectories directory) run failure

theorem make_run_error {directory : Path} {disk : Disk} {error : FileError}
    (run : disk.makeDirectories directory = .error error) (failure : FileError → Failure) :
    (attempt (FileAccess.makeDirectories directory) failure : Loading (StateM Disk) Unit).run disk =
      (.error (failure error), disk) :=
  change_run_error (·.makeDirectories directory) run failure

/-- An entry of the directory is written on both disks or on neither. -/
theorem inStep_write {folder : Place} {name : String} (abreast : Disk.Abreast made later one other)
    (furnished : ∀ later, made.GrowsTo later → later.Furnished outDir folder)
    (proper : EntryName name) (bytes : Bytes) (failure : FileError → Failure) :
    InStep made later
      ((attempt (FileAccess.write (outDir.join name) bytes) failure :
        Loading (StateM Disk) Unit).run one)
      ((attempt (FileAccess.write (outDir.join name) bytes) failure :
        Loading (StateM Disk) Unit).run other) := by
  change InStep made later
    ((attempt (Disk.change (·.write (outDir.join name) bytes)) failure).run one)
    ((attempt (Disk.change (·.write (outDir.join name) bytes)) failure).run other)
  rcases abreast.write furnished proper bytes with
    ⟨error, first, second⟩ | ⟨one', other', first, second, written⟩
  · rw [change_run_error _ first, change_run_error _ second]
    exact ⟨rfl, abreast⟩
  · rw [change_run_ok _ first, change_run_ok _ second]
    exact ⟨rfl, written⟩

theorem map_run (step : Loading (StateM Disk) α) (change : α → β) (disk : Disk) :
    (step >>= fun value => pure (change value)).run disk =
      ((step.run disk).1.map change, (step.run disk).2) := by
  cases ran : step.run disk with
  | mk found after =>
    cases found with
    | ok value => exact bind_of_ok ran
    | error failure => exact bind_of_error ran

/-- The ends of a step may be worded anew. -/
theorem sameStep_map {step : Loading (StateM Disk) α} {disk : Disk}
    (same : SameStep outDir disk later (step.run disk) (step.run later)) (change : α → β) :
    SameStep outDir disk later ((step >>= fun value => pure (change value)).run disk)
      ((step >>= fun value => pure (change value)).run later) := by
  rw [map_run, map_run]
  exact ⟨congrArg (Except.map change) same.result, same.disks⟩

/-- What a module is read as is up to what is read. -/
theorem module_run (path : Path) (disk : Disk) :
    (module path : Loading (StateM Disk) Module).run disk =
      ((disk.read path).mapError (Failure.ofRead path) >>= fun bytes =>
        (Module.decode bytes).mapError (Failure.ofModule path), disk) := by
  have taken : (attempt (FileAccess.read path) (Failure.ofRead path) :
      Loading (StateM Disk) Bytes).run disk = ((disk.read path).mapError (Failure.ofRead path), disk) :=
    attempt_run _ _ _
  cases read : disk.read path with
  | error error =>
    rw [read] at taken
    exact bind_of_error taken
  | ok bytes =>
    rw [read] at taken
    refine (bind_of_ok taken).trans ?_
    change _ = ((Module.decode bytes).mapError (Failure.ofModule path), disk)
    cases Module.decode bytes <;> rfl

end Loading

namespace WeaveRequest

open Loading

variable {context : Context} {outDir source : Path} {disk later : Disk} {sidecar : Bool}
  {woven : WovenModule}

/-- Writing depends on the disk only through the directory for the outputs. -/
theorem sameStep_writeFiles (prepares : disk.Prepares outDir later) :
    SameStep outDir disk later
      ((writeFiles outDir sidecar source woven : Loading (StateM Disk) WrittenFiles).run disk)
      ((writeFiles outDir sidecar source woven : Loading (StateM Disk) WrittenFiles).run later) := by
  unfold writeFiles
  cases named : source.fileName? with
  | none => exact .of_unchanged _
  | some name =>
    have stemmed : source.stem? = some (Path.splitExtension name).1 := by
      rw [Path.stem?, named]
      rfl
    have proper := Path.entryName_of_fileName? named
    have proper' := (Path.entryName_report stemmed named).1
    rw [stemmed]
    dsimp only
    cases run : disk.makeDirectories outDir with
    | error error =>
      rw [bind_of_error (make_run_error run _),
        bind_of_error (make_run_error (prepares.refused error run) _)]
      exact .of_unchanged _
    | ok made =>
      rcases prepares.made made run with ⟨other, run', alike⟩
      rw [bind_of_ok (make_run_ok run _), bind_of_ok (make_run_ok run' _)]
      rcases Disk.exists_furnished run with ⟨folder, furnished⟩
      have abreast : Disk.Abreast made later made other :=
        ⟨fun _ => rfl, alike, fun place => .inl ⟨rfl, by
          rw [Disk.contents?, (Disk.makeDirectories_eq_ok run').2]
          rfl⟩⟩
      suffices steps : InStep made later _ _ from ⟨steps.1, .inr ⟨made, run, steps.2⟩⟩
      refine .bind (inStep_write abreast furnished proper _ _) fun _ one other abreast => ?_
      cases sidecar with
      | false => exact ⟨rfl, abreast⟩
      | true =>
        refine .bind (inStep_write abreast furnished proper' _ _) fun _ one other abreast => ?_
        exact ⟨rfl, abreast⟩

/-- What is concluded about a module depends on the disk only through the directory for the outputs. -/
theorem sameStep_conclude (module : Module) (prepares : disk.Prepares outDir later) :
    SameStep outDir disk later
      ((conclude context outDir source module : Loading (StateM Disk) ModuleOutcome).run disk)
      ((conclude context outDir source module : Loading (StateM Disk) ModuleOutcome).run later) := by
  unfold conclude
  cases weaving : Scope.weave ⟨context, module⟩ with
  | error error => cases error <;> exact .of_unchanged _
  | ok outcome =>
    cases outcome with
    | noBindings => exact .of_unchanged _
    | rejected diagnostics => exact .of_unchanged _
    | woven woven =>
      exact sameStep_map (sameStep_writeFiles prepares) fun files =>
        ModuleOutcome.woven files woven.diagnostics

/-- Reading a module and concluding about it. -/
theorem sameStep_steps (context : Context) (prepares : disk.Prepares outDir later)
    (reads : later.read source = disk.read source) :
    SameStep outDir disk later
      ((Loading.module source >>= conclude context outDir source :
        Loading (StateM Disk) ModuleOutcome).run disk)
      ((Loading.module source >>= conclude context outDir source :
        Loading (StateM Disk) ModuleOutcome).run later) := by
  have first := module_run source disk
  have second := module_run source later
  rw [reads] at second
  cases found : ((disk.read source).mapError (Failure.ofRead source) >>= fun bytes =>
      (Module.decode bytes).mapError (Failure.ofModule source)) with
  | error failure =>
    rw [found] at first second
    rw [bind_of_error first, bind_of_error second]
    exact .of_unchanged _
  | ok module =>
    rw [found] at first second
    rw [bind_of_ok first, bind_of_ok second]
    exact sameStep_conclude module prepares

/-- A failure on the way is what becomes of the module. -/
theorem weaveModule_run (context : Context) (outDir source : Path) (disk : Disk) :
    (weaveModule context outDir source : StateM Disk ModuleOutcome) disk =
      let ended := (Loading.module source >>= conclude context outDir source :
        Loading (StateM Disk) ModuleOutcome).run disk
      (match ended.1 with
        | .ok outcome => outcome
        | .error failure => .failed failure, ended.2) := by
  cases ran : (Loading.module source >>= conclude context outDir source :
      Loading (StateM Disk) ModuleOutcome).run disk with
  | mk result after =>
    refine (Loading.bind_of_ran ran).trans ?_
    cases result <;> rfl

/-- What becomes of a module is up to what is read and to the directory for the outputs. -/
theorem sameStep_weaveModule (context : Context) (prepares : disk.Prepares outDir later)
    (reads : later.read source = disk.read source) :
    SameStep outDir disk later
      ((weaveModule context outDir source : StateM Disk ModuleOutcome) disk)
      ((weaveModule context outDir source : StateM Disk ModuleOutcome) later) := by
  have same := sameStep_steps context prepares reads
  rw [weaveModule_run, weaveModule_run]
  dsimp only
  rw [same.result]
  exact ⟨rfl, same.disks⟩

theorem conclude_ne_aborted (context : Context) (outDir source : Path) (module : Module)
    (disk : Disk) :
    ((conclude context outDir source module : Loading (StateM Disk) ModuleOutcome).run disk).1 ≠
      .ok .aborted := by
  unfold conclude
  cases weaving : Scope.weave ⟨context, module⟩ with
  | error error =>
    cases error with
    | outOfRange => exact absurd weaving (Scope.weave_ne_outOfRange _)
    | _ => exact fun impossible => by cases impossible
  | ok outcome =>
    cases outcome with
    | noBindings => exact fun impossible => by cases impossible
    | rejected diagnostics => exact fun impossible => by cases impossible
    | woven woven =>
      intro aborts
      have ended : Except.map (ModuleOutcome.woven · woven.diagnostics)
          ((writeFiles outDir context.config.sidecar source woven :
            Loading (StateM Disk) WrittenFiles).run disk).1 = .ok .aborted :=
        (congrArg Prod.fst (map_run _ _ disk)).symm.trans aborts
      generalize ((writeFiles outDir context.config.sidecar source woven :
        Loading (StateM Disk) WrittenFiles).run disk).1 = found at ended
      cases found <;> cases ended

/-- No module stops the program. -/
theorem weaveModule_ne_aborted (context : Context) (outDir source : Path) (disk : Disk) :
    ((weaveModule context outDir source : StateM Disk ModuleOutcome) disk).1 ≠ .aborted := by
  have steps : ((Loading.module source >>= conclude context outDir source :
      Loading (StateM Disk) ModuleOutcome).run disk).1 ≠ .ok .aborted := by
    have read := module_run source disk
    cases found : ((disk.read source).mapError (Failure.ofRead source) >>= fun bytes =>
        (Module.decode bytes).mapError (Failure.ofModule source)) with
    | error failure =>
      rw [found] at read
      rw [bind_of_error read]
      exact fun impossible => by cases impossible
    | ok module =>
      rw [found] at read
      rw [bind_of_ok read]
      exact conclude_ne_aborted context outDir source module disk
  rw [weaveModule_run]
  dsimp only
  split
  · next outcome ended =>
    rintro rfl
    exact steps ended
  · exact fun impossible => by cases impossible

/-! ## A run over many modules -/

/-- What becomes of a module when it is the only one, and the disk afterwards. -/
def alone (context : Context) (outDir : Path) (disk : Disk) (source : Path) : ModuleOutcome × Disk :=
  (weaveModule context outDir source : StateM Disk ModuleOutcome) disk

/-- The disk after some modules have been woven one after the other. -/
def diskAfter (context : Context) (outDir : Path) (disk : Disk) (sources : List Path) : Disk :=
  ((weaveModules context outDir sources : StateM Disk (List (Path × ModuleOutcome))) disk).2

/-- Nothing that is made or written for a module alone is looked at when one of the sources is read. -/
def Apart (context : Context) (outDir : Path) (disk : Disk) (sources : List Path) : Prop :=
  ∀ writer ∈ sources, ∀ reader ∈ sources, ∀ place ∈ disk.trail reader,
    disk.SameAt (alone context outDir disk writer).2 place

/-- One after the other, modules are woven to the end. -/
theorem weaveModules_run_cons (context : Context) (outDir source : Path) (more : List Path)
    (disk : Disk) :
    (weaveModules context outDir (source :: more) : StateM Disk _) disk =
      let step := alone context outDir disk source
      let rest := (weaveModules context outDir more : StateM Disk (List (Path × ModuleOutcome))) step.2
      ((source, step.1) :: rest.1, rest.2) :=
  weaveModules_of_step rfl (weaveModule_ne_aborted context outDir source disk) rfl

theorem diskAfter_append (context : Context) (outDir : Path) (disk : Disk) (front back : List Path) :
    diskAfter context outDir disk (front ++ back) =
      diskAfter context outDir (diskAfter context outDir disk front) back := by
  induction front generalizing disk with
  | nil => rfl
  | cons source more ih =>
    unfold diskAfter at ih ⊢
    rw [List.cons_append, weaveModules_run_cons, weaveModules_run_cons]
    exact ih _

theorem diskAfter_singleton (context : Context) (outDir : Path) (disk : Disk) (source : Path) :
    diskAfter context outDir disk [source] = (alone context outDir disk source).2 := by
  unfold diskAfter
  rw [weaveModules_run_cons]
  rfl

variable {sources order : List Path}

/-- Sources that are apart come to the same ends as alone, in whatever order and however often they are
listed. -/
theorem exists_run_of_apart (apart : Apart context outDir disk sources) (listed : order ⊆ sources)
    (prepares : disk.Prepares outDir later)
    (same : ∀ reader ∈ sources, ∀ place ∈ disk.trail reader, disk.SameAt later place) :
    ((weaveModules context outDir order : StateM Disk (List (Path × ModuleOutcome))) later).1 =
      order.map fun source => (source, (alone context outDir disk source).1) := by
  induction order generalizing later with
  | nil => rfl
  | cons source more ih =>
    rw [List.cons_subset] at listed
    have step := sameStep_weaveModule context prepares (Disk.read_congr (same source listed.1))
    have rest := ih listed.2 (step.prepares prepares) fun reader inside place looked =>
      step.sameAt_second (same reader inside place looked)
        (apart source listed.1 reader inside place looked)
    rw [weaveModules_run_cons, List.map_cons]
    exact congrArg₂ List.cons (congrArg (source, ·) step.result) rest

/-- At no time of a run over the sources is anything changed that is looked at when they are read. -/
def Undisturbed (context : Context) (outDir : Path) (disk : Disk) (sources : List Path) : Prop :=
  ∀ front, front <+: sources → ∀ reader ∈ sources, ∀ place ∈ disk.trail reader,
    disk.SameAt (diskAfter context outDir disk front) place

theorem Undisturbed.sameStep (undisturbed : Undisturbed context outDir disk sources)
    {front back : List Path} (split : sources = front ++ source :: back)
    (prepares : disk.Prepares outDir (diskAfter context outDir disk front)) :
    SameStep outDir disk (diskAfter context outDir disk front) (alone context outDir disk source)
      (alone context outDir (diskAfter context outDir disk front) source) := by
  refine sameStep_weaveModule context prepares (Disk.read_congr ?_)
  exact undisturbed front ⟨_, split.symm⟩ source
    (split ▸ List.mem_append_right _ List.mem_cons_self)

theorem diskAfter_concat (context : Context) (outDir : Path) (disk : Disk) (front : List Path)
    (source : Path) : diskAfter context outDir disk (front ++ [source]) =
      (alone context outDir (diskAfter context outDir disk front) source).2 := by
  rw [diskAfter_append, diskAfter_singleton]

theorem Undisturbed.prepares (undisturbed : Undisturbed context outDir disk sources)
    {front back : List Path} (split : sources = front ++ back) :
    disk.Prepares outDir (diskAfter context outDir disk front) := by
  induction front using List.reverseRecOn generalizing back with
  | nil => exact .refl outDir disk
  | append_singleton front source ih =>
    rw [List.append_assoc, List.singleton_append] at split
    rw [diskAfter_concat]
    exact (undisturbed.sameStep split (ih split)).prepares (ih split)

/-- If a run disturbs nothing, neither does any of its modules alone. -/
theorem Undisturbed.apart (undisturbed : Undisturbed context outDir disk sources) :
    Apart context outDir disk sources := by
  intro writer listed reader inside place looked
  rcases List.append_of_mem listed with ⟨front, back, split⟩
  refine (undisturbed.sameStep split (undisturbed.prepares split)).sameAt_first ?_
  rw [← diskAfter_concat]
  refine undisturbed (front ++ [writer]) ⟨back, ?_⟩ reader inside place looked
  rw [split, List.append_assoc, List.singleton_append]

end WeaveRequest

/-! ## Counting and the status -/

namespace ModuleOutcome

/-- The module failed. -/
def hasFailed : ModuleOutcome → Bool
  | failed _ => true
  | _ => false

/-- The module has mistakes. -/
def isRejected : ModuleOutcome → Bool
  | rejected _ => true
  | _ => false

end ModuleOutcome

namespace WeaveSummary

/-- How many modules are counted. -/
def total (summary : WeaveSummary) : Nat :=
  summary.woven + summary.noBindings + summary.rejected + summary.failed

/-- Every module is counted once. -/
theorem total_ofOutcomes {outcomes : List ModuleOutcome}
    (goes : ∀ outcome ∈ outcomes, outcome ≠ .aborted) :
    (ofOutcomes outcomes).total = outcomes.length := by
  induction outcomes with
  | nil => rfl
  | cons outcome more ih =>
    rw [List.forall_mem_cons] at goes
    have rest := ih goes.2
    simp only [total, ofOutcomes, List.countP_cons, List.length_cons] at rest ⊢
    cases outcome with
    | aborted => exact absurd rfl goes.1
    | _ => simp; omega

/-- A failure outweighs mistakes, and either outweighs what went well. -/
theorem status_ofOutcomes (outcomes : List ModuleOutcome) :
    (ofOutcomes outcomes).status = if outcomes.any ModuleOutcome.hasFailed then .failed
      else if outcomes.any ModuleOutcome.isRejected then .rejected else .success := by
  have counted : ∀ test : ModuleOutcome → Bool, 0 < outcomes.countP test ↔ outcomes.any test = true :=
    fun test => List.countP_pos_iff.trans List.any_eq_true.symm
  have failures : (ofOutcomes outcomes).failed = outcomes.countP ModuleOutcome.hasFailed := rfl
  have mistakes : (ofOutcomes outcomes).rejected = outcomes.countP ModuleOutcome.isRejected := rfl
  unfold status
  rw [failures, mistakes]
  simp only [counted]

end WeaveSummary

namespace WeaveRequest

open Loading

theorem status_transcript (format : OutputFormat) (colored : Bool)
    (results : List (Path × ModuleOutcome)) (goes : ∀ result ∈ results, result.2 ≠ .aborted) :
    (transcript format colored results).status =
      (WeaveSummary.ofOutcomes (results.map (·.2))).status := by
  have none : results.any (·.2 = .aborted) = false :=
    List.any_eq_false.mpr fun result listed => by simpa using goes result listed
  unfold transcript
  cases format <;> simp [none]

/-- The modules of a run are independent.  Either the settings cannot be loaded, and then no run with
these settings gets to a module; or for every module there is one outcome that it has in all runs over
some of the modules, alone as well as between others, in whatever order they are listed.  Each module is
counted once, and the exit code says whether one failed, or else one has mistakes. -/
theorem run_independent (request : WeaveRequest) (colored : Bool) (disk : Disk)
    (undisturbed : ∀ context, (Loading.context request.config request.manifest request.searchPaths :
        Loading (StateM Disk) Context).run disk = (.ok context, disk) →
      Undisturbed context request.outDir disk request.modules) :
    (∃ failure, ∀ order, ({ request with modules := order }.run colored :
        Loading (StateM Disk) Transcript).run disk = (.error failure, disk)) ∨
    ∃ outcome : Path → ModuleOutcome, ∀ order, order ⊆ request.modules →
      (∃ final, ({ request with modules := order }.run colored :
          Loading (StateM Disk) Transcript).run disk =
        (.ok (transcript request.format colored (order.map fun source => (source, outcome source))),
          final)) ∧
      (WeaveSummary.ofOutcomes (order.map outcome)).total = order.length ∧
      (transcript request.format colored
          (order.map fun source => (source, outcome source))).status.code =
        if order.any fun source => (outcome source).hasFailed then 2
        else if order.any fun source => (outcome source).isRejected then 1
        else 0 := by
  have looks := looks_context request.config request.manifest request.searchPaths disk
  cases loaded : (Loading.context request.config request.manifest request.searchPaths :
      Loading (StateM Disk) Context).run disk with
  | mk result after =>
    rw [loaded] at looks
    have same : disk = after := looks.symm
    subst same
    cases result with
    | error failure =>
      left
      refine ⟨failure, fun order => ?_⟩
      unfold run
      exact bind_of_error loaded
    | ok context =>
      right
      have apart := (undisturbed context loaded).apart
      have goes : ∀ source, (alone context request.outDir disk source).1 ≠ .aborted := fun source =>
        weaveModule_ne_aborted context request.outDir source disk
      refine ⟨fun source => (alone context request.outDir disk source).1, fun order listed =>
        ⟨⟨diskAfter context request.outDir disk order, ?_⟩, ?_, ?_⟩⟩
      · have ran := exists_run_of_apart apart listed (.refl _ disk) fun _ _ _ _ => ⟨rfl, rfl⟩
        unfold run
        refine (bind_of_ok loaded).trans ?_
        change (Except.ok (transcript request.format colored
          ((weaveModules context request.outDir order : StateM Disk _) disk).1), _) = _
        rw [ran]
        rfl
      · have total := WeaveSummary.total_ofOutcomes
          (List.forall_mem_map.mpr fun source (_ : source ∈ order) => goes source)
        rwa [List.length_map] at total
      · rw [status_transcript _ _ _ (List.forall_mem_map.mpr fun source _ => goes source),
          WeaveSummary.status_ofOutcomes, List.map_map, List.any_map, List.any_map]
        simp only [Function.comp_def]
        split
        · rfl
        · split <;> rfl

end WeaveRequest

/-! ## Two copies, and a way through the outputs -/

namespace Stance

open WeaveRequest

variable {bytes : Bytes} {module : Module} {woven : WovenModule} {source : Path}

/-- A module and its report are written. -/
def deliver (woven : WovenModule) (name : String) (disk : Disk) : Disk :=
  (disk.put ⟨.above 0, ["out", name ++ ".tmod"]⟩ woven.module.encode).put
    ⟨.above 0, ["out", name ++ ".tether.json"]⟩ (Bytes.ofString woven.report.toJson.pretty)

/-- The disk when the first copy has been woven. -/
def afterCalm (bytes : Bytes) (woven : WovenModule) : Disk :=
  deliver woven "Calm" { copies bytes with directories := [⟨.above 0, ["out"]⟩] }

theorem alone_calm (decoded : Module.decode bytes = .ok module)
    (weaving : Scope.weave ⟨{ modules := [] }, module⟩ = .ok (.woven woven)) :
    alone { modules := [] } ⟨"out"⟩ (copies bytes) ⟨"a/Calm.tmod"⟩ =
      (outcome woven "Calm", afterCalm bytes woven) := by
  refine weaveModule_of_read rfl decoded ?_
  simp only [conclude, weaving]
  rfl

theorem alone_tense (decoded : Module.decode bytes = .ok module)
    (weaving : Scope.weave ⟨{ modules := [] }, module⟩ = .ok (.woven woven))
    (read : (afterCalm bytes woven).read source = .ok bytes)
    (named : source.fileName? = some "Tense.tmod") :
    alone { modules := [] } ⟨"out"⟩ (afterCalm bytes woven) source =
      (outcome woven "Tense", deliver woven "Tense" (afterCalm bytes woven)) := by
  refine weaveModule_of_read read decoded ?_
  have stemmed : source.stem? = some "Tense" := by
    rw [Path.stem?, named]
    rfl
  simp only [conclude, weaving, writeFiles, named, stemmed]
  rfl

theorem diskAfter_calm (decoded : Module.decode bytes = .ok module)
    (weaving : Scope.weave ⟨{ modules := [] }, module⟩ = .ok (.woven woven)) :
    diskAfter { modules := [] } ⟨"out"⟩ (copies bytes) [⟨"a/Calm.tmod"⟩] = afterCalm bytes woven := by
  rw [diskAfter_singleton, alone_calm decoded weaving]

theorem diskAfter_both (decoded : Module.decode bytes = .ok module)
    (weaving : Scope.weave ⟨{ modules := [] }, module⟩ = .ok (.woven woven)) :
    diskAfter { modules := [] } ⟨"out"⟩ (copies bytes) [⟨"a/Calm.tmod"⟩, ⟨"b/Tense.tmod"⟩] =
      deliver woven "Tense" (afterCalm bytes woven) := by
  refine (diskAfter_concat _ _ _ [⟨"a/Calm.tmod"⟩] ⟨"b/Tense.tmod"⟩).trans ?_
  rw [diskAfter_calm decoded weaving, alone_tense decoded weaving rfl rfl]

/-- The outputs are in a directory that is not looked at when the copies are read. -/
theorem undisturbed_copies (decoded : Module.decode bytes = .ok module)
    (weaving : Scope.weave ⟨{ modules := [] }, module⟩ = .ok (.woven woven)) :
    Undisturbed { modules := [] } ⟨"out"⟩ (copies bytes) [⟨"a/Calm.tmod"⟩, ⟨"b/Tense.tmod"⟩] := by
  have looked : ∀ reader ∈ [(⟨"a/Calm.tmod"⟩ : Path), ⟨"b/Tense.tmod"⟩],
      (copies bytes).trail reader ⊆ [(⟨.above 0, ["a"]⟩ : Place), ⟨.above 0, ["a", "Calm.tmod"]⟩,
        ⟨.above 0, ["b"]⟩, ⟨.above 0, ["b", "Tense.tmod"]⟩] := by
    have calm : (copies bytes).trail ⟨"a/Calm.tmod"⟩ =
        [⟨.above 0, ["a"]⟩, ⟨.above 0, ["a", "Calm.tmod"]⟩] := rfl
    have tense : (copies bytes).trail ⟨"b/Tense.tmod"⟩ =
        [⟨.above 0, ["b"]⟩, ⟨.above 0, ["b", "Tense.tmod"]⟩] := rfl
    rw [List.forall_mem_cons, List.forall_mem_singleton, calm, tense]
    simp
  have kept : ∀ later : Disk, (∀ place ∈ [(⟨.above 0, ["a"]⟩ : Place),
      ⟨.above 0, ["a", "Calm.tmod"]⟩, ⟨.above 0, ["b"]⟩, ⟨.above 0, ["b", "Tense.tmod"]⟩],
        (copies bytes).SameAt later place) → ∀ reader ∈ [(⟨"a/Calm.tmod"⟩ : Path), ⟨"b/Tense.tmod"⟩],
          ∀ place ∈ (copies bytes).trail reader, (copies bytes).SameAt later place :=
    fun later same reader listed place looks => same place (looked reader listed looks)
  rintro front ahead
  obtain rfl | rfl | rfl : front = [] ∨ front = [⟨"a/Calm.tmod"⟩] ∨
      front = [⟨"a/Calm.tmod"⟩, ⟨"b/Tense.tmod"⟩] := by
    simpa [List.inits] using (List.mem_inits _ _).mpr ahead
  · exact kept _ fun place _ => ⟨rfl, rfl⟩
  · rw [diskAfter_calm decoded weaving]
    refine kept _ ?_
    simp only [List.forall_mem_cons]
    exact ⟨⟨rfl, rfl⟩, ⟨rfl, rfl⟩, ⟨rfl, rfl⟩, ⟨rfl, rfl⟩, List.forall_mem_nil _⟩
  · rw [diskAfter_both decoded weaving]
    refine kept _ ?_
    simp only [List.forall_mem_cons]
    exact ⟨⟨rfl, rfl⟩, ⟨rfl, rfl⟩, ⟨rfl, rfl⟩, ⟨rfl, rfl⟩, List.forall_mem_nil _⟩

/-- The paths of the outputs of both copies. -/
def outputs : List Path :=
  [⟨"out/Calm.tmod"⟩, ⟨"out/Calm.tether.json"⟩, ⟨"out/Tense.tmod"⟩, ⟨"out/Tense.tether.json"⟩]

/-- The copies, the second by a way through the directory for the outputs. -/
def detour : List Path :=
  [⟨"a/Calm.tmod"⟩, ⟨"out/../b/Tense.tmod"⟩]

theorem run_detour (decoded : Module.decode bytes = .ok module)
    (weaving : Scope.weave ⟨{ modules := [] }, module⟩ = .ok (.woven woven)) :
    (weaveModules { modules := [] } ⟨"out"⟩ detour : StateM Disk _) (copies bytes) =
      ([(⟨"a/Calm.tmod"⟩, outcome woven "Calm"), (⟨"out/../b/Tense.tmod"⟩, outcome woven "Tense")],
        deliver woven "Tense" (afterCalm bytes woven)) := by
  unfold detour
  rw [weaveModules_run_cons, alone_calm decoded weaving]
  dsimp only
  rw [weaveModules_run_cons, alone_tense decoded weaving rfl rfl]
  rfl

/-- The outputs are in the directory for them, and the modules are not. -/
theorem locate_detour (bytes : Bytes) (woven : WovenModule) :
    let final := deliver woven "Tense" (afterCalm bytes woven)
    (∀ path ∈ outputs, ∃ entry, final.locate path = .ok ⟨.above 0, ["out", entry]⟩) ∧
    ∀ source ∈ detour, ∃ folder entry, folder ≠ "out" ∧
      final.locate source = .ok ⟨.above 0, [folder, entry]⟩ := by
  unfold outputs detour
  simp only [List.forall_mem_cons]
  exact ⟨⟨⟨_, rfl⟩, ⟨_, rfl⟩, ⟨_, rfl⟩, ⟨_, rfl⟩, List.forall_mem_nil _⟩,
    ⟨"a", _, by decide, rfl⟩, ⟨"b", _, by decide, rfl⟩, List.forall_mem_nil _⟩

theorem alone_detour (bytes : Bytes) :
    (alone { modules := [] } ⟨"out"⟩ (copies bytes) ⟨"out/../b/Tense.tmod"⟩).1 =
      .failed (.ofRead ⟨"out/../b/Tense.tmod"⟩ .notFound) :=
  rfl

end Stance

/-- Both copies can be woven in either order, and each comes to the end that it comes to alone. -/
theorem WeaveRequest.run_independent_copies :
    let request : WeaveRequest :=
      { modules := [⟨"a/Calm.tmod"⟩, ⟨"b/Tense.tmod"⟩], outDir := ⟨"out"⟩ }
    let disk := Stance.copies (Stance.scope "Calm").module.encode
    (∀ context, (Loading.context request.config request.manifest request.searchPaths :
        Loading (StateM Disk) Context).run disk = (.ok context, disk) →
      Undisturbed context request.outDir disk request.modules) ∧
    ∃ outcome : Path → ModuleOutcome, ∀ order, order ⊆ request.modules →
      ∃ final, ({ request with modules := order }.run false :
          Loading (StateM Disk) Transcript).run disk =
        (.ok (transcript request.format false (order.map fun source => (source, outcome source))),
          final) := by
  intro request disk
  rcases Stance.exists_woven (.inl rfl) with ⟨woven, weaving, _⟩
  have undisturbed : ∀ context, (Loading.context request.config request.manifest request.searchPaths :
      Loading (StateM Disk) Context).run disk = (.ok context, disk) →
        Undisturbed context request.outDir disk request.modules := by
    intro context loaded
    cases loaded
    exact Stance.undisturbed_copies Stance.decode_encode weaving
  refine ⟨undisturbed, ?_⟩
  rcases run_independent request false disk undisturbed with ⟨failure, failed⟩ | ⟨outcome, each⟩
  · cases failed []
  · exact ⟨outcome, fun order listed => (each order listed).1⟩

/-- A module whose path goes through the directory for the outputs is read only when a module before it
has had that directory made.  No file that is written is one of the modules. -/
theorem WeaveRequest.not_run_independent_detour :
    let disk := Stance.copies (Stance.scope "Calm").module.encode
    ∃ results final, (weaveModules { modules := [] } ⟨"out"⟩ Stance.detour : StateM Disk _) disk =
        (results, final) ∧
      (∀ result ∈ results, ∀ path ∈ result.2.files, ∀ source ∈ Stance.detour, ∀ place,
        final.locate path = .ok place → final.locate source ≠ .ok place) ∧
      results ≠ Stance.detour.map fun source =>
        (source, (alone { modules := [] } ⟨"out"⟩ disk source).1) := by
  intro disk
  rcases Stance.exists_woven (.inl rfl) with ⟨woven, weaving, _⟩
  rcases Stance.locate_detour (Stance.scope "Calm").module.encode woven with ⟨written, listed⟩
  refine ⟨_, _, Stance.run_detour Stance.decode_encode weaving, ?_, fun same => ?_⟩
  · intro result member path file source inside place located impossible
    have output : path ∈ Stance.outputs := by
      rcases List.mem_cons.mp member with rfl | second
      · exact List.mem_append_left [⟨"out/Tense.tmod"⟩, ⟨"out/Tense.tether.json"⟩] file
      · cases List.mem_singleton.mp second
        exact List.mem_append_right [⟨"out/Calm.tmod"⟩, ⟨"out/Calm.tether.json"⟩] file
    rcases written path output with ⟨entry, there⟩
    rcases listed source inside with ⟨folder, other, different, here⟩
    cases there.symm.trans located
    cases here.symm.trans impossible
    exact different rfl
  · have ends : Stance.outcome woven "Tense" = .failed _ :=
      (congrArg Prod.snd (List.cons.inj (List.cons.inj same).2).1).trans
        (Stance.alone_detour (Stance.scope "Calm").module.encode)
    cases ends

end NativeWeave
