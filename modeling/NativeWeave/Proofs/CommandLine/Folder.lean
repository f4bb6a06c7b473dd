import NativeWeave.Proofs.CommandLine.Location

namespace NativeWeave

/-!
# Looking at a disk and writing to a folder

Where a path leads depends on the places that are looked at on the way, and on nothing else.  When a
directory has been made, its entries are in one folder from then on, and writing them makes no
directory.
-/

namespace Place

variable {place inner other : Place}

theorem isSome_namesTo?_iff : (place.namesTo? inner).isSome = true ↔
    place.anchor = inner.anchor ∧ place.names <+: inner.names := by
  unfold namesTo?
  split
  · next below => exact iff_of_true rfl below
  · next apart => exact iff_of_false Bool.false_ne_true apart

theorem parent_entry (folder : Place) (name : String) : (folder.entry name).parent = folder := by
  unfold parent entry
  split
  · next impossible _ => exact absurd impossible (List.append_ne_nil_of_right_ne_nil _ nofun)
  · next impossible _ => exact absurd impossible (List.append_ne_nil_of_right_ne_nil _ nofun)
  · rw [List.dropLast_concat]

end Place

namespace Disk

variable {disk later made : Disk} {place folder inner : Place} {directory : Path}
  {name segment : String} {segments : List String}

/-! ## What is looked at -/

/-- There is the same at a place: a directory on both disks or on neither, and the same file. -/
structure SameAt (disk later : Disk) (place : Place) : Prop where
  directory : later.hasDirectory place = disk.hasDirectory place
  contents : later.contents? place = disk.contents? place

/-- The places that are looked at when segments are followed: the entries on the way, and where the
segments lead. -/
def trailFrom (disk : Disk) (place : Place) : List String → List Place
  | [] => [place]
  | segment :: more =>
    if segment = "" ∨ segment = "." then
      disk.trailFrom place more
    else if segment = ".." then
      disk.trailFrom place.parent more
    else
      let inner := place.entry segment
      inner :: if disk.hasDirectory inner then disk.trailFrom inner more else []

/-- The places that are looked at when a path is followed. -/
def trail (disk : Disk) (path : Path) : List Place :=
  match start path with
  | .ok (place, segments) => disk.trailFrom place segments
  | .error _ => []

theorem enter_of_stays (disk : Disk) (place : Place) (stays : segment = "" ∨ segment = ".") :
    disk.enter place segment = .ok place :=
  if_pos stays

theorem enter_parent (disk : Disk) (place : Place) : disk.enter place ".." = .ok place.parent :=
  rfl

theorem enter_of_entry (disk : Disk) (place : Place) (moves : ¬ (segment = "" ∨ segment = "."))
    (down : segment ≠ "..") :
    disk.enter place segment = (entryOf place segment).bind fun inner =>
      if disk.hasDirectory inner then .ok inner
      else if (disk.contents? inner).isSome then .error .notDirectory else .error .notFound := by
  unfold enter
  rw [if_neg moves, if_neg down]
  rfl

theorem entryOf_eq_ok (found : entryOf place name = .ok inner) : inner = place.entry name := by
  unfold entryOf at found
  split at found
  · cases found
  · exact (Except.ok.inj found).symm

/-- Following segments enters the first and goes on, unless it is the name of the entry at the end. -/
theorem follow_of_enter (entered : disk.enter place segment = .ok inner)
    (goes : (segment = "" ∨ segment = "." ∨ segment = "..") ∨ segments ≠ []) :
    disk.follow place (segment :: segments) = disk.follow inner segments := by
  cases segments with
  | nil =>
    change (if segment = "" ∨ segment = "." ∨ segment = ".." then disk.enter place segment else _) = _
    rw [if_pos (goes.resolve_right fun impossible => impossible rfl), entered]
    rfl
  | cons next more =>
    rw [follow_cons, entered]
    rfl

/-- Segments lead to a place that is looked at, and where they lead is up to what is looked at. -/
theorem follow_congr (same : ∀ inner ∈ disk.trailFrom place segments, disk.SameAt later inner) :
    later.follow place segments = disk.follow place segments ∧
      ∀ found, disk.follow place segments = .ok found → found ∈ disk.trailFrom place segments := by
  induction segments generalizing place with
  | nil =>
    refine ⟨rfl, fun found led => ?_⟩
    cases led
    exact List.mem_singleton_self _
  | cons segment more ih =>
    rw [trailFrom] at same ⊢
    by_cases stays : segment = "" ∨ segment = "."
    · have goes : (segment = "" ∨ segment = "." ∨ segment = "..") ∨ more ≠ [] :=
        .inl (stays.imp_right .inl)
      rw [if_pos stays] at same ⊢
      rw [follow_of_enter (enter_of_stays _ _ stays) goes,
        follow_of_enter (enter_of_stays _ _ stays) goes]
      exact ih same
    · rw [if_neg stays] at same ⊢
      by_cases up : segment = ".."
      · subst up
        rw [if_pos rfl] at same ⊢
        rw [follow_of_enter (enter_parent _ _) (.inl (.inr (.inr rfl))),
          follow_of_enter (enter_parent _ _) (.inl (.inr (.inr rfl)))]
        exact ih same
      · rw [if_neg up] at same ⊢
        dsimp only at same ⊢
        rw [List.forall_mem_cons] at same
        cases more with
        | nil =>
          have last : ¬ (segment = "" ∨ segment = "." ∨ segment = "..") := by tauto
          rw [follow, if_neg last, follow, if_neg last]
          refine ⟨rfl, fun found led => ?_⟩
          rw [entryOf_eq_ok led]
          exact List.mem_cons_self
        | cons next more =>
          rw [follow_cons, follow_cons, enter_of_entry _ _ stays up, enter_of_entry _ _ stays up]
          cases named : entryOf place segment with
          | error cause => exact ⟨rfl, fun found impossible => by cases impossible⟩
          | ok inner =>
            cases entryOf_eq_ok named
            dsimp only [Except.bind]
            rw [same.1.directory, same.1.contents]
            by_cases known : disk.hasDirectory (place.entry segment) = true
            · rw [if_pos known] at same ⊢
              rw [if_pos known]
              rcases ih same.2 with ⟨led, looked⟩
              exact ⟨led, fun found reached => List.mem_cons_of_mem _ (looked found reached)⟩
            · rw [if_neg known]
              cases (disk.contents? (place.entry segment)).isSome <;>
                exact ⟨rfl, fun found impossible => by cases impossible⟩

/-- What is read at a path is up to what is looked at. -/
theorem read_congr {path : Path} (same : ∀ place ∈ disk.trail path, disk.SameAt later place) :
    later.read path = disk.read path := by
  unfold trail at same
  unfold read locate
  cases begun : start path with
  | error cause => rfl
  | ok begin =>
    rw [begun] at same
    rcases follow_congr same with ⟨led, looked⟩
    simp only [bind, Except.bind, led]
    cases reached : disk.follow begin.1 begin.2 with
    | error cause => rfl
    | ok place =>
      have here := same place (looked place reached)
      simp only [here.directory, here.contents]

/-! ## Directories -/

theorem hasDirectory_of_below (known : disk.hasDirectory inner = true)
    (below : place.anchor = inner.anchor ∧ place.names <+: inner.names) :
    disk.hasDirectory place = true := by
  rw [hasDirectory, Bool.or_eq_true] at known ⊢
  rcases known with empty | known
  · rw [List.isEmpty_iff.mp empty] at below
    exact .inl (List.isEmpty_iff.mpr (List.prefix_nil.mp below.2))
  · rcases List.any_eq_true.mp known with ⟨other, listed, leads⟩
    rcases Place.isSome_namesTo?_iff.mp leads with ⟨anchor, names⟩
    exact .inr (List.any_eq_true.mpr ⟨other, listed,
      Place.isSome_namesTo?_iff.mpr ⟨below.1.trans anchor, below.2.trans names⟩⟩)

theorem hasDirectory_parent (known : disk.hasDirectory place = true) :
    disk.hasDirectory place.parent = true := by
  unfold Place.parent
  split
  · exact known
  · rfl
  · exact hasDirectory_of_below known ⟨rfl, List.dropLast_prefix _⟩

/-- What is entered is a directory. -/
theorem hasDirectory_of_enter (known : disk.hasDirectory place = true)
    (entered : disk.enter place segment = .ok inner) : disk.hasDirectory inner = true := by
  by_cases stays : segment = "" ∨ segment = "."
  · cases (disk.enter_of_stays place stays).symm.trans entered
    exact known
  · by_cases up : segment = ".."
    · subst up
      cases entered
      exact hasDirectory_parent known
    · rw [enter_of_entry _ _ stays up] at entered
      cases named : entryOf place segment with
      | error cause =>
        rw [named] at entered
        cases entered
      | ok found =>
        rw [named] at entered
        change (if disk.hasDirectory found = true then Except.ok found else _) = _ at entered
        split at entered
        · next is =>
          cases entered
          exact is
        · split at entered <;> cases entered

/-- Writing a file in a directory makes no directory. -/
theorem hasDirectory_put (known : disk.hasDirectory folder = true) (name : String) (bytes : Bytes)
    (place : Place) :
    (disk.put (folder.entry name) bytes).hasDirectory place = disk.hasDirectory place := by
  refine Bool.eq_iff_iff.mpr ⟨fun found => ?_, growsTo_put _ _ _ place⟩
  rw [hasDirectory, Bool.or_eq_true] at found
  rcases found with empty | found
  · rw [hasDirectory, empty]
    rfl
  · rcases List.any_eq_true.mp found with ⟨other, listed, leads⟩
    have old : other ∈ disk.directories ++ disk.files.map (·.1.parent) →
        disk.hasDirectory place = true := fun inside => by
      rw [hasDirectory, List.any_eq_true.mpr ⟨other, inside, leads⟩, Bool.or_true]
    rcases List.mem_append.mp listed with own | beside
    · exact old (List.mem_append_left _ own)
    · rcases List.mem_map.mp beside with ⟨file, inside, rfl⟩
      rcases List.mem_append.mp inside with kept | new
      · exact old (List.mem_append_right _ (List.mem_map_of_mem (List.mem_of_mem_filter kept)))
      · cases List.mem_singleton.mp new
        rw [Place.parent_entry] at leads
        exact hasDirectory_of_below known (Place.isSome_namesTo?_iff.mp leads)

/-! ## Making directories -/

/-- What was missing can be entered once it is a directory. -/
theorem enter_of_missing (missing : disk.enter place segment = .error .notFound)
    (known : later.hasDirectory (place.entry segment) = true) :
    later.enter place segment = .ok (place.entry segment) := by
  by_cases stays : segment = "" ∨ segment = "."
  · cases (disk.enter_of_stays place stays).symm.trans missing
  · by_cases up : segment = ".."
    · subst up
      cases missing
    · rw [enter_of_entry _ _ stays up] at missing ⊢
      cases named : entryOf place segment with
      | error cause =>
        rw [named] at missing
        unfold entryOf at named
        split at named <;> cases named
        cases missing
      | ok found =>
        cases entryOf_eq_ok named
        exact if_pos known

/-- When directories have been made along segments, the segments can be entered one after another, and
lead to one folder ever after. -/
theorem exists_folder_of_makeAlong (run : disk.makeAlong place segments = .ok made) :
    ∃ folder, ∀ later, made.GrowsTo later → segments.foldlM later.enter place = .ok folder := by
  induction segments generalizing disk place with
  | nil => exact ⟨place, fun _ _ => rfl⟩
  | cons segment more ih =>
    rw [makeAlong] at run
    split at run
    · next inner entered =>
      rcases ih run with ⟨folder, leads⟩
      refine ⟨folder, fun later grows => ?_⟩
      have grown := (makeAlong_eq_ok run).1.trans grows
      rw [List.foldlM_cons, enter_of_growsTo grown entered]
      exact leads later grows
    · cases run
    · next missing =>
      split at run
      · cases run
      · rcases ih run with ⟨folder, leads⟩
        refine ⟨folder, fun later grows => ?_⟩
        have known := (makeAlong_eq_ok run).1.trans grows (place.entry segment) (by
          rw [hasDirectory, Bool.or_eq_true]
          refine .inr (List.any_eq_true.mpr ⟨place.entry segment, ?_,
            Place.isSome_namesTo?_iff.mpr ⟨rfl, List.prefix_rfl⟩⟩)
          exact List.mem_append_left _ (List.mem_append_right _ List.mem_cons_self))
        rw [List.foldlM_cons, enter_of_missing missing known]
        exact leads later grows
    · cases run

/-- Where segments can be entered there is nothing to make. -/
theorem makeAlong_of_entered (entered : segments.foldlM disk.enter place = .ok folder) :
    disk.makeAlong place segments = .ok disk := by
  induction segments generalizing place with
  | nil => rfl
  | cons segment more ih =>
    rw [List.foldlM_cons] at entered
    rcases bind_eq_ok_iff.mp entered with ⟨inner, first, entered⟩
    rw [makeAlong, first]
    exact ih entered

theorem hasDirectory_of_entered (known : disk.hasDirectory place = true)
    (entered : segments.foldlM disk.enter place = .ok folder) :
    disk.hasDirectory folder = true := by
  induction segments generalizing place with
  | nil =>
    cases entered
    exact known
  | cons segment more ih =>
    rw [List.foldlM_cons] at entered
    rcases bind_eq_ok_iff.mp entered with ⟨inner, first, entered⟩
    exact ih (hasDirectory_of_enter known first) entered

/-- A name behind segments is an entry of the folder that they lead to. -/
theorem follow_of_entered (entered : segments.foldlM disk.enter place = .ok folder)
    (proper : EntryName name) : disk.follow place (segments ++ [name]) = entryOf folder name := by
  induction segments generalizing place with
  | nil =>
    cases entered
    change (if name = "" ∨ name = "." ∨ name = ".." then _ else _) = _
    rw [if_neg (not_or.mpr ⟨proper.ne_empty, not_or.mpr ⟨proper.ne_here, proper.ne_parent⟩⟩)]
  | cons segment more ih =>
    rw [List.foldlM_cons] at entered
    rcases bind_eq_ok_iff.mp entered with ⟨inner, first, entered⟩
    rw [List.cons_append, follow_of_enter first
      (.inr (List.append_ne_nil_of_right_ne_nil more (List.cons_ne_nil name [])))]
    exact ih entered

/-- A directory that is there, and the folder that its entries are in. -/
structure Furnished (disk : Disk) (directory : Path) (folder : Place) : Prop where
  made : disk.makeDirectories directory = .ok disk
  known : disk.hasDirectory folder = true
  locate : ∀ name, EntryName name → disk.locate (directory.join name) =
    if pathLimit < (directory.join name).text.utf8ByteSize then .error .nameTooLong
    else entryOf folder name

theorem start_of_relative {path : Path} {first : String} {rest : List String}
    (split : path.segments = first :: rest) (relative : first ≠ "") :
    start path = if pathLimit < path.text.utf8ByteSize then .error .nameTooLong
      else .ok ({}, first :: rest) := by
  unfold start
  rw [split]
  congr 1
  split
  · next impossible => exact absurd (List.cons.inj impossible).1 relative
  · next impossible => exact absurd (List.cons.inj impossible).1 relative
  · rfl

theorem start_of_absolute {path : Path} {next : String} {rest : List String}
    (split : path.segments = "" :: next :: rest) :
    start path = if pathLimit < path.text.utf8ByteSize then .error .nameTooLong
      else .ok (⟨.root, []⟩, next :: rest) := by
  unfold start
  rw [split]
  rfl

/-- Entries of a directory are reached by the segments along which the directory is made. -/
theorem exists_start_join (run : disk.makeDirectories directory = .ok made) :
    ∃ (anchor : Anchor) (front : List String), (∀ name, EntryName name →
        start (directory.join name) =
          if pathLimit < (directory.join name).text.utf8ByteSize then .error .nameTooLong
          else .ok (⟨anchor, []⟩, front ++ [name])) ∧
      (directory.text.isEmpty = true ∧ front = [] ∨ directory.text.isEmpty = false ∧
        ∃ segments, start directory = .ok (⟨anchor, []⟩, segments) ∧
          (segments = front ∨ segments = front ++ [""])) := by
  rcases directory.exists_segments_join with ⟨front, ⟨empty, rfl⟩ | ⟨full, same⟩, ends⟩
  · refine ⟨.above 0, [], fun name proper => ?_, .inl ⟨empty, rfl⟩⟩
    exact start_of_relative (ends name proper.single) proper.ne_empty
  · obtain ⟨begin, begun⟩ : ∃ begin, start directory = .ok begin := by
      unfold makeDirectories at run
      rw [if_neg (Bool.eq_false_iff.mp full)] at run
      rcases bind_eq_ok_iff.mp run with ⟨begin, begun, _⟩
      exact ⟨begin, begun⟩
    have fits : ∀ {result}, (start directory = if pathLimit < directory.text.utf8ByteSize then
        .error .nameTooLong else .ok result) → start directory = .ok result := by
      intro result same
      rw [begun] at same ⊢
      split at same
      · cases same
      · exact same
    have unlike : directory.segments ≠ [""] := by
      intro alone
      unfold start at begun
      rw [alone] at begun
      split at begun <;> cases begun
    cases front with
    | nil =>
      rcases same with none | alone
      · exact absurd none (List.map_eq_nil_iff.not.mpr (Text.piecesOf_ne_nil _ _))
      · exact absurd alone unlike
    | cons first rest =>
      by_cases relative : first = ""
      · subst relative
        refine ⟨.root, rest, fun name proper => ?_, .inr ⟨full, ?_⟩⟩
        · rcases List.exists_cons_of_ne_nil
            (List.append_ne_nil_of_right_ne_nil rest (List.cons_ne_nil name [])) with ⟨next, more, split⟩
          rw [split]
          exact start_of_absolute ((ends name proper.single).trans (congrArg ("" :: ·) split))
        · rcases same with plain | closed
          · cases rest with
            | nil => exact absurd plain unlike
            | cons next more => exact ⟨_, fits (start_of_absolute plain), .inl rfl⟩
          · rcases List.exists_cons_of_ne_nil
              (List.append_ne_nil_of_right_ne_nil rest (List.cons_ne_nil "" [])) with ⟨next, more, split⟩
            refine ⟨rest ++ [""], ?_, .inr rfl⟩
            rw [split]
            exact fits (start_of_absolute (closed.trans (congrArg ("" :: ·) split)))
      · refine ⟨.above 0, first :: rest, fun name proper => ?_, .inr ⟨full, ?_⟩⟩
        · exact start_of_relative (ends name proper.single) relative
        · rcases same with plain | closed
          · exact ⟨_, fits (start_of_relative plain relative), .inl rfl⟩
          · exact ⟨_, fits (start_of_relative closed relative), .inr rfl⟩

/-- A directory that has been made stays there, with its entries in one folder. -/
theorem exists_furnished (run : disk.makeDirectories directory = .ok made) :
    ∃ folder, ∀ later, made.GrowsTo later → later.Furnished directory folder := by
  rcases exists_start_join run with ⟨anchor, front, joins, way⟩
  suffices entered : ∃ folder, ∀ later, made.GrowsTo later →
      later.makeDirectories directory = .ok later ∧
        front.foldlM later.enter ⟨anchor, []⟩ = .ok folder by
    rcases entered with ⟨folder, entered⟩
    refine ⟨folder, fun later grows => ?_⟩
    rcases entered later grows with ⟨still, leads⟩
    refine ⟨still, hasDirectory_of_entered rfl leads, fun name proper => ?_⟩
    unfold Disk.locate
    rw [joins name proper]
    split
    · rfl
    · exact follow_of_entered leads proper
  rcases way with ⟨empty, rfl⟩ | ⟨full, segments, begun, ending⟩
  · exact ⟨⟨anchor, []⟩, fun later _ => ⟨if_pos empty, rfl⟩⟩
  · have along : ∀ disk : Disk, disk.makeDirectories directory =
        disk.makeAlong ⟨anchor, []⟩ segments := by
      intro disk
      unfold makeDirectories
      rw [if_neg (Bool.eq_false_iff.mp full), begun]
      rfl
    rw [along] at run
    rcases exists_folder_of_makeAlong run with ⟨folder, leads⟩
    refine ⟨folder, fun later grows => ⟨?_, ?_⟩⟩
    · rw [along]
      exact makeAlong_of_entered (leads later grows)
    · rcases ending with rfl | rfl
      · exact leads later grows
      · -- A slash at the end leads nowhere further.
        have whole := leads later grows
        rw [List.foldlM_append] at whole
        cases entered : front.foldlM later.enter ⟨anchor, []⟩ with
        | error cause =>
          rw [entered] at whole
          cases whole
        | ok inner =>
          rw [entered] at whole
          exact whole

/-! ## Two disks side by side -/

/-- The two disks prepare a directory alike: it cannot be made on either for the same reason, or it is
made on both and they have the same directories afterwards. -/
structure Prepares (directory : Path) (disk later : Disk) : Prop where
  refused : ∀ error, disk.makeDirectories directory = .error error →
    later.makeDirectories directory = .error error
  made : ∀ made, disk.makeDirectories directory = .ok made →
    ∃ other, later.makeDirectories directory = .ok other ∧
      ∀ place, other.hasDirectory place = made.hasDirectory place

theorem Prepares.refl (directory : Path) (disk : Disk) : disk.Prepares directory disk where
  refused _ := id
  made _ run := ⟨_, run, fun _ => rfl⟩

/-- Two disks have come from others by the same writing: they have the directories of the first, and
at every place both hold what they held or both hold the same. -/
structure Abreast (made later one other : Disk) : Prop where
  left : ∀ place, one.hasDirectory place = made.hasDirectory place
  right : ∀ place, other.hasDirectory place = made.hasDirectory place
  contents : ∀ place, one.contents? place = made.contents? place ∧
      other.contents? place = later.contents? place ∨
    other.contents? place = one.contents? place

variable {one other : Disk}

theorem Abreast.put (abreast : Abreast made later one other)
    (known : made.hasDirectory folder = true) (name : String) (bytes : Bytes) :
    Abreast made later (one.put (folder.entry name) bytes) (other.put (folder.entry name) bytes) where
  left place := by
    rw [hasDirectory_put ((abreast.left folder).trans known), abreast.left]
  right place := by
    rw [hasDirectory_put ((abreast.right folder).trans known), abreast.right]
  contents place := by
    by_cases same : place = folder.entry name
    · subst same
      rw [contents?_put, contents?_put]
      exact .inr rfl
    · rw [contents?_put_of_ne _ _ same, contents?_put_of_ne _ _ same]
      exact abreast.contents place

/-- An entry is written on both disks, or on neither for the same reason. -/
theorem Abreast.write (abreast : Abreast made later one other)
    (furnished : ∀ later, made.GrowsTo later → later.Furnished directory folder)
    (proper : EntryName name) (bytes : Bytes) :
    (∃ error, one.write (directory.join name) bytes = .error error ∧
      other.write (directory.join name) bytes = .error error) ∨
    ∃ one' other', one.write (directory.join name) bytes = .ok one' ∧
      other.write (directory.join name) bytes = .ok other' ∧ Abreast made later one' other' := by
  have first := furnished one fun place known => (abreast.left place).trans known
  have second := furnished other fun place known => (abreast.right place).trans known
  have known := (furnished made (.refl made)).known
  unfold Disk.write
  rw [first.locate name proper, second.locate name proper]
  split
  · exact .inl ⟨_, rfl, rfl⟩
  · cases found : entryOf folder name with
    | error cause => exact .inl ⟨_, rfl, rfl⟩
    | ok place =>
      cases entryOf_eq_ok found
      simp only [bind, Except.bind, abreast.left, abreast.right]
      cases made.hasDirectory (folder.entry name) with
      | true => exact .inl ⟨_, rfl, rfl⟩
      | false => exact .inr ⟨_, _, rfl, rfl, abreast.put known name bytes⟩

/-- Writing leaves a disk on which the directory is there already. -/
theorem Abreast.prepares (abreast : Abreast made later one other)
    (run : disk.makeDirectories directory = .ok made) : disk.Prepares directory other where
  refused error impossible := by cases run.symm.trans impossible
  made also again := by
    cases run.symm.trans again
    rcases exists_furnished run with ⟨folder, furnished⟩
    exact ⟨other, (furnished other fun place known => (abreast.right place).trans known).made,
      abreast.right⟩

end Disk

end NativeWeave
