import Mathlib.Data.List.Basic
import NativeWeave.CommandLine.Disk
import NativeWeave.Proofs.Outcome

namespace NativeWeave

/-!
# Where paths lead

A name is told from the path that it is put behind, and the path leads to an entry of that name.
Directories are never removed, so that a path that leads to a place leads there ever after.
-/

/-! ## Pieces -/

namespace Text

variable {separator : Char} {text front : List Char}

theorem piecesOf_of_not_mem (plain : separator ∉ text) : piecesOf separator text = [text] := by
  induction text with
  | nil => rfl
  | cons c rest ih =>
    rw [List.mem_cons, not_or] at plain
    rw [piecesOf, if_neg (Ne.symm plain.1), ih plain.2]

/-- What stands behind the last separator is the last piece. -/
theorem piecesOf_append (front : List Char) (plain : separator ∉ text) :
    piecesOf separator (front ++ separator :: text) = piecesOf separator front ++ [text] := by
  induction front with
  | nil =>
    change piecesOf separator (separator :: text) = [] :: [text]
    rw [piecesOf, if_pos rfl, piecesOf_of_not_mem plain]
  | cons c front ih =>
    rw [List.cons_append, piecesOf, piecesOf, ih]
    split
    · rfl
    · cases pieces : piecesOf separator front with
      | nil => exact absurd pieces (piecesOf_ne_nil separator front)
      | cons piece more => rfl

theorem not_mem_of_mem_piecesOf {piece : List Char} (listed : piece ∈ piecesOf separator text) :
    separator ∉ piece := by
  induction text generalizing piece with
  | nil =>
    cases List.mem_singleton.mp listed
    exact List.not_mem_nil
  | cons c rest ih =>
    rw [piecesOf] at listed
    split at listed
    · rcases List.mem_cons.mp listed with rfl | later
      · exact List.not_mem_nil
      · exact ih later
    · next other =>
      split at listed
      · cases List.mem_singleton.mp listed
        exact fun inside => other (List.mem_singleton.mp inside).symm
      · next first more pieces =>
        rw [pieces] at ih
        rcases List.mem_cons.mp listed with rfl | later
        · rw [List.mem_cons, not_or]
          exact ⟨Ne.symm other, ih List.mem_cons_self⟩
        · exact ih (List.mem_cons_of_mem _ later)

end Text

/-! ## Names of entries -/

/-- The text can be the name of an entry of a directory. -/
structure EntryName (name : String) : Prop where
  ne_empty : name ≠ ""
  ne_here : name ≠ "."
  ne_parent : name ≠ ".."
  single : '/' ∉ name.toList

namespace Path

variable {path directory : Path} {name stem : String}

theorem not_mem_of_mem_segments {segment : String} (listed : segment ∈ path.segments) :
    '/' ∉ segment.toList := by
  rcases List.mem_map.mp listed with ⟨piece, inside, rfl⟩
  rw [String.toList_ofList]
  exact Text.not_mem_of_mem_piecesOf inside

theorem entryName_of_mem_filterMap {segments : List String} (plain : ∀ segment ∈ segments,
    '/' ∉ segment.toList) (listed : .entry name ∈ segments.filterMap PathStep.ofSegment?) :
    EntryName name := by
  rcases List.mem_filterMap.mp listed with ⟨segment, inside, step⟩
  unfold PathStep.ofSegment? at step
  split at step
  · cases step
  · next other =>
    split at step
    · cases step
    · next below =>
      cases step
      rw [not_or] at other
      exact ⟨other.1, other.2, below, plain _ inside⟩

/-- The file name of a path is a name of an entry. -/
theorem entryName_of_fileName? (named : path.fileName? = some name) : EntryName name := by
  have last : path.steps.getLast? = some (.entry name) := by
    unfold fileName? at named
    split at named
    · next last => rw [last, Option.some.inj named]
    · cases named
  have listed := List.mem_of_getLast? last
  have plain : ∀ segment ∈ path.segments, '/' ∉ segment.toList := fun _ => not_mem_of_mem_segments
  unfold steps at listed
  split at listed
  · cases listed
  · cases listed
  · next more segments =>
    rw [segments, List.forall_mem_cons] at plain
    rcases List.mem_cons.mp listed with impossible | inside
    · cases impossible
    · exact entryName_of_mem_filterMap plain.2 inside
  · next more segments =>
    rw [segments, List.forall_mem_cons] at plain
    rcases List.mem_cons.mp listed with impossible | inside
    · cases impossible
    · exact entryName_of_mem_filterMap plain.2 inside
  · exact entryName_of_mem_filterMap plain listed

/-- The stem of a file name is the file name, or it ends before the last dot of the file name. -/
theorem stem?_eq_some (found : path.stem? = some stem) : ∃ name, path.fileName? = some name ∧
    (stem = name ∨ ∃ behind, '.' ∉ behind ∧ name.toList = stem.toList ++ '.' :: behind) := by
  rcases Option.map_eq_some_iff.mp found with ⟨name, named, rfl⟩
  refine ⟨name, named, ?_⟩
  let undotted := name.toList.reverse.takeWhile (· ≠ '.')
  have split : undotted ++ name.toList.reverse.dropWhile (· ≠ '.') = name.toList.reverse :=
    List.takeWhile_append_dropWhile
  cases rest : name.toList.reverse.dropWhile (· ≠ '.') with
  | nil =>
    rw [rest, List.append_nil] at split
    have whole : undotted.length = name.length := by
      rw [split, List.length_reverse, String.length_toList]
    have empty : (name.toList.take (name.length - undotted.reverse.length - 1)).isEmpty = true := by
      rw [List.length_reverse, whole, Nat.sub_self, List.take_zero]
      rfl
    exact .inl (congrArg Prod.fst (if_pos empty))
  | cons c more =>
    have dot : c = '.' := by
      have stops := List.head?_dropWhile_not (· ≠ '.') name.toList.reverse
      rw [rest] at stops
      simpa using stops
    subst dot
    have ends : name.toList = more.reverse ++ '.' :: undotted.reverse := by
      rw [rest] at split
      rw [← List.reverse_reverse name.toList, ← split, List.reverse_append, List.reverse_cons,
        List.append_assoc]
      rfl
    have length : name.length - undotted.reverse.length - 1 = more.reverse.length := by
      have whole := congrArg List.length ends
      rw [String.length_toList, List.length_append, List.length_cons] at whole
      omega
    have before : name.toList.take (name.length - undotted.reverse.length - 1) = more.reverse := by
      rw [length, ends, List.take_left]
    have parts : (splitExtension name).1 =
        if more.reverse.isEmpty then name else String.ofList more.reverse := by
      change Prod.fst (if (name.toList.take (name.length - undotted.reverse.length - 1)).isEmpty
        then (name, none) else (String.ofList _, some _)) = _
      rw [before]
      split <;> rfl
    rw [parts]
    split
    · exact .inl rfl
    · refine .inr ⟨undotted.reverse, fun inside => ?_, ?_⟩
      · have plain := List.all_eq_true.mp List.all_takeWhile _ (List.mem_reverse.mp inside)
        simp at plain
      · rw [String.toList_ofList]
        exact ends

/-- The name of a report is that of an entry, and not the file name of the module. -/
theorem entryName_report (found : path.stem? = some stem) (named : path.fileName? = some name) :
    EntryName (stem ++ ".tether.json") ∧ name ≠ stem ++ ".tether.json" := by
  rcases stem?_eq_some found with ⟨_, same, ending⟩
  cases named.symm.trans same
  have single := (entryName_of_fileName? named).single
  have ends : ".tether.json".toList = ['.', 't', 'e', 't', 'h', 'e', 'r', '.', 'j', 's', 'o', 'n'] :=
    rfl
  have within : '/' ∉ stem.toList := by
    rcases ending with rfl | ⟨behind, _, split⟩
    · exact single
    · rw [split] at single
      exact fun inside => single (List.mem_append_left _ inside)
  have length : (stem ++ ".tether.json").length = stem.length + 12 := String.length_append _ _
  refine ⟨⟨?_, ?_, ?_, ?_⟩, ?_⟩
  · intro same
    rw [same] at length
    cases length
  · intro same
    rw [same] at length
    cases length
  · intro same
    rw [same] at length
    cases length
  · rw [String.toList_append, List.mem_append, not_or, ends]
    exact ⟨within, by decide⟩
  · intro same
    rcases ending with rfl | ⟨behind, plain, split⟩
    · rw [← same] at length
      omega
    · rw [same, String.toList_append, List.append_cancel_left_eq, ends] at split
      rw [← List.tail_eq_of_cons_eq split] at plain
      exact plain (by decide)

/-- What stands in front of the name of an entry depends on the directory only: it is the directory,
without a slash at the end. -/
theorem exists_segments_join (directory : Path) : ∃ front,
    (directory.text.isEmpty = true ∧ front = [] ∨ directory.text.isEmpty = false ∧
      (directory.segments = front ∨ directory.segments = front ++ [""])) ∧
    ∀ name : String, '/' ∉ name.toList → (directory.join name).segments = front ++ [name] := by
  have last : ∀ (front : List Char) {name : String}, '/' ∉ name.toList →
      (Text.piecesOf '/' (front ++ '/' :: name.toList)).map String.ofList =
        (Text.piecesOf '/' front).map String.ofList ++ [name] := by
    intro front name plain
    rw [Text.piecesOf_append front plain, List.map_append, List.map_singleton, String.ofList_toList]
  by_cases empty : directory.text.isEmpty = true
  · have none : directory.text = "" := String.isEmpty_iff.mp empty
    refine ⟨[], .inl ⟨empty, rfl⟩, fun name plain => ?_⟩
    rw [join, if_pos (by rw [empty]; rfl), segments, Text.pieces, none, String.empty_append,
      Text.piecesOf_of_not_mem plain, List.map_singleton, String.ofList_toList]
    rfl
  · have full := Bool.eq_false_iff.mpr empty
    by_cases closed : directory.text.toList.getLast? = some '/'
    · rcases List.getLast?_eq_some_iff.mp closed with ⟨front, ends⟩
      refine ⟨(Text.piecesOf '/' front).map String.ofList, .inr ⟨full, .inr ?_⟩, fun name plain => ?_⟩
      · rw [segments, Text.pieces, ends, Text.piecesOf_append front List.not_mem_nil,
          List.map_append]
        rfl
      · rw [join, if_pos (by rw [closed, beq_self_eq_true, Bool.or_true]), segments, Text.pieces,
          String.toList_append, ends, List.append_assoc]
        exact last front plain
    · refine ⟨directory.segments, .inr ⟨full, .inl rfl⟩, fun name plain => ?_⟩
      rw [join, if_neg (by rw [Bool.or_eq_true, beq_iff_eq]; exact not_or.mpr ⟨empty, closed⟩),
        segments, Text.pieces, String.toList_append, String.toList_append, List.append_assoc]
      exact last _ plain

theorem join_ne {name other : String} (entry : EntryName name) (entry' : EntryName other)
    (different : name ≠ other) : directory.join name ≠ directory.join other := by
  rcases directory.exists_segments_join with ⟨front, _, ends⟩
  intro same
  have segments := congrArg segments same
  rw [ends name entry.single, ends other entry'.single] at segments
  exact different (List.head_eq_of_cons_eq (List.append_cancel_left segments))

end Path

/-! ## Growing disks -/

namespace Disk

variable {disk later : Disk} {place inner : Place} {path : Path} {bytes : Bytes}

/-- Every directory of the first disk is one of the second. -/
def GrowsTo (disk later : Disk) : Prop :=
  ∀ place, disk.hasDirectory place = true → later.hasDirectory place = true

theorem GrowsTo.refl (disk : Disk) : disk.GrowsTo disk :=
  fun _ => id

theorem GrowsTo.trans {middle : Disk} (first : disk.GrowsTo middle) (second : middle.GrowsTo later) :
    disk.GrowsTo later :=
  fun place known => second place (first place known)

/-- A disk grows if its directories stay and every file has one beside it afterwards. -/
theorem growsTo_of_places (kept : ∀ directory ∈ disk.directories, directory ∈ later.directories)
    (beside : ∀ file ∈ disk.files, ∃ other ∈ later.files, other.1 = file.1) :
    disk.GrowsTo later := by
  intro place known
  rw [hasDirectory, Bool.or_eq_true] at known ⊢
  refine known.imp_right fun known => ?_
  rcases List.any_eq_true.mp known with ⟨directory, listed, leads⟩
  refine List.any_eq_true.mpr ⟨directory, ?_, leads⟩
  rcases List.mem_append.mp listed with own | parent
  · exact List.mem_append_left _ (kept directory own)
  · rcases List.mem_map.mp parent with ⟨file, inside, rfl⟩
    rcases beside file inside with ⟨other, there, same⟩
    exact List.mem_append_right _ (List.mem_map.mpr ⟨other, there, by rw [same]⟩)

theorem growsTo_put (disk : Disk) (place : Place) (bytes : Bytes) :
    disk.GrowsTo (disk.put place bytes) := by
  refine growsTo_of_places (fun _ => id) fun file listed => ?_
  by_cases same : file.1 = place
  · exact ⟨(place, bytes), List.mem_append_right _ List.mem_cons_self, same.symm⟩
  · exact ⟨file, List.mem_append_left _ (List.mem_filter.mpr ⟨listed, by simpa using same⟩), rfl⟩

theorem makeAlong_eq_ok {segments : List String} (run : disk.makeAlong place segments = .ok later) :
    disk.GrowsTo later ∧ later.files = disk.files := by
  induction segments generalizing disk place with
  | nil =>
    cases run
    exact ⟨.refl _, rfl⟩
  | cons segment more ih =>
    rw [makeAlong] at run
    split at run
    · exact ih run
    · cases run
    · split at run
      · cases run
      · rcases ih run with ⟨grows, files⟩
        have made : disk.GrowsTo { disk with directories := disk.directories ++ [place.entry segment] } :=
          growsTo_of_places (fun _ => List.mem_append_left _) fun file listed => ⟨file, listed, rfl⟩
        exact ⟨made.trans grows, files⟩
    · cases run

theorem makeDirectories_eq_ok (run : disk.makeDirectories path = .ok later) :
    disk.GrowsTo later ∧ later.files = disk.files := by
  unfold makeDirectories at run
  split at run
  · cases run
    exact ⟨.refl _, rfl⟩
  · rcases bind_eq_ok_iff.mp run with ⟨_, _, run⟩
    exact makeAlong_eq_ok run

theorem enter_of_growsTo (grows : disk.GrowsTo later) {segment : String}
    (run : disk.enter place segment = .ok inner) : later.enter place segment = .ok inner := by
  unfold enter at run ⊢
  split at run
  · next here =>
    rw [if_pos here]
    exact run
  · next below =>
    rw [if_neg below]
    split at run
    · next up =>
      rw [if_pos up]
      exact run
    · next entry =>
      rw [if_neg entry]
      cases named : entryOf place segment with
      | error cause =>
        rw [named] at run
        cases run
      | ok found =>
        rw [named] at run
        change (if disk.hasDirectory found = true then Except.ok found else _) = _ at run
        change (if later.hasDirectory found = true then Except.ok found else _) = _
        split at run
        · next known =>
          rw [if_pos (grows found known)]
          exact run
        · split at run <;> cases run

/-- Of more than one segment the first is entered. -/
theorem follow_cons {segment next : String} {more : List String} :
    disk.follow place (segment :: next :: more) =
      (disk.enter place segment).bind fun inner => disk.follow inner (next :: more) :=
  rfl

theorem follow_of_growsTo (grows : disk.GrowsTo later) {segments : List String}
    (run : disk.follow place segments = .ok inner) : later.follow place segments = .ok inner := by
  induction segments generalizing place with
  | nil => exact run
  | cons segment more ih =>
    cases more with
    | nil =>
      rw [follow] at run ⊢
      split at run
      · next dots =>
        rw [if_pos dots]
        exact enter_of_growsTo grows run
      · next entry =>
        rw [if_neg entry]
        exact run
    | cons next more =>
      rcases bind_eq_ok_iff.mp run with ⟨middle, entered, run⟩
      rw [follow_cons, enter_of_growsTo grows entered]
      exact ih run

/-- A path that leads to a place leads there ever after. -/
theorem locate_of_growsTo (grows : disk.GrowsTo later) (run : disk.locate path = .ok place) :
    later.locate path = .ok place := by
  rcases bind_eq_ok_iff.mp run with ⟨_, begun, run⟩
  rw [locate, begun]
  exact follow_of_growsTo grows run

/-- Segments that end with the name of an entry lead to an entry of that name. -/
theorem exists_entry_of_follow {segments : List String} {name : String} (entry : EntryName name)
    (run : disk.follow place (segments ++ [name]) = .ok inner) :
    ∃ folder : Place, inner = folder.entry name := by
  induction segments generalizing place with
  | nil =>
    change (if name = "" ∨ name = "." ∨ name = ".." then _ else entryOf place name) = _ at run
    rw [if_neg (not_or.mpr ⟨entry.ne_empty, not_or.mpr ⟨entry.ne_here, entry.ne_parent⟩⟩),
      entryOf] at run
    split at run
    · cases run
    · cases run
      exact ⟨place, rfl⟩
  | cons segment more ih =>
    rcases List.exists_cons_of_ne_nil (List.append_ne_nil_of_right_ne_nil more (List.cons_ne_nil name [])) with ⟨next, rest, split⟩
    rw [List.cons_append, split] at run
    rcases bind_eq_ok_iff.mp run with ⟨middle, _, run⟩
    exact ih (split ▸ run)

theorem exists_entry_of_locate {directory : Path} {name : String} (entry : EntryName name)
    (run : disk.locate (directory.join name) = .ok place) :
    ∃ folder : Place, place = folder.entry name := by
  have begins : ∀ anchor segments, start (directory.join name) = .ok (anchor, segments) →
      ∃ front, segments = front ++ [name] := by
    rcases directory.exists_segments_join with ⟨front, _, ends⟩
    intro anchor segments begun
    unfold start at begun
    rw [ends name entry.single] at begun
    split at begun
    · cases begun
    · split at begun
      · cases begun
      · next more split =>
        cases begun
        cases front with
        | nil => exact absurd (List.head_eq_of_cons_eq split) entry.ne_empty
        | cons first rest => exact ⟨rest, (List.tail_eq_of_cons_eq split).symm⟩
      · cases begun
        exact ⟨front, rfl⟩
  rcases bind_eq_ok_iff.mp run with ⟨⟨anchor, segments⟩, begun, run⟩
  rcases begins anchor segments begun with ⟨front, rfl⟩
  exact exists_entry_of_follow entry run

/-- Behind one directory, different names lead to different places. -/
theorem place_ne_of_locate {directory : Path} {name other : String} {there : Place}
    (entry : EntryName name) (entry' : EntryName other) (different : name ≠ other)
    (run : disk.locate (directory.join name) = .ok place)
    (run' : later.locate (directory.join other) = .ok there) : place ≠ there := by
  rcases exists_entry_of_locate entry run with ⟨folder, rfl⟩
  rcases exists_entry_of_locate entry' run' with ⟨folder', rfl⟩
  intro same
  have names := congrArg Place.names same
  exact different (List.head_eq_of_cons_eq (List.append_inj' names rfl).2)

/-! ## Writing and reading -/

theorem write_eq_ok (run : disk.write path bytes = .ok later) :
    ∃ place, disk.locate path = .ok place ∧ later = disk.put place bytes := by
  unfold write at run
  cases located : disk.locate path with
  | error cause =>
    rw [located] at run
    cases run
  | ok place =>
    rw [located] at run
    change (if disk.hasDirectory place = true then _ else _) = _ at run
    split at run
    · cases run
    · cases run
      exact ⟨place, rfl, rfl⟩

theorem read_eq_ok (located : disk.locate path = .ok place)
    (held : disk.contents? place = some bytes) : disk.read path = .ok bytes := by
  simp only [read, located, bind, Except.bind, held]
  rfl

end Disk

end NativeWeave
