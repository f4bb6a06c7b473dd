import NativeWeave.CommandLine.FileAccess

namespace NativeWeave

/-!
# Files held in memory

A disk holds the files below a working directory.  Files and directories are known by the names that
lead to them from there.  The directories above the working directory and the root of them all are
there too, but what else they hold is not known and does not exist.
-/

/-- A directory that is always there. -/
inductive Anchor
  | root
  /-- The working directory, or the directory so many levels above it. -/
  | above (levels : Nat)
deriving DecidableEq, Repr

/-- Where a file or directory is: the names that lead to it from an anchor. -/
structure Place where
  anchor : Anchor := .above 0
  names : List String := []
deriving DecidableEq, Repr

namespace Place

/-- The entry of a directory. -/
def entry (place : Place) (name : String) : Place :=
  { place with names := place.names ++ [name] }

/-- The directory that holds an entry.  The root holds itself. -/
def parent (place : Place) : Place :=
  match place.names, place.anchor with
  | [], .root => place
  | [], .above levels => ⟨.above (levels + 1), []⟩
  | names, _ => { place with names := names.dropLast }

/-- The names that lead from a place to another one below it. -/
def namesTo? (place inner : Place) : Option (List String) :=
  if place.anchor = inner.anchor ∧ place.names <+: inner.names then
    some (inner.names.drop place.names.length)
  else
    none

end Place

/-- Files with their contents, and directories. -/
structure Disk where
  files : List (Place × Bytes) := []
  /-- Directories besides those in which there are files. -/
  directories : List Place := []
deriving DecidableEq, Repr

namespace Disk

/-- The contents of a file. -/
def contents? (disk : Disk) (place : Place) : Option Bytes :=
  (disk.files.find? (·.1 = place)).map (·.2)

/-- The place is an anchor, was made a directory, or has a file somewhere below. -/
def hasDirectory (disk : Disk) (place : Place) : Bool :=
  place.names.isEmpty
    || (disk.directories ++ disk.files.map (·.1.parent)).any fun other =>
      (place.namesTo? other).isSome

/-- Write a file, over what it held before. -/
def put (disk : Disk) (place : Place) (bytes : Bytes) : Disk :=
  { disk with files := disk.files.filter (·.1 ≠ place) ++ [(place, bytes)] }

theorem contents?_put (disk : Disk) (place : Place) (bytes : Bytes) :
    (disk.put place bytes).contents? place = some bytes := by
  have absent : (disk.files.filter (·.1 ≠ place)).find? (·.1 = place) = none :=
    List.find?_eq_none.mpr fun file member same => by simp_all [List.mem_filter]
  rw [contents?, put, List.find?_append, absent]
  simp

theorem contents?_put_of_ne (disk : Disk) {place other : Place} (bytes : Bytes)
    (different : other ≠ place) :
    (disk.put place bytes).contents? other = disk.contents? other := by
  unfold contents? put
  rw [List.find?_append]
  have kept : (disk.files.filter (·.1 ≠ place)).find? (·.1 = other)
      = disk.files.find? (·.1 = other) := by
    rw [List.find?_filter]
    congr 1
    funext file
    by_cases same : file.1 = other <;> simp [same, different]
  rw [kept]
  have unlike : ([(place, bytes)] : List (Place × Bytes)).find? (·.1 = other) = none := by
    simp [different.symm]
  rw [unlike, Option.or_none]

/-! ## Following paths -/

/-- How many bytes the name of a file may have. -/
def nameLimit : Nat := 255

/-- How many bytes a path may have. -/
def pathLimit : Nat := 4095

/-- The entry of a directory with a name that is not too long. -/
def entryOf (place : Place) (name : String) : Except FileError Place :=
  if nameLimit < name.utf8ByteSize then .error .nameTooLong else .ok (place.entry name)

/-- What happens at a segment on the way: it may stay, go up, or enter a directory. -/
def enter (disk : Disk) (place : Place) (segment : String) : Except FileError Place :=
  if segment = "" ∨ segment = "." then
    .ok place
  else if segment = ".." then
    .ok place.parent
  else do
    let inner ← entryOf place segment
    if disk.hasDirectory inner then
      return inner
    else if (disk.contents? inner).isSome then
      throw .notDirectory
    else
      throw .notFound

/-- The place that segments lead to.  All but the last have to be directories. -/
def follow (disk : Disk) (place : Place) : List String → Except FileError Place
  | [] => .ok place
  | [last] =>
    if last = "" ∨ last = "." ∨ last = ".." then disk.enter place last else entryOf place last
  | segment :: more => do disk.follow (← disk.enter place segment) more

/-- Where a path starts, and its segments from there. -/
def start (path : Path) : Except FileError (Place × List String) :=
  if pathLimit < path.text.utf8ByteSize then
    .error .nameTooLong
  else
    match path.segments with
    | [""] => .error .notFound
    | "" :: segments => .ok (⟨.root, []⟩, segments)
    | segments => .ok ({}, segments)

/-- The place that a path leads to. -/
def locate (disk : Disk) (path : Path) : Except FileError Place := do
  let (place, segments) ← start path
  disk.follow place segments

/-! ## The operations -/

def isFile (disk : Disk) (path : Path) : Bool :=
  match disk.locate path with
  | .ok place => (disk.contents? place).isSome
  | .error _ => false

def isDirectory (disk : Disk) (path : Path) : Bool :=
  match disk.locate path with
  | .ok place => disk.hasDirectory place
  | .error _ => false

def read (disk : Disk) (path : Path) : Except FileError Bytes := do
  let place ← disk.locate path
  match disk.contents? place with
  | some bytes => return bytes
  | none => throw (if disk.hasDirectory place then .isDirectory else .notFound)

def write (disk : Disk) (path : Path) (bytes : Bytes) : Except FileError Disk := do
  let place ← disk.locate path
  if disk.hasDirectory place then throw .isDirectory
  return disk.put place bytes

/-- The segments lead nowhere further, and one of them is a dot. -/
def endWithDot (segments : List String) : Bool :=
  segments.contains "." && segments.all fun segment => segment = "" || segment = "."

/-- Make directories along segments, where nothing has their names.  A file in the way is said to
exist if it stands at the end, and a dot at the end needs a directory that is there already. -/
def makeAlong (disk : Disk) (place : Place) : List String → Except FileError Disk
  | [] => .ok disk
  | segment :: more =>
    match disk.enter place segment with
    | .ok inner => disk.makeAlong inner more
    | .error .notDirectory =>
      .error (if more.all (·.isEmpty) then .alreadyExists else .notDirectory)
    | .error .notFound =>
      if endWithDot more then
        .error .notFound
      else
        let made := place.entry segment
        { disk with directories := disk.directories ++ [made] }.makeAlong made more
    | .error cause => .error cause

def makeDirectories (disk : Disk) (path : Path) : Except FileError Disk :=
  if path.text.isEmpty then
    .ok disk
  else do
    let (place, segments) ← start path
    disk.makeAlong place segments

/-- The files below a directory whose names on the way all suit. -/
def filesBelow (disk : Disk) (suits : String → Bool) (directory : Path) :
    Except FileError (List Path) := do
  let place ← disk.locate directory
  return disk.files.filterMap fun (file, _) => do
    let inner ← place.namesTo? file
    if inner.all suits then some (inner.foldl Path.join directory) else none

end Disk

/-- Run an operation that changes the disk unless it is refused. -/
def Disk.change (operation : Disk → Except FileError Disk) : StateM Disk (Except FileError Unit) :=
  fun disk =>
    match operation disk with
    | .ok changed => (.ok (), changed)
    | .error cause => (.error cause, disk)

instance : FileAccess (StateM Disk) where
  isFile path := fun disk => (disk.isFile path, disk)
  isDirectory path := fun disk => (disk.isDirectory path, disk)
  read path := fun disk => (disk.read path, disk)
  write path bytes := Disk.change (·.write path bytes)
  makeDirectories path := Disk.change (·.makeDirectories path)
  filesBelow suits path := fun disk => (disk.filesBelow suits path, disk)

end NativeWeave
