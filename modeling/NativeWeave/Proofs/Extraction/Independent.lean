import NativeWeave.Proofs.Category.MutualReference
import NativeWeave.Proofs.Extraction.Declaration

namespace NativeWeave

/-!
# Each type is examined by itself

The types of a module are examined one after another, and what is remembered of one is at hand for
the next.  Where no two types have the same name, none of that shows: what is found of a type is what
is found of it when nothing is remembered, apart from the hashes that members contribute for structs
which refer to each other.  The proof follows an examination from two memories side by side.
-/

/-! ## Bindings without the hashes of other structs -/

def MemberBinding.withoutHash (member : MemberBinding) : MemberBinding :=
  { member with hashOverride := none }

/-- Members that are alike differ in the hash at most. -/
theorem MemberBinding.eq_of_withoutHash_eq {member other : MemberBinding}
    (alike : member.withoutHash = other.withoutHash) :
    other = { member with hashOverride := other.hashOverride } := by
  cases member
  cases other
  cases alike
  rfl

def FunctionBinding.withoutHashes (function : FunctionBinding) : FunctionBinding :=
  { function with
    parameters := function.parameters.map (·.withoutHash)
    result := function.result.map (·.withoutHash) }

def ClassBinding.withoutHashes (binding : ClassBinding) : ClassBinding :=
  { binding with
    members := binding.members.map (·.withoutHash)
    functions := binding.functions.map (·.withoutHashes) }

def StructBinding.withoutHashes (binding : StructBinding) : StructBinding :=
  { binding with members := binding.members.map (·.withoutHash) }

def TypeBinding.withoutHashes : TypeBinding → TypeBinding
  | ofClass binding => .ofClass binding.withoutHashes
  | ofStruct binding => .ofStruct binding.withoutHashes
  | ofEnum binding => .ofEnum binding

namespace TypeBinding

variable (binding : TypeBinding)

@[simp]
theorem place_withoutHashes : binding.withoutHashes.place = binding.place := by
  cases binding <;> rfl

@[simp]
theorem kind_withoutHashes : binding.withoutHashes.kind = binding.kind := by
  cases binding <;> rfl

@[simp]
theorem nativeName_withoutHashes : binding.withoutHashes.nativeName = binding.nativeName := by
  cases binding <;> rfl

end TypeBinding

namespace Extracted

variable {Binding Other : Type}

/-- What was found, with a binding that is seen through a function. -/
def map (view : Binding → Other) (found : Extracted Binding) : Extracted Other :=
  ⟨found.binding.map view, found.diagnostics⟩

theorem map_bindings (view : Binding → Other) (results : List (Extracted Binding)) :
    (bindings results).map view = bindings (results.map (·.map view)) := by
  simp only [bindings, List.map_filterMap, List.filterMap_map]
  rfl

theorem allDiagnostics_map (view : Binding → Other) (results : List (Extracted Binding)) :
    allDiagnostics (results.map (·.map view)) = allDiagnostics results :=
  List.flatMap_map ..

variable {view : Binding → Other} {one other : List (Extracted Binding)}
  (alike : one.map (·.map view) = other.map (·.map view))
include alike

theorem map_bindings_of_alike : (bindings one).map view = (bindings other).map view := by
  rw [map_bindings, map_bindings, alike]

theorem allDiagnostics_of_alike : allDiagnostics one = allDiagnostics other := by
  rw [← allDiagnostics_map view one, alike, allDiagnostics_map]

end Extracted

/-! ## Two memories side by side -/

namespace Remembering

variable {α β γ δ : Type} {fit : Memory → Prop} {view : α → γ} {final : β → δ}

/-- From any two fit memories the two steps give results that look alike, and leave the memories
fit. -/
def Agree (fit : Memory → Prop) (view : α → γ) (first second : Remembering α) : Prop :=
  ∀ one other, fit one → fit other → view (first one).1 = view (second other).1 ∧
    fit (first one).2 ∧ fit (second other).2

/-- From all fit memories the step gives results that look alike. -/
abbrev Settles (fit : Memory → Prop) (view : α → γ) (step : Remembering α) : Prop :=
  Agree fit view step step

theorem Agree.pure {one other : α} (alike : view one = view other) :
    Agree fit view (Pure.pure one) (Pure.pure other) :=
  fun _ _ ready waiting => ⟨alike, ready, waiting⟩

theorem Agree.bind {first second : Remembering α} {next after : α → Remembering β}
    (start : Agree fit view first second)
    (later : ∀ one other, view one = view other → Agree fit final (next one) (after other)) :
    Agree fit final (first >>= next) (second >>= after) := by
  intro one other ready waiting
  rcases start one other ready waiting with ⟨alike, kept, still⟩
  exact later _ _ alike _ _ kept still

/-- A step whose result is the same from every fit memory. -/
theorem Keeps.settles {step : Remembering α} {value : α} (keeps : Keeps fit step (· = value)) :
    Settles fit id step :=
  fun one other ready waiting =>
    ⟨(keeps one ready).1.trans (keeps other waiting).1.symm, (keeps one ready).2,
      (keeps other waiting).2⟩

/-- A step whose result is not looked at. -/
theorem Keeps.overlooked {step : Remembering α} {condition : α → Prop}
    (keeps : Keeps fit step condition) : Settles fit (fun _ => ()) step :=
  fun one other ready waiting => ⟨rfl, (keeps one ready).2, (keeps other waiting).2⟩

theorem Agree.mapM {items : List α} {step : α → Remembering β}
    (each : ∀ item ∈ items, Settles fit final (step item)) :
    Settles fit (List.map final) (items.mapM step) := by
  induction items with
  | nil =>
    rw [List.mapM_nil]
    exact .pure rfl
  | cons item more ih =>
    rw [List.forall_mem_cons] at each
    rw [List.mapM_cons]
    refine .bind each.1 fun one other alike => .bind (ih each.2) fun ones others same => .pure ?_
    rw [List.map_cons, List.map_cons, alike, same]

/-- In a run from a fit memory each item gives what it gives from another fit memory by itself. -/
theorem map_mapM_of_settles {items : List α} {step : α → Remembering β}
    (each : ∀ item ∈ items, Settles fit final (step item)) {memory fresh : Memory}
    (ready : fit memory) (empty : fit fresh) :
    (items.mapM step memory).1.map final = items.map fun item => final (step item fresh).1 := by
  induction items generalizing memory with
  | nil =>
    rw [List.mapM_nil]
    rfl
  | cons item more ih =>
    rw [List.forall_mem_cons] at each
    rcases each.1 memory fresh ready empty with ⟨alike, kept, _⟩
    rw [List.mapM_cons]
    change final (step item memory).1 :: (more.mapM step (step item memory).2).1.map final = _
    rw [ih each.2 kept, alike, List.map_cons]

end Remembering

open Remembering

/-! ## Examinations from two memories -/

namespace Scope

variable {scope : Scope} {type : TypeDef} {index : Nat}

theorem settles_extractMember (declaration : MemberDeclaration) :
    Settles (Memory.Faithful scope []) (Except.map (·.withoutHash))
      (scope.extractMember type declaration) := by
  unfold extractMember
  dsimp only
  refine .bind (keeps_classify _ _).settles fun answer other same => ?_
  cases same
  cases answer with
  | error refusal => exact .pure rfl
  | ok category =>
    exact .bind (keeps_hashOverride? _ _).overlooked fun override other _ => .pure rfl

/-- What follows the binding of a declaration settles if it does not look at the hash. -/
theorem settles_extractMember_bind {Result View : Type} {view : Result → View}
    {declaration : MemberDeclaration}
    {next : Except Diagnostic MemberBinding → Remembering Result}
    (refused : ∀ diagnostic, Settles (Memory.Faithful scope []) view (next (.error diagnostic)))
    (bound : ∀ member hash, Agree (Memory.Faithful scope []) view (next (.ok member))
      (next (.ok { member with hashOverride := hash }))) :
    Settles (Memory.Faithful scope []) view (scope.extractMember type declaration >>= next) := by
  refine .bind (settles_extractMember declaration) fun one other alike => ?_
  cases one with
  | error diagnostic =>
    cases other with
    | error another =>
      cases alike
      exact refused diagnostic
    | ok _ => cases alike
  | ok member =>
    cases other with
    | error _ => cases alike
    | ok another =>
      rw [MemberBinding.eq_of_withoutHash_eq (Except.ok.inj alike)]
      exact bound member another.hashOverride

theorem settles_extractChecked (declaration : MemberDeclaration) :
    Settles (Memory.Faithful scope []) (Extracted.map (·.withoutHash))
      (scope.extractChecked type declaration) :=
  settles_extractMember_bind (fun _ => .pure rfl) fun _ _ => .pure rfl

theorem settles_extractProperty (property : Property) :
    Settles (Memory.Faithful scope []) (Extracted.map (·.withoutHash))
      (scope.extractProperty type property index) := by
  unfold extractProperty
  split
  · exact .pure rfl
  · split
    · exact .pure rfl
    · split
      · exact .pure rfl
      · exact settles_extractChecked _

theorem settles_extractField (field : Field) :
    Settles (Memory.Faithful scope []) (Extracted.map (·.withoutHash))
      (scope.extractField type field index) := by
  unfold extractField
  split
  · exact .pure rfl
  · split
    · exact .pure rfl
    · exact settles_extractChecked _

theorem settles_extractValue (method : Method) (declaration : MemberDeclaration)
    (direction : List PropertyFlag) :
    Settles (Memory.Faithful scope []) (Extracted.map (·.withoutHash))
      (scope.extractValue type method declaration direction) := by
  refine settles_extractMember_bind (fun _ => .pure rfl) fun member hash => ?_
  dsimp only
  split
  · exact .pure rfl
  · exact .pure rfl

theorem settles_extractResult (method : Method) :
    Settles (Memory.Faithful scope []) (Extracted.map (·.withoutHash))
      (scope.extractResult type method) := by
  unfold extractResult
  split
  · exact .pure rfl
  · exact settles_extractValue _ _ _

/-- Whether a function is dropped depends on what is reported of it, and that is settled. -/
theorem settles_extractFunction (method : Method) :
    Settles (Memory.Faithful scope []) (Extracted.map (·.withoutHashes))
      (scope.extractFunction type method index) := by
  unfold extractFunction
  split
  · unfold extractAnnotated
    dsimp only
    refine .bind (.mapM fun item _ => settles_extractValue _ _ _) fun parameters others same => ?_
    refine .bind (settles_extractResult method) fun result other alike => ?_
    have reported := Extracted.allDiagnostics_of_alike same
    have listed := Extracted.map_bindings_of_alike same
    have found : result.diagnostics = other.diagnostics := congrArg (·.diagnostics) alike
    have given : result.binding.map (·.withoutHash) = other.binding.map (·.withoutHash) :=
      congrArg (·.binding) alike
    rw [reported, found]
    split
    · exact .pure rfl
    · refine .pure ?_
      simp only [Extracted.map, Option.map_some, FunctionBinding.withoutHashes, listed, given]
      rfl
  · exact .pure rfl

theorem settles_extractClass :
    Settles (Memory.Faithful scope []) (Extracted.map (·.withoutHashes))
      (scope.extractClass index type) := by
  unfold extractClass
  split
  · refine .bind (.mapM fun item _ => settles_extractProperty item.1) fun members others same => ?_
    refine .bind (.mapM fun item _ => settles_extractFunction item.1) fun functions rest alike => ?_
    refine .pure ?_
    simp only [Extracted.map, Extracted.allDiagnostics_of_alike same,
      Extracted.allDiagnostics_of_alike alike, apply_ite (Option.map _), Option.map_none,
      Option.map_some, ClassBinding.withoutHashes, Extracted.map_bindings_of_alike same,
      Extracted.map_bindings_of_alike alike]
  · exact .pure rfl

theorem settles_extractStruct (resolved : scope.resolve? type.qualifiedName = some type) :
    Settles (Memory.Faithful scope []) (Extracted.map (·.withoutHashes))
      (scope.extractStruct index type) := by
  refine .bind (.mapM fun item _ => settles_extractField item.1) fun fields others same => ?_
  refine .bind (keeps_structRepr? resolved).settles fun repr other equal => ?_
  cases equal
  refine .pure ?_
  simp only [Extracted.map, Extracted.allDiagnostics_of_alike same, apply_ite (Option.map _),
    Option.map_none, Option.map_some, StructBinding.withoutHashes,
    Extracted.map_bindings_of_alike same]

/-- A step that only wraps what another one found. -/
theorem settles_wrapped {Binding Other : Type} {fit : Memory → Prop} {view : Binding → Other}
    {step : Remembering (Extracted Binding)} {wrap : Binding → TypeBinding}
    {wrapOther : Other → TypeBinding} (settles : Settles fit (Extracted.map view) step)
    (commutes : ∀ binding, (wrap binding).withoutHashes = wrapOther (view binding)) :
    Settles fit (Extracted.map (·.withoutHashes)) (do
      let found ← step
      return ⟨found.binding.map wrap, found.diagnostics⟩) := by
  refine .bind settles fun one other alike => .pure ?_
  have same := congrArg (Extracted.map wrapOther) alike
  simpa [Extracted.map, Function.comp_def, commutes] using same

theorem settles_extractType (resolved : scope.resolve? type.qualifiedName = some type) :
    Settles (Memory.Faithful scope []) (Extracted.map (·.withoutHashes))
      (scope.extractType index type) := by
  unfold extractType
  dsimp only
  split
  · exact .pure rfl
  · split
    · exact settles_wrapped (settles_extractStruct resolved) fun _ => rfl
    · split
      · exact settles_wrapped settles_extractClass fun _ => rfl
      · exact .pure rfl

/-- Collisions are looked for under the native name, which is no hash. -/
theorem settles_examine (resolved : scope.resolve? type.qualifiedName = some type) :
    Settles (Memory.Faithful scope []) (Extracted.map (·.withoutHashes))
      (scope.examine type index) := by
  unfold examine
  split
  · exact .pure rfl
  · refine .bind (settles_extractType resolved) fun one other alike => .pure ?_
    have same : one.binding.map (·.withoutHashes) = other.binding.map (·.withoutHashes) :=
      congrArg (·.binding) alike
    have found : one.diagnostics = other.diagnostics := congrArg (·.diagnostics) alike
    have collisions : ∀ binding : Option TypeBinding,
        (binding.map (·.withoutHashes)).toList.flatMap (scope.nameCollision type) =
          binding.toList.flatMap (scope.nameCollision type) := by
      rintro (_ | binding)
      · rfl
      · simp [nameCollision]
    simp only [Extracted.map, found, same, ← collisions one.binding, ← collisions other.binding]

/-! ## The run over all types -/

/-- What is found of a type when nothing is remembered. -/
def examineAlone (scope : Scope) (type : TypeDef) (index : Nat) : Extracted TypeBinding :=
  (scope.examine type index {}).1

theorem place_of_examineAlone {binding : TypeBinding}
    (found : (scope.examineAlone type index).binding = some binding) : binding.place = index :=
  (gives_examine {} binding found).1

/-- Of bindings that the types of a module have in order, the one for a place is that of the type
that stands there. -/
theorem find?_place_filterMap {own : TypeDef × Nat → Option TypeBinding}
    (places : ∀ item binding, own item = some binding → binding.place = item.2)
    (present : scope.module.types[index]? = some type) :
    (scope.module.types.zipIdx.filterMap own).find? (·.place == index) = own (type, index) := by
  have listed : (type, index) ∈ scope.module.types.zipIdx :=
    List.mk_mem_zipIdx_iff_getElem?.mpr present
  have only : ∀ item ∈ scope.module.types.zipIdx, (own item).any (·.place == index) = true →
      item = (type, index) := by
    intro ⟨other, place⟩ inside fits
    rcases Option.any_eq_true _ _ |>.mp fits with ⟨binding, given, here⟩
    have same : place = index := (places _ binding given).symm.trans (beq_iff_eq.mp here)
    have there := List.mk_mem_zipIdx_iff_getElem?.mp inside
    rw [same, present] at there
    rw [Option.some.inj there, same]
  rw [List.find?_filterMap]
  cases search : scope.module.types.zipIdx.find? fun item => (own item).any (·.place == index) with
  | some item =>
    have fits := (List.find?_eq_some_iff_append.mp search).1
    rw [only item (List.mem_of_find?_eq_some search) fits]
    rfl
  | none =>
    have missing := List.find?_eq_none.mp search _ listed
    cases given : own (type, index) with
    | none => rfl
    | some binding => simp [given, places _ binding given] at missing

theorem extract_eq : scope.extract =
    let results := (scope.module.types.zipIdx.mapM (fun item => scope.examine item.1 item.2) {}).1
    ⟨Extracted.bindings results, Extracted.allDiagnostics results⟩ :=
  rfl

/-- Where types have distinct names, what is found of a module is in order what is found of each of
its types alone: the very same diagnostics, and the same bindings apart from hashes. -/
theorem extract_eq_each (distinct : (scope.module.types.map (·.qualifiedName)).Nodup) :
    scope.extract.diagnostics = scope.module.types.zipIdx.flatMap (fun item =>
        (scope.examineAlone item.1 item.2).diagnostics) ∧
      scope.extract.bindings.map (·.withoutHashes) =
        scope.module.types.zipIdx.filterMap (fun item =>
          (scope.examineAlone item.1 item.2).binding.map (·.withoutHashes)) ∧
      ∀ index type, scope.module.types[index]? = some type →
        (scope.extract.bindings.find? (·.place == index)).map (·.withoutHashes) =
          (scope.examineAlone type index).binding.map (·.withoutHashes) := by
  have settles : ∀ item ∈ scope.module.types.zipIdx, Settles (Memory.Faithful scope [])
      (Extracted.map (·.withoutHashes)) (scope.examine item.1 item.2) := by
    intro ⟨type, index⟩ listed
    have here := List.mem_of_getElem? (List.mk_mem_zipIdx_iff_getElem?.mp listed)
    exact settles_examine (resolve?_of_mem distinct here)
  have same : (scope.module.types.zipIdx.mapM (fun item => scope.examine item.1 item.2) {}).1.map
      (Extracted.map (·.withoutHashes)) = scope.module.types.zipIdx.map fun item =>
        (scope.examineAlone item.1 item.2).map (·.withoutHashes) :=
    map_mapM_of_settles settles faithful_empty faithful_empty
  have bindings : scope.extract.bindings.map (·.withoutHashes) =
      scope.module.types.zipIdx.filterMap (fun item =>
        (scope.examineAlone item.1 item.2).binding.map (·.withoutHashes)) := by
    rw [extract_eq, Extracted.map_bindings, same, Extracted.bindings, List.filterMap_map]
    rfl
  refine ⟨?_, bindings, fun index type present => ?_⟩
  · rw [extract_eq]
    dsimp only
    rw [← Extracted.allDiagnostics_map TypeBinding.withoutHashes, same]
    exact List.flatMap_map ..
  · have places : ∀ (item : TypeDef × Nat) (binding : TypeBinding),
        (scope.examineAlone item.1 item.2).binding.map (·.withoutHashes) = some binding →
          binding.place = item.2 := by
      intro item binding given
      rcases Option.map_eq_some_iff.mp given with ⟨found, alone, rfl⟩
      rw [TypeBinding.place_withoutHashes, place_of_examineAlone alone]
    rw [← find?_place_filterMap places present, ← bindings, List.find?_map]
    simp only [Function.comp_def, TypeBinding.place_withoutHashes]

end Scope

/-! ## Structs that refer to each other beside a faulty enumeration -/

namespace Sample

/-- An enumeration that is not backed by a byte. -/
def palette : TypeDef where
  name := "Palette"
  namespaceName := "Game"
  kind := .enumType
  underlying := some (.primitive .i32)
  attributes := [{ type := ⟨"Tether.Attributes", "NativeEnum"⟩ }]

def gallery : Scope := scope [left, palette, right]

def paletteFinding : Diagnostic :=
  (Diagnostic.error .enumBackingType
    "enum 'Game.Palette' is backed by 'int' but native enums must be backed by a byte").atSymbol
      "Game.Palette"

end Sample

/-- What is wrong with the enumeration stands between what is found of the two structs. -/
theorem Scope.extract_eq_each_gallery :
    (Sample.gallery.module.types.map (·.qualifiedName)).Nodup ∧
      Sample.gallery.extract.diagnostics =
        (Sample.gallery.examineAlone Sample.left 0).diagnostics ++
          Sample.paletteFinding :: (Sample.gallery.examineAlone Sample.right 2).diagnostics ∧
      Sample.gallery.extract.bindings.find? (·.place == 1) = none := by
  have distinct : (Sample.gallery.module.types.map (·.qualifiedName)).Nodup := by decide
  have alone : Sample.gallery.examineAlone Sample.palette 1 = .ofDiagnostic Sample.paletteFinding :=
    rfl
  rcases extract_eq_each distinct with ⟨diagnostics, _, each⟩
  refine ⟨distinct, diagnostics.trans ?_, Option.map_eq_none_iff.mp (each 1 Sample.palette rfl)⟩
  change (Sample.gallery.examineAlone Sample.left 0).diagnostics ++
    ((Sample.gallery.examineAlone Sample.palette 1).diagnostics ++
      ((Sample.gallery.examineAlone Sample.right 2).diagnostics ++ [])) = _
  rw [alone, List.append_nil]
  rfl

end NativeWeave
