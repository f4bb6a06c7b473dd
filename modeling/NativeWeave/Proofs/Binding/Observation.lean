import NativeWeave.Proofs.Binding.Order
import NativeWeave.Proofs.Binding.Propagation
import NativeWeave.Proofs.Flags

namespace NativeWeave

/-!
# What a hash says about a report

The hash of a type is taken over one description of its binding, and its report shows another one.  As
long as no two of the hashed texts collide, types with the same hash have the same report but for the
hashes in it, with two provisos: the text leaves out the native names of functions, and of the values
of a function it lists it does not say which is the return value, which only the flags tell.
-/

/-! ## Descriptions are told from the code behind them -/

namespace Bytes

theorem encodeChar_append_inj {first second : Char} {front back : Bytes}
    (same : String.utf8EncodeChar first ++ front = String.utf8EncodeChar second ++ back) :
    first = second ∧ front = back := by
  have reads : ∀ (c : Char) (rest : Bytes),
      (String.utf8EncodeChar c ++ rest).toByteArray.utf8DecodeChar? 0 = some c := by
    intro c rest
    rw [List.toByteArray_append]
    exact ByteArray.utf8DecodeChar?_utf8EncodeChar_append
  have one := reads first front
  rw [same, reads second back] at one
  cases one
  exact ⟨rfl, List.append_cancel_left same⟩

/-- Where the same bytes begin with two texts, one of the texts begins with the other. -/
theorem exists_append_of_encoded {first second : List Char} {front back : Bytes}
    (same : first.flatMap String.utf8EncodeChar ++ front =
      second.flatMap String.utf8EncodeChar ++ back) :
    (∃ rest, second = first ++ rest) ∨ ∃ rest, first = second ++ rest := by
  induction first generalizing second with
  | nil => exact .inl ⟨second, rfl⟩
  | cons c first ih =>
    cases second with
    | nil => exact .inr ⟨c :: first, rfl⟩
    | cons d second =>
      simp only [List.flatMap_cons, List.append_assoc] at same
      rcases encodeChar_append_inj same with ⟨rfl, more⟩
      rcases ih more with ⟨rest, rfl⟩ | ⟨rest, rfl⟩
      · exact .inl ⟨rest, rfl⟩
      · exact .inr ⟨rest, rfl⟩

end Bytes

/-- Descriptions end where their last brace closes, whatever code follows them. -/
theorem object_eq_of_preimage_eq {members others : List (String × Json)} {code other : Bytes}
    (legible : (Json.object members).Legible) (known : (Json.object others).Legible)
    (same : preimage (.object members) code = preimage (.object others) other) :
    Json.object members = .object others := by
  rw [preimage_eq, preimage_eq] at same
  cases legible with | object each =>
  cases known with | object every =>
  have apart : ∀ {members : List (String × Json)}, (∀ member ∈ members, member.2.Legible) →
      ∀ member ∈ members, Json.Apart Json.Legible Json.chars member.2 :=
    fun each member inside => (each member inside).apart
  rcases Bytes.exists_append_of_encoded same with ⟨rest, longer⟩ | ⟨rest, longer⟩
  · have texts : (Json.object members).chars ++ rest = (Json.object others).chars ++ [] := by
      rw [longer, List.append_nil]
    rw [(Json.object_append_inj (apart each) each every texts).1]
  · have texts : (Json.object members).chars ++ [] = (Json.object others).chars ++ rest := by
      rw [longer, List.append_nil]
    rw [(Json.object_append_inj (apart each) each every texts).1]

/-! ## Members -/

theorem Json.ofNat_inj {first second : Nat} (same : ofNat first = ofNat second) :
    first = second :=
  Nat.repr_inj.mp (Json.number.inj same)

/-- Items that give the same results one after another look alike, if the result of an item tells how
it looks. -/
theorem map_eq_of_mapM {Item Result View : Type} {step other : Item → Weave Result}
    {view : Item → View}
    (told : ∀ first second result, step first = .ok result → other second = .ok result →
      view first = view second)
    {items others : List Item} {results : List Result} (run : items.mapM step = .ok results)
    (again : others.mapM other = .ok results) : items.map view = others.map view := by
  induction items generalizing others results with
  | nil =>
    cases run
    cases others with
    | nil => rfl
    | cons second more =>
      rw [List.mapM_cons] at again
      rcases bind_eq_ok_iff.mp again with ⟨_, _, again⟩
      rcases bind_eq_ok_iff.mp again with ⟨_, _, impossible⟩
      cases impossible
  | cons first more ih =>
    rw [List.mapM_cons] at run
    rcases bind_eq_ok_iff.mp run with ⟨result, head, run⟩
    rcases bind_eq_ok_iff.mp run with ⟨results, tail, final⟩
    cases final
    cases others with
    | nil => cases again
    | cons second others =>
      rw [List.mapM_cons] at again
      rcases bind_eq_ok_iff.mp again with ⟨result', head', again⟩
      rcases bind_eq_ok_iff.mp again with ⟨results', tail', final⟩
      cases final
      rw [List.map_cons, List.map_cons, told first second result head head', ih tail tail']

namespace MemberBinding

/-- What hashes tell of a member. -/
def seen (member : MemberBinding) : Json × PropertyFlags :=
  (member.report, member.flags)

theorem seen_eq_of_description_eq {member other : MemberBinding} {first second : Option String}
    (same : member.description first = other.description second) : member.seen = other.seen := by
  simp only [description, Json.object.injEq, List.cons.injEq, Prod.mk.injEq, Json.string.injEq,
    true_and, and_true] at same
  rcases same with ⟨name, nativeName, category, bits, _⟩
  have flags : member.flags = other.flags :=
    congrArg FlagSet.mk (UInt64.toNat_inj.mp (Json.ofNat_inj bits))
  rw [seen, seen, report, report, name, nativeName, category, flags]

end MemberBinding

/-! ## Functions -/

namespace FunctionBinding

/-- What hashes tell of a function.  Its parameters and its return value are in one list. -/
def seen (function : FunctionBinding) : String × FunctionFlags × List (Json × PropertyFlags) :=
  (function.name, function.flags, function.values.map (·.seen))

/-- The return value has the flag for that. -/
def MarksResult (function : FunctionBinding) : Prop :=
  ∀ value ∈ function.result, value.flags.has .returnParameter = true

/-- No parameter has the flag of return values. -/
def TellsResult (function : FunctionBinding) : Prop :=
  ∀ value ∈ function.parameters, value.flags.has .returnParameter = false

/-- The flags tell the return value from the parameters. -/
theorem result_eq_of_values_eq {function other : FunctionBinding}
    (tells : function.TellsResult) (tells' : other.TellsResult) (marks : function.MarksResult)
    (marks' : other.MarksResult)
    (same : function.values.map (·.seen) = other.values.map (·.seen)) :
    function.parameters.map (·.seen) = other.parameters.map (·.seen) ∧
      function.result.map (·.seen) = other.result.map (·.seen) := by
  -- A return value on one side only would be a parameter on the other.
  have apart : ∀ {one two : FunctionBinding}, one.TellsResult → two.MarksResult →
      ∀ value ∈ two.result, value.seen ∉ one.parameters.map (·.seen) := by
    intro one two tells marks value returned inside
    rcases List.mem_map.mp inside with ⟨parameter, listed, alike⟩
    have flags : parameter.flags = value.flags := congrArg Prod.snd alike
    have plain := tells parameter listed
    rw [flags, marks value returned] at plain
    cases plain
  rw [values, values, List.map_append, List.map_append] at same
  cases one : function.result with
  | none =>
    cases two : other.result with
    | none =>
      rw [one, two] at same
      exact ⟨List.append_cancel_right same, rfl⟩
    | some value =>
      rw [one, two, Option.toList_none, List.map_nil, List.append_nil] at same
      exact absurd (same ▸ List.mem_append_right _ List.mem_cons_self) (apart tells marks' value two)
  | some value =>
    cases two : other.result with
    | none =>
      rw [one, two, Option.toList_none, List.map_nil, List.append_nil] at same
      exact absurd (same ▸ List.mem_append_right _ List.mem_cons_self) (apart tells' marks value one)
    | some result =>
      rw [one, two] at same
      rcases List.append_inj' same rfl with ⟨front, last⟩
      exact ⟨front, congrArg some (List.head_eq_of_cons_eq last)⟩

theorem report_eq_of_seen_eq {function other : FunctionBinding}
    (tells : function.TellsResult) (tells' : other.TellsResult) (marks : function.MarksResult)
    (marks' : other.MarksResult) (named : function.nativeName = other.nativeName)
    (same : function.seen = other.seen) : function.report = other.report := by
  simp only [seen, Prod.mk.injEq] at same
  rcases same with ⟨name, flags, values⟩
  rcases result_eq_of_values_eq tells tells' marks marks' values with ⟨parameters, result⟩
  have shown : function.parameters.map (·.report) = other.parameters.map (·.report) := by
    have views := congrArg (List.map Prod.fst) parameters
    rwa [List.map_map, List.map_map] at views
  have returned : function.result.map (·.report) = other.result.map (·.report) := by
    have views := congrArg (Option.map Prod.fst) result
    rwa [Option.map_map, Option.map_map] at views
  rw [report, report, name, flags, named, shown, returned]

/-- Functions that look alike to hashes and have the same native names are reported alike. -/
theorem reports_eq_of_seen_eq {functions others : List FunctionBinding}
    (tells : ∀ function ∈ functions ++ others, function.TellsResult)
    (marks : ∀ function ∈ functions ++ others, function.MarksResult)
    (named : functions.map (·.nativeName) = others.map (·.nativeName))
    (same : functions.map (·.seen) = others.map (·.seen)) :
    functions.map (·.report) = others.map (·.report) := by
  rw [List.forall_mem_append] at tells marks
  induction functions generalizing others with
  | nil =>
    cases others with
    | nil => rfl
    | cons other more => cases named
  | cons function functions ih =>
    cases others with
    | nil => cases named
    | cons other others =>
      simp only [List.map_cons, List.cons.injEq, List.forall_mem_cons] at *
      exact ⟨report_eq_of_seen_eq tells.1.1 tells.2.1 marks.1.1 marks.2.1 named.1 same.1,
        ih ⟨tells.1.2, tells.2.2⟩ ⟨marks.1.2, marks.2.2⟩ named.2 same.2⟩

end FunctionBinding

namespace Scope

open Remembering

variable {scope : Scope} {type : TypeDef} {index : Nat}

theorem gives_marked_extractResult (method : Method) :
    Gives (scope.extractResult type method) fun found =>
      ∀ value ∈ found.binding, value.flags.has .returnParameter = true := by
  unfold extractResult
  split
  · exact .pure fun _ impossible => nomatch impossible
  · refine .after fun found => ?_
    cases found with
    | error diagnostic => exact .pure fun _ impossible => nomatch impossible
    | ok member =>
      dsimp only
      split
      · exact .pure fun _ impossible => nomatch impossible
      · refine .pure fun value same => ?_
        cases same
        exact FlagSet.has_insertAll (List.mem_cons_of_mem _ List.mem_cons_self)

theorem marksResult_extractFunction (method : Method) :
    Gives (scope.extractFunction type method index) fun found =>
      ∀ function ∈ found.binding, function.MarksResult := by
  unfold extractFunction
  split
  · refine .after fun parameters => .bind (gives_marked_extractResult method) fun result marked => ?_
    dsimp only
    split
    · exact .pure fun _ impossible => nomatch impossible
    · refine .pure fun function same => ?_
      cases same
      exact marked
  · exact .pure fun _ impossible => nomatch impossible

theorem marksResult_extractClass : Gives (scope.extractClass index type) fun found =>
    ∀ binding ∈ found.binding, ∀ function ∈ binding.functions, function.MarksResult := by
  unfold extractClass
  split
  · refine .after fun members => .bind (.mapM fun item _ => marksResult_extractFunction item.1)
      fun functions marked => .pure fun binding found => ?_
    rw [← eq_of_mem_unless found]
    intro function listed
    rcases List.mem_filterMap.mp listed with ⟨result, inside, present⟩
    exact marked result inside function present
  · exact .pure fun _ impossible => nomatch impossible

end Scope

/-! ## Types -/

/-- What is described of an enumeration. -/
def EnumBinding.description (binding : EnumBinding) : Json :=
  .object [
    ("kind", .string NativeTypeKind.enumType.text),
    ("name", .string binding.name.full),
    ("native_name", .string binding.nativeName),
    ("members", .strings binding.members)]

theorem EnumBinding.legible_description (binding : EnumBinding) : binding.description.Legible := by
  refine .object ?_
  simp only [List.forall_mem_cons]
  refine ⟨.string _, .string _, .string _, .array fun item listed => ?_, List.forall_mem_nil _⟩
  rcases List.mem_map.mp listed with ⟨name, _, rfl⟩
  exact .string name

/-- The report without the hashes in it. -/
def TypeReport.unhashed (report : TypeReport) : TypeReport :=
  { report with hash := "", baseHash := none }

namespace TypeBinding

/-- The code that is hashed behind the description. -/
def code (module : Module) : TypeBinding → Bytes
  | ofClass binding => binding.constructorCode module
  | _ => []

def members : TypeBinding → List MemberBinding
  | ofClass binding => binding.members
  | ofStruct binding => binding.members
  | ofEnum _ => []

def functions : TypeBinding → List FunctionBinding
  | ofClass binding => binding.functions
  | _ => []

/-- What is reported of a type apart from hashes. -/
def report (binding : TypeBinding) : TypeReport where
  kind := binding.kind
  name := binding.name
  nativeName := binding.nativeName
  hash := ""
  members := binding.members
  functions := binding.functions

theorem marksResult_of_mem_extract {scope : Scope} {binding : TypeBinding}
    (member : binding ∈ scope.extract.bindings) :
    ∀ function ∈ binding.functions, function.MarksResult := by
  rcases scope.exists_declares_of_mem_extract binding member with ⟨_, type, present, rfl, _⟩
  refine @Scope.forall_mem_extract scope type
    (fun _ binding => ∀ function ∈ binding.functions, function.MarksResult)
    (fun _ _ _ _ => List.forall_mem_nil _) (fun _ _ _ _ _ => fun _ _ _ => List.forall_mem_nil _)
    (fun _ _ _ _ => Scope.marksResult_extractClass) binding member present

end TypeBinding

namespace Fingerprints

variable {known other : Fingerprints} {bindings others : Bindings} {description : Json}
  {owner owner' : QualifiedName}

/-- What the hash of a type is taken over. -/
def describe (known : Fingerprints) (bindings : Bindings) : TypeBinding → Weave Json
  | .ofClass binding => known.describeClass bindings binding
  | .ofStruct binding => known.describeStruct bindings binding
  | .ofEnum binding => .ok binding.description

theorem exists_object_of_describe {binding : TypeBinding}
    (run : known.describe bindings binding = .ok description) :
    description.Legible ∧ ∃ more, description = .object (
      ("kind", .string binding.kind.text) :: ("name", .string binding.name.full) ::
        ("native_name", .string binding.nativeName) :: more) := by
  cases binding with
  | ofClass binding =>
    refine ⟨legible_describeClass run, ?_⟩
    rcases bind_eq_ok_iff.mp run with ⟨_, _, run⟩
    rcases bind_eq_ok_iff.mp run with ⟨_, _, run⟩
    rcases bind_eq_ok_iff.mp run with ⟨_, _, final⟩
    cases final
    exact ⟨_, rfl⟩
  | ofStruct binding =>
    refine ⟨legible_describeStruct run, ?_⟩
    rcases bind_eq_ok_iff.mp run with ⟨_, _, final⟩
    cases final
    exact ⟨_, rfl⟩
  | ofEnum binding =>
    cases run
    exact ⟨binding.legible_description, _, rfl⟩

theorem seen_eq_of_members {values values' : List MemberBinding} {descriptions : List Json}
    (run : known.members bindings owner values = .ok descriptions)
    (again : other.members others owner' values' = .ok descriptions) :
    values.map (·.seen) = values'.map (·.seen) := by
  refine map_eq_of_mapM (fun first second result one two => ?_) run again
  rcases bind_eq_ok_iff.mp one with ⟨nested, _, final⟩
  rcases bind_eq_ok_iff.mp two with ⟨nested', _, final'⟩
  cases final
  exact (MemberBinding.seen_eq_of_description_eq (Except.ok.inj final')).symm

theorem seen_eq_of_functions {functions functions' : List FunctionBinding}
    {descriptions : List Json}
    (run : functions.mapM (known.function bindings owner) = .ok descriptions)
    (again : functions'.mapM (other.function others owner') = .ok descriptions) :
    functions.map (·.seen) = functions'.map (·.seen) := by
  refine map_eq_of_mapM (fun first second result one two => ?_) run again
  rcases bind_eq_ok_iff.mp one with ⟨values, described, final⟩
  rcases bind_eq_ok_iff.mp two with ⟨values', described', final'⟩
  cases final
  have parts := Except.ok.inj final'
  simp only [Json.object.injEq, List.cons.injEq, Prod.mk.injEq, Json.array.injEq,
    Json.string.injEq, true_and, and_true] at parts
  rcases parts with ⟨name, bits, rfl⟩
  have flags : second.flags = first.flags :=
    congrArg FlagSet.mk (UInt64.toNat_inj.mp (Json.ofNat_inj bits))
  rw [FunctionBinding.seen, FunctionBinding.seen, name, flags, seen_eq_of_members described described']

/-- Types with the same description are of one kind and have the same names, and hashes tell no
difference between their members and functions. -/
theorem seen_eq_of_describe {binding binding' : TypeBinding}
    (run : known.describe bindings binding = .ok description)
    (again : other.describe others binding' = .ok description) :
    binding.kind = binding'.kind ∧ binding.name.full = binding'.name.full ∧
      binding.nativeName = binding'.nativeName ∧
      binding.members.map (·.seen) = binding'.members.map (·.seen) ∧
      binding.functions.map (·.seen) = binding'.functions.map (·.seen) := by
  have kinds : ∀ first second : NativeTypeKind, first.text = second.text → first = second := by
    intro first second
    cases first <;> cases second <;> decide
  rcases exists_object_of_describe run with ⟨_, more, shape⟩
  rcases exists_object_of_describe again with ⟨_, more', shape'⟩
  have heads := shape.symm.trans shape'
  simp only [Json.object.injEq, List.cons.injEq, Prod.mk.injEq, Json.string.injEq,
    true_and] at heads
  rcases heads with ⟨kind, name, nativeName, -⟩
  refine ⟨kinds _ _ kind, name, nativeName, ?_⟩
  cases binding <;> cases binding' <;> cases kinds _ _ kind
  case ofClass.ofClass binding binding' =>
    rcases bind_eq_ok_iff.mp run with ⟨hash, _, run⟩
    rcases bind_eq_ok_iff.mp run with ⟨functions, each, run⟩
    rcases bind_eq_ok_iff.mp run with ⟨members, described, final⟩
    rcases bind_eq_ok_iff.mp again with ⟨hash', _, again⟩
    rcases bind_eq_ok_iff.mp again with ⟨functions', each', again⟩
    rcases bind_eq_ok_iff.mp again with ⟨members', described', final'⟩
    cases final
    have parts := Except.ok.inj final'
    simp only [typeDescription, Json.object.injEq, List.cons.injEq, Prod.mk.injEq, Json.array.injEq,
      true_and, and_true] at parts
    rcases parts with ⟨_, _, rfl, rfl, _⟩
    exact ⟨seen_eq_of_members described described', seen_eq_of_functions each each'⟩
  case ofStruct.ofStruct binding binding' =>
    rcases bind_eq_ok_iff.mp run with ⟨members, described, final⟩
    rcases bind_eq_ok_iff.mp again with ⟨members', described', final'⟩
    cases final
    have parts := Except.ok.inj final'
    simp only [typeDescription, Json.object.injEq, List.cons.injEq, Prod.mk.injEq, Json.array.injEq,
      true_and, and_true] at parts
    rcases parts with ⟨_, _, rfl⟩
    exact ⟨seen_eq_of_members described described', rfl⟩
  case ofEnum.ofEnum => exact ⟨rfl, rfl⟩

end Fingerprints

namespace Scope

variable {scope : Scope} {result : WovenModule}

/-- The texts that the hashes of the annotated types of a module are taken over. -/
def hashedTexts (scope : Scope) : List Bytes :=
  match scope.extract.bindings.fingerprints scope.module with
  | .error _ => []
  | .ok known => scope.extract.bindings.filterMap fun binding =>
    (known.describe scope.extract.bindings binding).toOption.map
      (preimage · (binding.code scope.module))

/-- A report of a woven module is that of a binding, and its hash is taken over the description of the
binding. -/
theorem exists_described_of_mem (woven : scope.weave = .ok (.woven result))
    (distinct : (scope.module.types.map (·.qualifiedName)).Nodup) {report : TypeReport}
    (listed : report ∈ result.report.types) :
    ∃ (known : Fingerprints) (binding : TypeBinding) (description : Json),
      binding ∈ scope.extract.bindings ∧
      known.describe scope.extract.bindings binding = .ok description ∧
      preimage description (binding.code scope.module) ∈ scope.hashedTexts ∧
      report.hash = digest description (binding.code scope.module) ∧
      report.unhashed = binding.report := by
  have apart := distinct_extract distinct
  rcases exists_report_of_weave woven with ⟨progress, run, _, reported, _⟩
  have hashed := Bindings.fingerprints_of_process run
  have settled := (Bindings.grown_of_fingerprints hashed).settled
  rcases bind_eq_ok_iff.mp reported with ⟨types, each, final⟩
  rw [← Except.ok.inj final] at listed
  rcases exists_of_mem_mapM each listed with ⟨binding, member, told⟩
  suffices ∃ description,
      progress.known.describe scope.extract.bindings binding = .ok description ∧
      report.hash = digest description (binding.code scope.module) ∧
      report.unhashed = binding.report by
    rcases this with ⟨description, described, hash, same⟩
    refine ⟨progress.known, binding, description, member, described, ?_, hash, same⟩
    rw [hashedTexts, hashed]
    refine List.mem_filterMap.mpr ⟨binding, member, ?_⟩
    rw [described]
    rfl
  cases binding with
  | ofClass binding =>
    dsimp only [TypeReport.ofBinding] at told
    cases recorded : progress.known.class? binding.name with
    | none =>
      rw [recorded] at told
      cases told
    | some hashes =>
      rw [recorded] at told
      cases told
      rcases settled.classes recorded with ⟨own, description, found, _, described, hash⟩
      cases (apart.findClass?_eq (List.mem_filterMap.mpr ⟨_, member, rfl⟩)).symm.trans found
      exact ⟨description, described, hash, rfl⟩
  | ofStruct binding =>
    dsimp only [TypeReport.ofBinding] at told
    cases recorded : progress.known.struct? binding.name with
    | none =>
      rw [recorded] at told
      cases told
    | some hash =>
      rw [recorded] at told
      cases told
      rcases settled.structs recorded with ⟨own, description, found, described, hash⟩
      cases (apart.findStruct?_eq (List.mem_filterMap.mpr ⟨_, member, rfl⟩)).symm.trans found
      exact ⟨description, described, hash, rfl⟩
  | ofEnum binding =>
    cases told
    exact ⟨binding.description, rfl, rfl, rfl⟩

end Scope

/-- Unless two of the hashed texts collide, types of two woven modules whose reports differ in more
than hashes have different hashes.  The types of each module have names of their own, the functions of
the types have the same native names, and no parameter carries the flag of return values. -/
theorem TypeReport.hash_ne_of_weave {scope other : Scope} {result result' : WovenModule}
    (woven : scope.weave = .ok (.woven result)) (woven' : other.weave = .ok (.woven result'))
    (distinct : (scope.module.types.map (·.qualifiedName)).Nodup)
    (distinct' : (other.module.types.map (·.qualifiedName)).Nodup)
    (free : Set.InjOn sha256 {text | text ∈ scope.hashedTexts ∨ text ∈ other.hashedTexts})
    {report report' : TypeReport} (listed : report ∈ result.report.types)
    (listed' : report' ∈ result'.report.types)
    (named : report.functions.map (·.nativeName) = report'.functions.map (·.nativeName))
    (tells : ∀ function ∈ report.functions ++ report'.functions, function.TellsResult)
    (differs : report.unhashed.toJson ≠ report'.unhashed.toJson) : report.hash ≠ report'.hash := by
  intro same
  rcases Scope.exists_described_of_mem woven distinct listed with
    ⟨known, binding, description, member, described, text, hash, shown⟩
  rcases Scope.exists_described_of_mem woven' distinct' listed' with
    ⟨known', binding', description', member', described', text', hash', shown'⟩
  have texts := free (.inl text) (.inr text') (Bytes.toHex_inj (hash.symm.trans (same.trans hash')))
  rcases Fingerprints.exists_object_of_describe described with ⟨legible, more, rfl⟩
  rcases Fingerprints.exists_object_of_describe described' with ⟨legible', more', rfl⟩
  rw [object_eq_of_preimage_eq legible legible' texts] at described
  rcases Fingerprints.seen_eq_of_describe described described' with
    ⟨kind, name, nativeName, members, functions⟩
  have own : report.functions = binding.functions := congrArg TypeReport.functions shown
  have own' : report'.functions = binding'.functions := congrArg TypeReport.functions shown'
  rw [own, own'] at named tells
  have membersShown : binding.members.map (·.report) = binding'.members.map (·.report) := by
    have views := congrArg (List.map Prod.fst) members
    rwa [List.map_map, List.map_map] at views
  have functionsShown := FunctionBinding.reports_eq_of_seen_eq tells
    (List.forall_mem_append.mpr ⟨TypeBinding.marksResult_of_mem_extract member,
      TypeBinding.marksResult_of_mem_extract member'⟩) named functions
  apply differs
  rw [shown, shown']
  simp only [TypeReport.toJson, TypeBinding.report, kind, name, nativeName, membersShown,
    functionsShown]

/-! ## An enumeration under two native names -/

namespace Stance

def type (nativeName : String) : TypeDef where
  name := "Stance"
  namespaceName := "Game"
  kind := .enumType
  underlying := some (.primitive .u8)
  attributes := [{
    type := ⟨"Tether.Attributes", "NativeEnum"⟩, named := [("Name", .string nativeName)] }]
  fields := [{
    name := "Calm", type := .named ⟨"Game", "Stance"⟩
    flags := Field.literalFlag, constant := some 0 }]

def scope (nativeName : String) : Scope where
  context := { modules := [] }
  module := { Module.empty "Game" with types := [type nativeName] }

def binding (nativeName : String) : EnumBinding where
  name := ⟨"Game", "Stance"⟩
  nativeName
  type := 0
  members := ["Calm"]

def report (nativeName : String) : TypeReport :=
  { (TypeBinding.ofEnum (binding nativeName)).report with hash := (binding nativeName).hash }

theorem structOrder_binding (name : String) :
    Bindings.structOrder [.ofEnum (binding name)] = .ok [] := by
  have none : Bindings.structs [.ofEnum (binding name)] = [] := rfl
  rw [Bindings.structOrder, none, List.map_nil, Bindings.visitAll]

theorem classOrder_binding (name : String) :
    Bindings.classOrder [.ofEnum (binding name)] = .ok [] :=
  rfl

section Named

variable {name : String} (named : name = "Calm" ∨ name = "Tense")
include named

theorem extract_scope : (scope name).extract = ⟨[.ofEnum (binding name)], []⟩ := by
  have found : (scope name).extractEnum 0 (type name) = ⟨some (binding name), []⟩ := by
    rcases named with rfl | rfl <;> rfl
  have free : (scope name).nameCollision (type name) (.ofEnum (binding name)) = [] := rfl
  have annotated :
      (scope name).config.isAnnotated (type name).attributes Annotation.nativeEnum = true := by
    rcases named with rfl | rfl <;> decide
  have ordinary : (scope name).config.isWrapperOnly (type name).name = false := by cbv
  exact Scope.extract_eq_singleton rfl
    (Scope.examine_eq_ofEnum ordinary rfl annotated free found)

theorem hashedTexts_scope :
    (scope name).hashedTexts = [preimage (binding name).description []] := by
  have hashed : Bindings.fingerprints [.ofEnum (binding name)] (scope name).module = .ok {} := by
    unfold Bindings.fingerprints
    rw [structOrder_binding, classOrder_binding]
    rfl
  rw [Scope.hashedTexts, extract_scope named]
  dsimp only
  rw [hashed]
  rfl

theorem exists_woven : ∃ result, (scope name).weave = .ok (.woven result) ∧
    result.report.types = [report name] := by
  have fresh : (scope name).module.isWoven = false := by
    rcases named with rfl | rfl <;> decide
  obtain ⟨draft, started, silent⟩ : ∃ draft,
      Draft.start (scope name) [.ofEnum (binding name)] = .ok draft ∧ draft.diagnostics = [] :=
    ⟨_, rfl, rfl⟩
  have clean : Diagnostic.hasErrors ([] ++ draft.diagnostics) = false := by rw [silent]; rfl
  have run : (scope name).process [.ofEnum (binding name)] =
      .ok { draft, ledger := ⟨[⟨"Game", "Stance"⟩]⟩ } := by
    simp only [Scope.process, structOrder_binding, classOrder_binding, started, ok_bind]
    rfl
  rw [Scope.weave, fresh, if_neg Bool.false_ne_true, extract_scope named]
  change ∃ result, (scope name).weaveBindings ⟨[.ofEnum (binding name)], []⟩ = _ ∧ _
  simp only [Scope.weaveBindings, run, ok_bind, clean]
  exact ⟨_, rfl, rfl⟩

end Named

theorem nodup_digests : (([preimage (binding "Calm").description []] ++
    [preimage (binding "Tense").description []]).map sha256).Nodup := by
  simp only [preimage_eq]
  decide +kernel

end Stance

/-- The native name of an enumeration shows in its hash. -/
theorem TypeReport.hash_ne_of_weave_stance : ∃ first second,
    (Stance.scope "Calm").weave = .ok (.woven first) ∧
    (Stance.scope "Tense").weave = .ok (.woven second) ∧
    Set.InjOn sha256 {text |
      text ∈ (Stance.scope "Calm").hashedTexts ∨ text ∈ (Stance.scope "Tense").hashedTexts} ∧
    ∃ one ∈ first.report.types, ∃ other ∈ second.report.types, one.name = other.name ∧
      one.unhashed.toJson ≠ other.unhashed.toJson ∧ one.hash ≠ other.hash := by
  rcases Stance.exists_woven (.inl rfl) with ⟨first, woven, types⟩
  rcases Stance.exists_woven (.inr rfl) with ⟨second, woven', types'⟩
  have free : Set.InjOn sha256 {text |
      text ∈ (Stance.scope "Calm").hashedTexts ∨ text ∈ (Stance.scope "Tense").hashedTexts} := by
    rw [Stance.hashedTexts_scope (.inl rfl), Stance.hashedTexts_scope (.inr rfl)]
    intro text one other two same
    exact List.inj_on_of_nodup_map Stance.nodup_digests (List.mem_append.mpr one)
      (List.mem_append.mpr two) same
  have differs : (Stance.report "Calm").unhashed.toJson ≠
      (Stance.report "Tense").unhashed.toJson := by
    simp [toJson, unhashed, Stance.report, TypeBinding.report, TypeBinding.nativeName,
      Stance.binding]
  have listed : Stance.report "Calm" ∈ first.report.types := types ▸ List.mem_cons_self
  have listed' : Stance.report "Tense" ∈ second.report.types := types' ▸ List.mem_cons_self
  exact ⟨first, second, woven, woven', free, _, listed, _, listed', rfl, differs,
    hash_ne_of_weave woven woven' (List.nodup_singleton _) (List.nodup_singleton _) free listed
      listed' rfl (List.forall_mem_nil _) differs⟩

end NativeWeave
