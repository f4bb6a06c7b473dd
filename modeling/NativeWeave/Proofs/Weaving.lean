import NativeWeave.Proofs.Editing.Coverage
import NativeWeave.Proofs.Editing.Growth
import NativeWeave.Proofs.Extraction.Declaration
import NativeWeave.Proofs.Run

namespace NativeWeave

/-!
# Weaving keeps a module verified

Each type is edited once, from the form that it had in the source, and is verified against the
tables of that moment as far as its plan lists its methods.  The invariant of a run over the types
says that the draft is verified as a whole and that the types which were not processed yet are those
of the source.
-/

/-- Larger tables keep a module verified. -/
theorem Module.verify_of_grows {module : Module} {tables : Tables}
    (grows : module.tables.Grows tables) (verified : module.verify = .ok ()) :
    { module with tables }.verify = .ok () := by
  rcases module.verify_eq_ok_iff.mp verified with ⟨valid, bodies⟩
  refine (Module.verify_eq_ok_iff _).mpr ⟨valid, fun type present method member => ?_⟩
  exact Method.verify_of_grows grows (bodies type present method member)

namespace Draft

/-- The draft of a source is verified, and the types without a processed name are as they were. -/
structure Sound (draft : Draft) (source : Module) (processed : List QualifiedName) : Prop where
  origin : draft.source = source
  verified : draft.module.verify = .ok ()
  untouched : ∀ {index : Nat} {type : TypeDef}, source.types[index]? = some type →
    type.qualifiedName ∉ processed → draft.module.types[index]? = some type

variable {draft next : Draft} {source : Module} {processed : List QualifiedName} {index : Nat}
  {type : TypeDef}

/-- At the start the draft is the source. -/
theorem sound_of_start {scope : Scope} {bindings : Bindings}
    (verified : scope.module.verify = .ok ()) (begun : Draft.start scope bindings = .ok draft) :
    draft.Sound scope.module [] := by
  cases eq_of_start begun
  exact ⟨rfl, verified, fun present _ => present⟩

theorem Sound.mark (sound : draft.Sound source processed) (name : QualifiedName) :
    draft.Sound source (name :: processed) where
  origin := sound.origin
  verified := sound.verified
  untouched present fresh := sound.untouched present (List.not_mem_of_not_mem_cons fresh)

/-- The declaration of a type is the one in the source. -/
theorem Sound.declared {name : QualifiedName} (sound : draft.Sound source processed)
    (found : draft.declaration index name = .ok type) : source.types[index]? = some type := by
  have present := (Option.filter_eq_some_iff.mp (Weave.ofOption_eq_ok found)).1
  rwa [sound.origin] at present

/-- Planning keeps the draft sound, since it only adds to the tables. -/
theorem Sound.planned {Plan : Type} {plan : Emit Plan} [grows : plan.Grows] {result : Plan}
    (sound : draft.Sound source processed) (planned : draft.planned plan = .ok (result, next)) :
    next.Sound source processed ∧
      ∀ {condition : Plan → Prop}, plan.Yields condition → condition result := by
  rcases bind_eq_ok_iff.mp planned with ⟨⟨given, tables⟩, run, final⟩
  cases final
  refine ⟨⟨sound.origin, ?_, sound.untouched⟩, fun yields => yields _ _ _ run⟩
  exact Module.verify_of_grows (Emit.Grows.grows run) sound.verified

/-- Committing a plan that lists what it gives new code keeps the draft sound, if it is the first one
for a type of its name. -/
theorem Sound.commit {plan : TypePlan} {name : QualifiedName}
    (sound : draft.Sound source processed) (present : source.types[index]? = some type)
    (named : type.qualifiedName = name) (fresh : name ∉ processed) (covered : plan.Covered type)
    (committed : draft.commit index plan = .ok next) : next.Sound source (name :: processed) := by
  rcases bind_eq_ok_iff.mp committed with ⟨module, commit, final⟩
  cases final
  subst name
  have here := sound.untouched present fresh
  rcases Module.verify_of_commit here covered sound.verified commit with ⟨verified, others⟩
  refine ⟨sound.origin, verified, ?_⟩
  intro other otherType otherPresent otherFresh
  have different : other ≠ index := by
    rintro rfl
    cases present.symm.trans otherPresent
    exact otherFresh List.mem_cons_self
  rw [others other different]
  exact sound.untouched otherPresent (List.not_mem_of_not_mem_cons otherFresh)

/-- Editing a struct that was not processed keeps the draft sound. -/
theorem Sound.editStruct {binding : StructBinding} (sound : draft.Sound source processed)
    (named : ∀ {type}, source.types[binding.type]? = some type → type.qualifiedName = binding.name)
    (fresh : binding.name ∉ processed) (edited : draft.editStruct binding = .ok next) :
    next.Sound source (binding.name :: processed) := by
  rcases bind_eq_ok_iff.mp edited with ⟨type, found, edited⟩
  rcases bind_eq_ok_iff.mp edited with ⟨⟨plan?, extended⟩, planned, edited⟩
  have present := sound.declared found
  rcases sound.planned planned with ⟨kept, yields⟩
  cases plan? with
  | none =>
    cases edited
    exact kept.mark binding.name
  | some plan =>
    have covered := yields (StructBinding.yields_plan? binding) plan rfl
    exact kept.commit present (named present) fresh covered edited

theorem Sound.editClass {binding : ClassBinding} (sound : draft.Sound source processed)
    (named : ∀ {type}, source.types[binding.type]? = some type → type.qualifiedName = binding.name)
    (fresh : binding.name ∉ processed) (edited : draft.editClass binding = .ok next) :
    next.Sound source (binding.name :: processed) := by
  rcases bind_eq_ok_iff.mp edited with ⟨type, found, edited⟩
  rcases bind_eq_ok_iff.mp edited with ⟨⟨⟨plan, diagnostics⟩, extended⟩, planned, edited⟩
  have present := sound.declared found
  rcases sound.planned planned with ⟨kept, yields⟩
  have covered := yields (yields_classPlan draft.source binding)
  have reported : { extended with diagnostics := extended.diagnostics ++ diagnostics }.Sound
      source processed := ⟨kept.origin, kept.verified, kept.untouched⟩
  dsimp only at edited
  split at edited
  · cases edited
    exact reported.mark binding.name
  · exact reported.commit present (named present) fresh covered edited

/-- A struct is edited as its plan says if all of its methods are in order afterwards. -/
theorem editStruct_eq_ok {binding : StructBinding} {edited : TypeDef} {plan : TypePlan}
    {tables : Tables} (declared : draft.source.types[binding.type]? = some type)
    (named : type.fullName = binding.name.full)
    (present : draft.module.types[binding.type]? = some type)
    (planned : binding.plan? draft.config type draft.module.tables =
      Except.ok (some plan, tables))
    (applied : plan.apply type = .ok edited)
    (verified : ∀ method ∈ edited.methods, method.verify tables = .ok ()) :
    draft.editStruct binding = .ok { draft with module := { draft.module with
      types := draft.module.types.set binding.type edited, tables } } := by
  have found : draft.declaration binding.type binding.name = .ok type := by
    have kept : (some type).filter (fun type => type.fullName == binding.name.full) = some type :=
      Option.filter_eq_some_iff.mpr ⟨rfl, beq_iff_eq.mpr named⟩
    rw [declaration, declared, kept]
    rfl
  have committed : { draft.module with tables }.commit binding.type plan = .ok { draft.module with
      types := draft.module.types.set binding.type edited, tables } := by
    rw [Module.commit]
    simp only [present]
    change (plan.apply type >>= fun edited =>
      TypePlan.verifyTouched plan.touched tables edited >>= fun _ => pure _) = _
    rw [applied, ok_bind, TypePlan.verifyTouched_of_verify verified]
    rfl
  rw [editStruct, found, ok_bind, Draft.planned, planned]
  simp only [ok_bind, pure_bind, commit, committed]
  rfl

end Draft

namespace Progress

/-- The names that count as processed are those of the ledger. -/
def Sound (progress : Progress) (source : Module) : Prop :=
  progress.draft.Sound source progress.ledger.processed

variable {progress next : Progress} {scope : Scope} {name : QualifiedName}

theorem Sound.processStruct (sound : progress.Sound scope.module)
    (processed : progress.processStruct scope.extract.bindings name = .ok next) :
    next.Sound scope.module := by
  rcases exists_of_processStruct processed with ⟨fresh, recorded, binding, found, edited, _⟩
  rcases Bindings.ofStruct_mem_of_findStruct? found with ⟨member, rfl⟩
  unfold Sound
  rw [recorded]
  exact Draft.Sound.editStruct sound (Scope.qualifiedName_of_mem_extract member) fresh edited

theorem Sound.processClass (sound : progress.Sound scope.module)
    (processed : progress.processClass scope.extract.bindings name = .ok next) :
    next.Sound scope.module := by
  rcases exists_of_processClass processed with ⟨fresh, recorded, binding, found, edited, _⟩
  rcases Bindings.ofClass_mem_of_findClass? found with ⟨member, rfl⟩
  unfold Sound
  rw [recorded]
  exact Draft.Sound.editClass sound (Scope.qualifiedName_of_mem_extract member) fresh edited

end Progress

namespace Scope

/-- A run over the annotated types of a verified module ends with a verified draft. -/
theorem verify_of_process {scope : Scope} {progress : Progress}
    (verified : scope.module.verify = .ok ())
    (run : scope.process scope.extract.bindings = .ok progress) :
    progress.draft.module.verify = .ok () := by
  rcases exists_stages_of_process run with ⟨_, _, _, last, ledger, stages, rfl⟩
  have sound : last.Sound scope.module :=
    stages.induction (Progress.Sound · scope.module) (Draft.sound_of_start verified stages.begun)
      (fun _ _ _ sound step => sound.processStruct step)
      (fun _ _ _ sound step => sound.processClass step)
  exact sound.verified

/-- Weaving a verified module gives a verified module: the header is valid, and every body of every
type is in order in the tables of the result, whether it was edited or not. -/
theorem verify_of_weave (scope : Scope) (result : WovenModule)
    (verified : scope.module.verify = .ok ()) (woven : scope.weave = .ok (.woven result)) :
    result.module.verify = .ok () ∧
      ∀ type ∈ result.module.types, ∀ method ∈ type.methods,
        method.verify result.module.tables = .ok () := by
  suffices whole : result.module.verify = .ok () from
    ⟨whole, (result.module.verify_eq_ok_iff.mp whole).2⟩
  unfold weave at woven
  split at woven
  · cases woven
  · dsimp only at woven
    split at woven
    · cases woven
    · split at woven
      · cases woven
      · rcases bind_eq_ok_iff.mp woven with ⟨progress, run, woven⟩
        dsimp only at woven
        split at woven
        · cases woven
        · rcases bind_eq_ok_iff.mp woven with ⟨report, _, final⟩
          cases final
          have whole := verify_of_process verified run
          -- The mark on a woven module is none of what verification looks at.
          exact (Module.verify_eq_ok_iff _).mpr ((Module.verify_eq_ok_iff _).mp whole)

end Scope

/-! ## Structs that are examined -/

namespace Scope

variable {scope : Scope} {struct : TypeDef} {before after : Memory}

/-- An annotated struct is a generic one if its fields have not the same bytes on both sides. -/
theorem structRepr?_eq_generic
    (ordinary : scope.config.isCoreStruct struct.qualifiedName = false)
    (own : scope.isLocal struct.qualifiedName = true)
    (annotated : scope.config.isAnnotated struct.attributes Annotation.nativeStruct = true)
    (anew : before.repr? struct.qualifiedName = none)
    (different : scope.areBlittable [struct.qualifiedName] struct.instanceFields before =
      (false, after)) :
    scope.structRepr? struct before =
      (some .generic, after.withRepr struct.qualifiedName .generic) := by
  rw [structRepr?, reprWith?]
  simp only [ordinary, own, annotated]
  rw [if_neg Bool.false_ne_true]
  simp only [bind, StateT.bind, get, getThe, MonadStateOf.get, StateT.get, pure, anew]
  rw [dif_pos trivial, if_neg (by decide), dif_neg List.not_mem_nil]
  simp only [StateT.bind, different]
  rfl

end Scope

/-! ## A struct that is marshalled

The run that shows the theorem at work is evaluated in parts.  The parts that recur by a measure are
evaluated first, and what is left computes. -/

namespace Toggle

/-- A struct with a field that is not exposed, so that marshalling has something to do. -/
def type : TypeDef where
  name := "Toggle"
  namespaceName := "Game"
  kind := .structType
  attributes := [{ type := ⟨"Tether.Attributes", "NativeStruct"⟩ }]
  fields := [{ name := "on", type := .bool }]
  methods := [{ name := "Clear", flags := Method.staticFlag, body := some { code := [0xA3] } }]

/-- A module with the struct, and for reference one with the types that generated code needs. -/
def scope : Scope where
  context := { modules := [{ Module.empty "Runtime" with types := [
    { name := "NativeObject", namespaceName := "Tether.Runtime" },
    { name := "NativeLayout", namespaceName := "Tether.Runtime" }] }] }
  module := { Module.empty "Game" with types := [type] }

def binding : StructBinding :=
  { name := ⟨"Game", "Toggle"⟩, nativeName := "Toggle", type := 0 }

def draft : Draft :=
  ⟨scope.config, scope.module, scope.module, []⟩

/-- Without an annotation on its field the struct is a generic one. -/
theorem structRepr?_type : scope.structRepr? type {} =
    (some .generic, ({} : Memory).withRepr type.qualifiedName .generic) := by
  have hidden : scope.config.findAnnotation? [] Annotation.nativeProperty = none := by
    decide
  have fields : type.instanceFields = [{ name := "on", type := .bool }] := by decide
  refine Scope.structRepr?_eq_generic (by decide) (by decide) (by decide) rfl ?_
  rw [fields, Scope.areBlittable]
  simp only [hidden]
  rfl

theorem extract_scope : scope.extract = ⟨[.ofStruct binding], []⟩ := by
  have struct : scope.extractStruct 0 type {} =
      (⟨some binding, []⟩, ({} : Memory).withRepr type.qualifiedName .generic) := by
    have fields : (type.fields.zipIdx.mapM fun (field, place) =>
        scope.extractField type field place) {} = ([.nothing], {}) := rfl
    simp only [Scope.extractStruct, bind, StateT.bind, fields, structRepr?_type]
    rfl
  exact Scope.extract_eq_singleton rfl
    (Scope.examine_eq_ofStruct (by decide) rfl (by decide) rfl struct)

/-- The plan of the struct. -/
def plan : TypePlan :=
  match binding.plan? scope.config type {} with
  | .ok (some plan, _) => plan
  | _ => {}

/-- The tables with what the plan refers to. -/
def tables : Tables where
  strings := ["Toggle"]
  members := [
    .staticField type.signature Naming.nativeClassPtr .intPtr,
    .staticField type.signature Naming.nativeDataSize .i32,
    scope.config.layout .nativeType,
    scope.config.layout .structSize]

def reader : Method :=
  { generatedMethod Method.constructorName [("buffer", .intPtr)] [.ret] [] with
    flags := Method.specialNameFlag }

def writer : Method :=
  generatedMethod Naming.toNative [("buffer", .intPtr)] [.ret] []

/-- The initializer finds the native type and asks for its size. -/
def initializer : Method :=
  TypePlan.newInitializer
    [.constString 0, .call 2, .storeStatic 0, .loadStatic 0, .call 3, .storeStatic 1]

/-- The struct with the methods that marshal it. -/
def edited : TypeDef :=
  { type with
    fields := type.fields ++ plan.fields
    methods := type.methods ++ [reader, writer, initializer] }

theorem verify_edited : ∀ method ∈ edited.methods, method.verify tables = .ok () := by
  have methods : edited.methods = type.methods ++ [reader, writer, initializer] := rfl
  simp only [methods, type, List.cons_append, List.nil_append, List.forall_mem_cons]
  refine ⟨?_, ?_, ?_, ?_, List.forall_mem_nil _⟩ <;> cbv

theorem editStruct_draft : draft.editStruct binding =
    .ok { draft with module := { scope.module with types := [edited], tables } } :=
  Draft.editStruct_eq_ok rfl rfl rfl rfl (eq_ok_of_toOption (by decide +kernel)) verify_edited

theorem exists_processStruct : ∃ hash,
    Progress.processStruct [.ofStruct binding] { draft } binding.name =
      .ok ⟨⟨[binding.name]⟩, { structs := [(binding.name, hash)] },
        { draft with module := { scope.module with types := [edited], tables } }⟩ := by
  have marked : ({} : Ledger).mark binding.name = .ok ⟨[binding.name]⟩ := rfl
  have bound : Progress.bound (Bindings.findStruct? [.ofStruct binding] binding.name)
      binding.name = .ok binding := rfl
  obtain ⟨hash, hashed⟩ : ∃ hash, ({} : Fingerprints).addStruct [.ofStruct binding] binding =
      .ok (hash, { structs := [(binding.name, hash)] }) := ⟨_, rfl⟩
  refine ⟨hash, ?_⟩
  simp only [Progress.processStruct, marked, bound, hashed, editStruct_draft, ok_bind]
  rfl

theorem exists_woven : ∃ result, scope.weave = .ok (.woven result) := by
  have structs : Bindings.structOrder [.ofStruct binding] = .ok [binding.name] := by cbv
  have classes : Bindings.classOrder [.ofStruct binding] = .ok [] := rfl
  have started : Draft.start scope [.ofStruct binding] = .ok draft := rfl
  rcases exists_processStruct with ⟨hash, processed⟩
  rw [Scope.weave, if_neg (by decide)]
  simp only [extract_scope]
  rw [if_neg (by decide), if_neg (by decide)]
  simp only [Scope.weaveBindings, Scope.process, structs, classes, started, List.foldlM_cons,
    List.foldlM_nil, processed, ok_bind]
  exact ⟨_, rfl⟩

end Toggle

/-- The module with the struct is verified before it is woven, and so it is afterwards. -/
theorem Scope.verify_of_weave_toggle : Toggle.scope.module.verify = .ok () ∧
    ∃ result, Toggle.scope.weave = .ok (.woven result) ∧ result.module.verify = .ok () := by
  have verified : Toggle.scope.module.verify = .ok () := by cbv
  rcases Toggle.exists_woven with ⟨result, woven⟩
  exact ⟨verified, result, woven, (verify_of_weave Toggle.scope result verified woven).1⟩

end NativeWeave
