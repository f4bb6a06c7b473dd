import NativeWeave.Proofs.Machine.StructCode

namespace NativeWeave

/-!
# Structs there and back

A struct that is marshalled writes what it holds to native memory, and its constructor reads it from
there into a new object.  Members that are structs are left to their own methods, so both directions
follow the content.  What is written stays inside the members, and what is made is made of new objects
only.
-/

namespace Machine

variable {machine : Machine} {frame : Nat} {state later extended : MachineState}
  {member : MemberRef} {signature : MethodSignature} {rest : List Value} {object value : Value}
  {result : Option Value} {token : UInt32} {identity : Nat}

/-- A new object is handed to its constructor, and pushed afterwards. -/
theorem passes_newObject (passed : List Value)
    (means : machine.tables.member? token = some member)
    (declared : member.methodSignature? = some signature)
    (count : signature.parameters.length = passed.length)
    (allocated : machine.allocate member state = (object, extended))
    (calls : machine.Calls member (object :: passed) extended result later) :
    machine.Passes frame [.newObject token] (passed.reverse ++ rest) state (object :: rest)
      later := by
  rcases calls with ⟨fuel, called⟩
  refine .cons ⟨fuel, ?_⟩ .nil
  simp only [perform, Instr.newObject, performMember, means, declared, count, popArguments_reverse,
    allocated, called, Option.bind_eq_bind, Option.bind_some]
  rfl

theorem passes_storeField (means : machine.tables.member? token = some member) :
    machine.Passes frame [.storeField token] (value :: .object identity :: rest) state rest
      (state.setVariable (.field identity member) value) := by
  refine passes_of_perform fun call => ?_
  simp only [perform, Instr.storeField, means]
  cases value <;> rfl

theorem passes_loadFieldAddress (means : machine.tables.member? token = some member) :
    machine.Passes frame [.loadFieldAddress token] (.object identity :: rest) state
      (.reference (.field identity member) :: rest) state := by
  refine passes_of_perform fun call => ?_
  simp only [perform, Instr.loadFieldAddress, means]
  rfl

end Machine

open Machine MachineState

namespace StructHost

variable {config : Config} {bindings : Bindings} {module : Module}
  (host : StructHost config bindings module)

/-- The frame is that of a method which marshals a struct: its arguments are the object and where the
struct begins in native memory. -/
structure InFrame (state : MachineState) (frame object : Nat) (base : Address) : Prop where
  begun : frame < state.frames
  object : state.cells (.argument frame 0) = .object object
  base : state.cells (.argument frame 1) = .integer base
  lays : host.Lays state

/-- The constructor of the struct reads it from where it lies, into an object that is not in use and
further ones, and changes nothing else. -/
def Constructs (binding : StructBinding) (fields : MemberRef → Content) : Prop :=
  ∃ body, module.structCode? binding Method.constructorName = some body ∧
    ∀ state object base, state.Finite → host.Lays state → ¬ state.Occupies object →
      (∀ member ∈ binding.members, host.Lies state.memory (fields (binding.field member)) binding
        member (base + host.layout.distance (binding.field member))) →
      ∃ later : MachineState,
        host.machine.Runs body [.object object, .integer base] state none later ∧
        state.Spares later ∧ later.memory = state.memory ∧
        (Content.struct binding fields).HeldBy later (fun identity => ¬ state.Occupies identity)
          (.object object)

/-- The struct writes itself to where it is told, and no byte outside its members. -/
def Writes (binding : StructBinding) (fields : MemberRef → Content) : Prop :=
  ∃ body, module.structCode? binding Naming.toNative = some body ∧
    ∀ state object base, host.Lays state →
      (Content.struct binding fields).HeldBy state (fun _ => True) (.object object) →
      ∃ later : MachineState,
        host.machine.Runs body [.object object, .integer base] state none later ∧
        state.Spares later ∧
        later.memory.AgreesOn state.memory (fun place => ∀ member ∈ binding.members,
          ¬ host.layout.Covers host.machine binding member base place) ∧
        ∀ member ∈ binding.members, host.Lies later.memory (fields (binding.field member)) binding
          member (base + host.layout.distance (binding.field member))

/-- The methods of the content, if it is a struct, do what they are meant to. -/
def Marshals (content : Content) : Prop :=
  ∀ binding fields, content = .struct binding fields →
    host.Constructs binding fields ∧ host.Writes binding fields

variable {host} {state later origin : MachineState} {frame object : Nat} {base : Address}
  {binding : StructBinding} {member : MemberBinding} {content : Content}
  {fields : MemberRef → Content} {value : Fragment} {slots : MemberSlots} {code : FieldCode}

namespace InFrame

/-- The arguments are in place when the method begins. -/
theorem enter (lays : host.Lays state) (object : Nat) (base : Address) :
    host.InFrame (state.enter [.object object, .integer base] []) state.frames object base where
  begun := Nat.lt_succ_self _
  object := state.enter_argument _ _ 0
  base := state.enter_argument _ _ 1
  lays := lays.spares (.enter _ _ _)

theorem spares (inFrame : host.InFrame state frame object base) (spares : state.Spares later) :
    host.InFrame later frame object base where
  begun := Nat.lt_of_lt_of_le inFrame.begun spares.frames
  object := spares.refers inFrame.begun inFrame.object
  base := (spares.cells (.argument frame 1) inFrame.begun (by rintro _ _ ⟨⟩)).trans inFrame.base
  lays := inFrame.lays.spares spares

theorem setField (inFrame : host.InFrame state frame object base) (field : MemberRef)
    (value : Value) :
    host.InFrame (state.setVariable (.field object field) value) frame object base where
  begun := inFrame.begun
  object := (setVariable_cells_of_ne (by rintro ⟨⟩)).trans inFrame.object
  base := (setVariable_cells_of_ne (by rintro ⟨⟩)).trans inFrame.base
  lays := fun binding marshalled member listed =>
    have laid := inFrame.lays binding marshalled member listed
    ⟨laid.offset, laid.width⟩

/-- The struct that is marshalled is in use. -/
theorem occupied (inFrame : host.InFrame state frame object base) : state.Occupies object :=
  .inl ⟨.argument frame 0, inFrame.begun, inFrame.object⟩

end InFrame

/-- The static fields of a struct say where its members lie. -/
theorem Lays.places (lays : host.Lays state) (marshalled : binding.IsMarshalled config bindings)
    (listed : member ∈ binding.members)
    (names : slots.Names module.tables (.named binding.name) member.name member.category) :
    (∀ {frame base}, state.cells (.argument frame 1) = .integer base →
      host.machine.Locates frame state slots.place
        (base + host.layout.distance (binding.field member))) ∧
    ∀ token ∈ slots.width, host.machine.HoldsStatic state token
      (.integer (host.layout.width (binding.field member))) := by
  rw [← host.tables] at names
  have laid := lays binding marshalled member listed
  exact ⟨fun argument => locates_of_lays names laid argument, holdsStatic_width names laid⟩

/-! ## Reading -/

/-- The value of a member is pushed as it lies in memory. -/
theorem exists_pushed (addressable : module.tables.Addressable)
    (marshalled : binding.IsMarshalled config bindings) (listed : member ∈ binding.members)
    (names : slots.Names module.tables (.named binding.name) member.name member.category)
    (pushes : value.Pushes module.tables config member slots) (marshals : host.Marshals content)
    (fits : host.Fits content binding member) (finite : state.Finite)
    (inFrame : host.InFrame state frame object base)
    (lies : host.Lies state.memory content binding member
      (base + host.layout.distance (binding.field member))) :
    ∃ pushed later, (∀ stack, host.machine.Passes frame value stack state (pushed :: stack) later) ∧
      state.Spares later ∧ later.memory = state.memory ∧
      content.HeldBy later (fun identity => ¬ state.Occupies identity) pushed := by
  rcases inFrame.lays.places marshalled listed names with ⟨locates, widths⟩
  have located := locates inFrame.base
  cases content with
  | plain given =>
    have read := pushes.plain fits.1 addressable host.machine host.tables frame state _ _ located
      widths given (lies state fun _ _ => rfl)
    exact ⟨given, state, read, .refl state, rfl, rfl⟩
  | struct inner parts =>
    rcases fits with ⟨generated, ⟨nativeName, generic⟩, _⟩
    rcases pushes.struct nativeName inner.name generic with ⟨token, rfl, means⟩
    rcases (marshals inner parts rfl).1 with ⟨body, found, constructs⟩
    rcases (host.allocates inner generated).exists_unused finite with
      ⟨identity, extended, allocated, unused, new, keeps, memory⟩
    rw [← memory] at lies
    rcases constructs extended identity _ (keeps.finite finite) (inFrame.lays.spares keeps) new
        lies with ⟨later, runs, spares, same, held⟩
    have answered := host.answers inner generated _ body found (.object identity)
      [.integer (base + host.layout.distance (binding.field member))] extended
    rw [← host.tables] at means
    refine ⟨.object identity, later, fun stack => (passes_address located).append ?_,
      keeps.trans spares, same.trans memory, ?_⟩
    · exact passes_newObject [.integer _] means rfl rfl allocated (calls_of_runs answered runs)
    · exact held.transfer fun other inside =>
        ⟨fun used => inside (keeps.occupies used), fun _ => rfl⟩

/-- The object is one of those that are made for the object of a constructor. -/
def IsPart (origin : MachineState) (object identity : Nat) : Prop :=
  ¬ origin.Occupies identity ∧ identity ≠ object

/-- The code for a member puts the value into the field.  What other fields have been given stays. -/
theorem exists_read (addressable : module.tables.Addressable)
    (marshalled : binding.IsMarshalled config bindings) (listed : member ∈ binding.members)
    (means : code.Means module.tables config binding member)
    (marshals : host.Marshals (fields (binding.field member)))
    (fits : host.Fits (fields (binding.field member)) binding member) (finite : origin.Finite)
    (unused : ¬ origin.Occupies object) (since : origin.Spares state)
    (inFrame : host.InFrame state frame object base)
    (lies : host.Lies state.memory (fields (binding.field member)) binding member
      (base + host.layout.distance (binding.field member))) :
    ∃ later, (∀ stack, host.machine.Passes frame code.read stack state stack later) ∧
      origin.Spares later ∧ later.memory = state.memory ∧ host.InFrame later frame object base ∧
      (fields (binding.field member)).HeldBy later (IsPart origin object)
        (later.cells (.field object (binding.field member))) ∧
      ∀ field, (fields field).HeldBy state (IsPart origin object)
        (state.cells (.field object field)) →
          (fields field).HeldBy later (IsPart origin object) (later.cells (.field object field)) := by
  rcases means with ⟨slots, token, value, names, referred, read, pushes, _⟩
  rcases exists_pushed addressable marshalled listed names pushes marshals fits (since.finite finite)
      inFrame lies with ⟨pushed, middle, passes, spares, memory, held⟩
  rw [← host.tables] at referred
  let changed : Cell := .field object (binding.field member)
  let final := middle.setVariable changed pushed
  have parts : ∀ {content : Content} {among : Nat → Prop} {given : Value},
      content.HeldBy middle among given →
        (∀ identity, among identity → IsPart origin object identity) →
          content.HeldBy final (IsPart origin object) given := by
    intro content among given held part
    refine held.transfer fun identity inside => ⟨part identity inside, fun field => ?_⟩
    exact setVariable_cells_of_ne fun same => (part identity inside).2 (Cell.field.inj same).1
  have own : (fields (binding.field member)).HeldBy final (IsPart origin object) pushed := by
    refine parts held fun identity new => ⟨fun used => new (since.occupies used), ?_⟩
    rintro rfl
    exact new inFrame.occupied
  refine ⟨final, fun stack => ?_, (since.trans spares).setField unused _ _, memory,
    (inFrame.spares spares).setField _ _, ?_, fun field given => ?_⟩
  · rw [read]
    refine Passes.concat ?_
    have receiver : host.machine.Passes frame [.loadArg 0] stack state (.object object :: stack)
        state := passes_loadArg inFrame.object
    have stored : host.machine.Passes frame [.storeField token]
        (pushed :: .object object :: stack) middle stack final := passes_storeField referred
    exact receiver.append ((passes _).append (stored.append .nil))
  · rw [setVariable_cells_self]
    exact own
  · by_cases same : field = binding.field member
    · rw [same, setVariable_cells_self]
      exact own
    · have apart : Cell.field object field ≠ changed := fun equal => same (Cell.field.inj equal).2
      rw [setVariable_cells_of_ne apart, spares.field inFrame.occupied]
      have kept := given.spares (fun _ => occupies_of_refers) spares
      exact parts kept fun _ inside => inside

/-- Code that reads several members fills all of their fields. -/
theorem exists_allRead (addressable : module.tables.Addressable)
    (marshalled : binding.IsMarshalled config bindings) (fills : host.Fills binding fields)
    (marshals : ∀ member ∈ binding.members, host.Marshals (fields (binding.field member)))
    (finite : origin.Finite)
    (unused : ¬ origin.Occupies object) {members : List MemberBinding} {codes : List FieldCode}
    (each : List.Forall₂ (fun member code => code.Means module.tables config binding member) members
      codes)
    (listed : ∀ member ∈ members, member ∈ binding.members) (since : origin.Spares state)
    (inFrame : host.InFrame state frame object base)
    (lies : ∀ member ∈ members, host.Lies state.memory (fields (binding.field member)) binding
      member (base + host.layout.distance (binding.field member))) :
    ∃ later, (∀ stack, host.machine.Passes frame (codes.map (·.read)).flatten stack state stack
        later) ∧ origin.Spares later ∧ later.memory = state.memory ∧
      (∀ member ∈ members, (fields (binding.field member)).HeldBy later (IsPart origin object)
        (later.cells (.field object (binding.field member)))) ∧
      ∀ field, (fields field).HeldBy state (IsPart origin object)
        (state.cells (.field object field)) →
          (fields field).HeldBy later (IsPart origin object) (later.cells (.field object field)) := by
  induction each generalizing state with
  | nil => exact ⟨state, fun _ => .nil, since, rfl, List.forall_mem_nil _, fun _ => id⟩
  | @cons member code members codes means _ ih =>
    rw [List.forall_mem_cons] at listed lies
    rcases exists_read addressable marshalled listed.1 means (marshals member listed.1)
        (fills member listed.1) finite unused since inFrame lies.1 with
      ⟨middle, first, spares, memory, framed, own, kept⟩
    rw [← memory] at lies
    rcases ih listed.2 spares framed lies.2 with ⟨later, rest, sparing, same, held, keeps⟩
    refine ⟨later, fun stack => (first stack).append (rest stack), sparing, same.trans memory, ?_,
      fun field given => keeps field (kept field given)⟩
    exact List.forall_mem_cons.mpr ⟨keeps _ own, held⟩

/-! ## Writing -/

/-- The code for a member writes what the field holds to the place of the member. -/
theorem exists_written (addressable : module.tables.Addressable)
    (marshalled : binding.IsMarshalled config bindings) (listed : member ∈ binding.members)
    (means : code.Means module.tables config binding member) (marshals : host.Marshals content)
    (fits : host.Fits content binding member) (inFrame : host.InFrame state frame object base)
    (held : content.HeldBy state (fun _ => True)
      (state.cells (.field object (binding.field member)))) :
    ∃ later, (∀ stack, host.machine.Passes frame code.write stack state stack later) ∧
      state.Spares later ∧
      later.memory.AgreesOn state.memory (fun place =>
        ¬ host.layout.Covers host.machine binding member base place) ∧
      host.Lies later.memory content binding member
        (base + host.layout.distance (binding.field member)) := by
  rcases means with ⟨slots, token, _, names, referred, _, _, stores⟩
  rcases inFrame.lays.places marshalled listed names with ⟨locates, widths⟩
  have located := locates inFrame.base
  rw [← host.tables] at referred
  cases content with
  | plain given =>
    have finds : host.machine.Finds frame state (.thisField token) given :=
      ⟨object, _, inFrame.object, referred, held⟩
    rcases stores.plain fits.1 addressable host.machine host.tables frame state _ _ given located
        widths (host.truths binding marshalled member listed) finds fits.2 with
      ⟨memory, agrees, keeps, passes⟩
    refine ⟨{ state with memory }, passes, (Spares.refl state).memory memory, ?_, keeps⟩
    intro place outside
    rw [StructLayout.Covers, extent_of_isPlain fits.1] at outside
    exact agrees place outside
  | struct inner parts =>
    rcases fits with ⟨generated, ⟨nativeName, generic⟩, _⟩
    rcases stores.struct nativeName inner.name generic with ⟨call, written, means⟩
    rcases (marshals inner parts rfl).2 with ⟨body, found, writes⟩
    rcases held with ⟨identity, refers, each⟩
    rcases writes state identity _ inFrame.lays ⟨identity, rfl, each⟩ with
      ⟨later, runs, spares, agrees, lies⟩
    have answered := host.answers inner generated _ body found
      (.reference (.field object (binding.field member)))
      [.integer (base + host.layout.distance (binding.field member))] state
    rw [receiver, refers] at answered
    rw [← host.tables] at means
    refine ⟨later, fun stack => ?_, spares, fun place outside => agrees place ?_, lies⟩
    · rw [written]
      have first : host.machine.Passes frame [.loadArg 0] stack state (.object object :: stack)
          state := passes_loadArg inFrame.object
      have second : host.machine.Passes frame [.loadFieldAddress token] (.object object :: stack)
          state (.reference (.field object (binding.field member)) :: stack) state :=
        passes_loadFieldAddress referred
      exact ((first.append second).append (passes_address located)).append
        (passes_call [.reference _, .integer _] means rfl rfl (calls_of_runs answered runs))
    · intro part inside covers
      refine outside ?_
      rw [StructLayout.Covers, StructLayout.extent, generic]
      exact (host.spreads inner generated).covers inside covers

/-- Code that writes several members writes nothing but their places, and leaves all of them there. -/
theorem exists_allWritten (addressable : module.tables.Addressable)
    (marshalled : binding.IsMarshalled config bindings) (fills : host.Fills binding fields)
    (marshals : ∀ member ∈ binding.members, host.Marshals (fields (binding.field member)))
    {members : List MemberBinding} {codes : List FieldCode}
    (each : List.Forall₂ (fun member code => code.Means module.tables config binding member) members
      codes)
    (listed : ∀ member ∈ members, member ∈ binding.members)
    (apart : members.Pairwise fun first second => ∀ place,
      host.layout.Covers host.machine binding first base place →
        ¬ host.layout.Covers host.machine binding second base place)
    (inFrame : host.InFrame state frame object base)
    (held : ∀ member ∈ members, (fields (binding.field member)).HeldBy state (fun _ => True)
      (state.cells (.field object (binding.field member)))) :
    ∃ later, (∀ stack, host.machine.Passes frame (codes.map (·.write)).flatten stack state stack
        later) ∧ state.Spares later ∧
      later.memory.AgreesOn state.memory (fun place => ∀ member ∈ members,
        ¬ host.layout.Covers host.machine binding member base place) ∧
      ∀ member ∈ members, host.Lies later.memory (fields (binding.field member)) binding member
        (base + host.layout.distance (binding.field member)) := by
  induction each generalizing state with
  | nil => exact ⟨state, fun _ => .nil, .refl state, fun _ _ => rfl, List.forall_mem_nil _⟩
  | @cons member code members codes means _ ih =>
    rw [List.forall_mem_cons] at listed held
    rw [List.pairwise_cons] at apart
    have fits := fills member listed.1
    rcases exists_written addressable marshalled listed.1 means (marshals member listed.1) fits
        inFrame held.1 with ⟨middle, first, spares, agrees, lies⟩
    have still : ∀ other ∈ members, (fields (binding.field other)).HeldBy middle (fun _ => True)
        (middle.cells (.field object (binding.field other))) := by
      intro other inside
      rw [spares.field inFrame.occupied]
      exact (held.2 other inside).spares (fun _ => occupies_of_refers) spares
    rcases ih listed.2 apart.2 (inFrame.spares spares) still with ⟨later, rest, sparing, same, all⟩
    refine ⟨later, fun stack => (first stack).append (rest stack), spares.trans sparing, ?_,
      List.forall_mem_cons.mpr ⟨?_, all⟩⟩
    · intro place outside
      rw [List.forall_mem_cons] at outside
      exact (same place outside.2).trans (agrees place outside.1)
    · exact lies.congr fits fun place inside => same place fun other there =>
        apart.1 other there place inside

/-! ## Whole structs -/

/-- The methods of a struct work if those of the structs in its fields do. -/
theorem constructs_and_writes (addressable : module.tables.Addressable)
    (generated : module.Marshals config binding)
    (marshalled : binding.IsMarshalled config bindings) (fills : host.Fills binding fields)
    (marshals : ∀ member ∈ binding.members, host.Marshals (fields (binding.field member))) :
    host.Constructs binding fields ∧ host.Writes binding fields := by
  rcases generated with ⟨codes, means, reading, writing⟩
  refine ⟨⟨_, reading, fun state object base finite lays unused lies => ?_⟩,
    ⟨_, writing, fun state object base lays held => ?_⟩⟩
  · rcases exists_allRead addressable marshalled fills marshals finite unused means
        (fun _ => id) (.enter state _ _) (.enter lays object base) lies with
      ⟨later, passes, spares, memory, held, _⟩
    refine ⟨later, runs_of_passes_concat _ [] (passes []), spares, memory, object, rfl, unused, ?_⟩
    exact fun member listed =>
      (held member listed).transfer fun identity part => ⟨part.1, fun _ => rfl⟩
  · rcases held with ⟨identity, same, _, held⟩
    cases same
    let entered := state.enter [.object object, .integer base] []
    have entering : state.Spares entered := .enter state _ _
    have inFrame : host.InFrame entered state.frames object base := .enter lays object base
    have holding : ∀ member ∈ binding.members, (fields (binding.field member)).HeldBy entered
        (fun _ => True) (entered.cells (.field object (binding.field member))) :=
      fun member listed => (held member listed).spares (fun _ => occupies_of_refers) entering
    rcases exists_allWritten addressable marshalled fills marshals means (fun _ => id)
        ((host.spreads binding marshalled).disjoint base) inFrame holding with
      ⟨later, passes, spares, agrees, lies⟩
    exact ⟨later, runs_of_passes_concat _ [] (passes []), entering.trans spares, agrees, lies⟩

/-- The methods of all structs in a content work, from the innermost ones outwards. -/
theorem marshals_of_fits (addressable : module.tables.Addressable)
    (generated : ∀ binding : StructBinding, binding.IsMarshalled config bindings →
      module.Marshals config binding)
    (fits : host.Fits content binding member) : host.Marshals content := by
  induction content generalizing binding member with
  | plain value =>
    rintro _ _ ⟨⟩
  | struct inner parts ih =>
    rcases fits with ⟨marshalled, _, fills⟩
    rintro _ _ ⟨⟩
    exact constructs_and_writes addressable (generated inner marshalled) marshalled fills
      fun other listed => ih _ (fills other listed)

end StructHost

/-- What the struct writes of itself to native memory, its constructor reads from there into a new
object: the object holds in all exposed fields what the struct held, in further new objects where that
are structs again.  No byte is changed but those of the members, and reading changes none at all. -/
def StructBinding.RoundTrips (binding : StructBinding) (config : Config) (bindings : Bindings)
    (module : Module) : Prop :=
  ∃ writing reading, module.structCode? binding Naming.toNative = some writing ∧
    module.structCode? binding Method.constructorName = some reading ∧
    ∀ (host : StructHost config bindings module) (fields : MemberRef → Content),
      host.Fills binding fields → ∀ (state : MachineState) object buffer, state.Finite →
        host.Lays state →
          (Content.struct binding fields).HeldBy state (fun _ => True) (.object object) →
            ∃ middle : MachineState,
              host.machine.Runs writing [.object object, .integer buffer] state none middle ∧
              middle.memory.AgreesOn state.memory (fun place => ∀ member ∈ binding.members,
                ¬ host.layout.Covers host.machine binding member buffer place) ∧
              middle.Finite ∧ ∀ fresh, ¬ middle.Occupies fresh → ∃ final : MachineState,
                host.machine.Runs reading [.object fresh, .integer buffer] middle none final ∧
                (Content.struct binding fields).HeldBy final
                  (fun identity => ¬ middle.Occupies identity) (.object fresh) ∧
                final.memory = middle.memory

/-- A struct of a woven module that is marshalled member by member is the same again after it has been
written to native memory and read from there. -/
theorem Scope.structRoundTrips_of_weave (scope : Scope) (result : WovenModule)
    (woven : scope.weave = .ok (.woven result)) (addressable : result.module.tables.Addressable)
    (binding : StructBinding)
    (marshalled : binding.IsMarshalled scope.config scope.extract.bindings) :
    binding.RoundTrips scope.config scope.extract.bindings result.module := by
  have generated : ∀ other : StructBinding,
      other.IsMarshalled scope.config scope.extract.bindings →
        result.module.Marshals scope.config other :=
    fun other => marshals_of_weave woven addressable.members
  rcases generated binding marshalled with ⟨codes, means, reading, writing⟩
  refine ⟨_, _, writing, reading, fun host fields fills state object buffer finite lays held => ?_⟩
  rcases StructHost.constructs_and_writes addressable (generated binding marshalled) marshalled fills
      fun member listed => StructHost.marshals_of_fits addressable generated (fills member listed) with
    ⟨⟨reader, read, constructs⟩, ⟨writer, written, writes⟩⟩
  cases reading.symm.trans read
  cases writing.symm.trans written
  rcases writes state object buffer lays held with ⟨middle, writes, spares, agrees, lies⟩
  refine ⟨middle, writes, agrees, spares.finite finite, fun fresh unused => ?_⟩
  rcases constructs middle fresh buffer (spares.finite finite) (lays.spares spares) unused lies with
    ⟨final, reads, _, memory, holds⟩
  exact ⟨final, reads, holds, memory⟩

/-! ## Programs with structs

The members that marshal the structs of a module can be run wherever the structs lie: a machine looks
the members up in the module. -/

open Classical in
/-- An object that is not in use, if there is one. -/
noncomputable def MachineState.unused (state : MachineState) : Nat :=
  if free : ∃ identity, ¬ state.Occupies identity then free.choose else 0

/-- A machine that runs the members which marshal the structs of a module.  A new object is one that is
not in use, and a truth value is a byte. -/
noncomputable def Machine.ofStructs (config : Config) (bindings : Bindings) (module : Module) :
    Machine where
  tables := module.tables
  shape _ := .primitive .i32
  fits _ := Shape.size_primitive_le .i32
  initial _ := .null
  conforms _ _ := true
  actual member _ := member
  allocate _ state := (.object state.unused, { state with cells := fun
    | .field identity member =>
      if identity = state.unused then .null else state.cells (.field identity member)
    | cell => state.cells cell })
  answer member passed state :=
    match member.kind, passed with
    | .method ⟨true, _, _⟩, receiver :: more =>
      match member.owner with
      | .named owner =>
        match (bindings.findStruct? owner).bind (module.structCode? · member.name) with
        | some body => .runs body (state.receiver receiver :: more)
        | none => .fails
      | _ => .fails
    | _, [.integer start, .integer _, .integer flag] =>
      if member = config.writeTruth then
        .returns none { state with memory := state.memory.write start [UInt8.ofNat flag.toNat] }
      else
        .fails
    | _, [.integer start, .integer _] =>
      if member = config.readTruth then
        .returns (some (.integer (BitVec.ofNat 64 (state.memory start).toNat))) state
      else
        .fails
    | _, _ => .fails

namespace Machine

variable {config : Config} {bindings : Bindings} {module : Module}

theorem allocates_ofStructs (constructor : MemberRef) :
    (ofStructs config bindings module).Allocates constructor := by
  intro state finite
  have free : ∃ identity, ¬ state.Occupies identity := finite.exists_notMem
  have unused : ¬ state.Occupies state.unused := by
    rw [MachineState.unused, dif_pos free]
    exact free.choose_spec
  refine ⟨state.unused, _, rfl, unused, fun member other => ?_, fun cell apart => ?_⟩
  · simp
  · cases cell with
    | field identity member =>
      refine if_neg ?_
      rintro rfl
      exact apart member rfl
    | _ => rfl

theorem marshalsTruths_ofStructs {width : Address} (wide : 0 < width.toNat) :
    (ofStructs config bindings module).MarshalsTruths config width := by
  intro start flag state
  have outside : ∀ place, ¬ start.Covers width.toNat place → ¬ start.Covers 1 place :=
    fun place far near => far (Nat.lt_of_lt_of_le near wide)
  have inside : start.Covers width.toNat start := by
    rw [Address.Covers, BitVec.sub_self]
    exact wide
  refine ⟨state.memory.write start [if flag then 1 else 0], ?_, fun place far => ?_,
    fun later agrees => ?_⟩
  · cases flag <;> exact if_pos rfl
  · exact NativeMemory.write_agreesOn _ _ _ place (outside place far)
  · have stored : later.memory start = if flag then 1 else 0 := by
      rw [agrees start inside, NativeMemory.write, BitVec.sub_self]
      rfl
    have answered : (ofStructs config bindings module).answer config.readTruth
        [.integer start, .integer width] later =
          .returns (some (.integer (BitVec.ofNat 64 (later.memory start).toNat))) later := if_pos rfl
    rw [answered, stored]
    cases flag <;> rfl

theorem answer_ofStructs {binding : StructBinding} (marshalled : binding.IsMarshalled config bindings)
    {name : String} {body : Body} (found : module.structCode? binding name = some body)
    (receiver : Value) (more : List Value) (state : MachineState) :
    (ofStructs config bindings module).answer
      (.instanceMethod (.named binding.name) name [.intPtr] .void) (receiver :: more) state =
        .runs body (state.receiver receiver :: more) := by
  have known : (bindings.findStruct? binding.name).bind (module.structCode? · name) = some body := by
    rw [show bindings.findStruct? binding.name = some binding from marshalled.picked]
    exact found
  simp only [ofStructs, MemberRef.instanceMethod, known]

end Machine

/-- Structs that lie somewhere are those of a running program. -/
noncomputable def StructHost.ofLayout {config : Config} {bindings : Bindings} {module : Module}
    (layout : StructLayout)
    (spreads : ∀ binding : StructBinding, binding.IsMarshalled config bindings →
      layout.Spreads (.ofStructs config bindings module) binding)
    (wide : ∀ binding : StructBinding, binding.IsMarshalled config bindings →
      ∀ member ∈ binding.members, member.category.needsWidth = true →
        0 < (layout.width (binding.field member)).toNat) : StructHost config bindings module where
  machine := .ofStructs config bindings module
  layout := layout
  tables := rfl
  answers _ marshalled _ _ found := Machine.answer_ofStructs marshalled found
  allocates _ _ := Machine.allocates_ofStructs _
  spreads := spreads
  truths binding marshalled member listed needed :=
    Machine.marshalsTruths_ofStructs (wide binding marshalled member listed needed)

/-! ## A struct in a struct

A panel has a level and a lamp, which is a struct again and has a truth value.  Neither has the same
bytes on both sides. -/

namespace Panel

/-- The annotation that exposes a field. -/
def exposing : List Attribute :=
  [{ type := ⟨"Tether.Attributes", "NativeProperty"⟩ }]

/-- An exposed field. -/
def field (name : String) (type : Signature) : Field where
  name := name
  type := type
  access := .everyone
  attributes := exposing

/-- A struct with a truth value. -/
def lamp : TypeDef where
  name := "Lamp"
  namespaceName := "Game"
  kind := .structType
  attributes := [{ type := ⟨"Tether.Attributes", "NativeStruct"⟩ }]
  fields := [field "On" .bool]

/-- A struct with a number and with the other struct. -/
def type : TypeDef where
  name := "Panel"
  namespaceName := "Game"
  kind := .structType
  attributes := lamp.attributes
  fields := [field "Level" .i32, field "Light" lamp.signature]

def scope : Scope where
  context := { modules := [{ Module.empty "Runtime" with types := [
    { name := "NativeObject", namespaceName := "Tether.Runtime" },
    { name := "NativeLayout", namespaceName := "Tether.Runtime" },
    { name := "BoolMarshaller", namespaceName := "Tether.Runtime" }] }] }
  module := { Module.empty "Game" with types := [lamp, type] }

/-- The binding of an exposed field. -/
def member (name : String) (type : Signature) (category : Category) (place : Nat) :
    MemberBinding where
  name := name
  nativeName := name
  type := type
  category := category
  origin := .field place

def lampBinding : StructBinding where
  name := ⟨"Game", "Lamp"⟩
  nativeName := "Lamp"
  type := 0
  members := [member "On" .bool .boolean 0]

def lampCategory : Category :=
  .struct .generic "Lamp" lampBinding.name

def binding : StructBinding where
  name := ⟨"Game", "Panel"⟩
  nativeName := "Panel"
  type := 1
  members := [
    member "Level" .i32 (.scalar .i32) 0,
    member "Light" lamp.signature lampCategory 1]

def bindings : Bindings :=
  [.ofStruct lampBinding, .ofStruct binding]

/-- An exposed field whose type has a category is bound with it. -/
theorem extractField_field {owner : TypeDef} {name : String} {type : Signature}
    {category : Category} {place : Nat} {before after : Memory} (unplaced : owner.source = none)
    (classified : scope.classify type.stripByRef {} before = (.ok category, after))
    (nested : scope.hashOverride? owner.qualifiedName category after = (none, after))
    (lawful : (member name type category place).violations owner = []) :
    scope.extractField owner (field name type) place before =
      (⟨some (member name type category place), []⟩, after) := by
  have shaped : scope.classify type.stripByRef (.ofAttribute
      (scope.config.findAnnotation? exposing Annotation.nativeProperty)) before =
        (.ok category, after) := classified
  have annotated : scope.config.isAnnotated exposing Annotation.nativeProperty = true := by decide
  have instanced : (field name type).isStatic = false := by
    change hasFlag 0 Field.staticFlag = false
    decide
  have checked : scope.extractChecked owner
      { name, type, access := .everyone, attributes := exposing, origin := .field place
        source := none } before = (⟨some (member name type category place), []⟩, after) := by
    have unmarked : scope.config.propertyFlags exposing = {} := by decide
    simp only [Scope.extractChecked, Scope.extractMember, bind, StateT.bind, shaped, nested, unplaced,
      Scope.memberBinding, unmarked]
    change ((⟨some (member name type category place),
      (member name type category place).violations owner⟩ : Extracted MemberBinding), after) = _
    rw [lawful]
  rw [Scope.extractField, field, annotated, if_neg (by decide), ← field, instanced,
    if_neg (by decide)]
  exact checked

/-- What is remembered after the truth value was classified. -/
def asked : Memory :=
  ({} : Memory).withCategory .bool {} (.ok .boolean)

/-- What is remembered after the first struct was examined. -/
def lampAsked : Memory :=
  asked.withRepr lamp.qualifiedName .generic

/-- What is remembered after the fields of the second struct were classified. -/
def fieldsAsked : Memory :=
  (lampAsked.withCategory .i32 {} (.ok (.scalar .i32))).withCategory lamp.signature {}
    (.ok lampCategory)

/-- The examination of fields goes on behind a field whose type has the same bytes on both sides. -/
theorem areBlittable_cons {busy : List QualifiedName} {name : String} {type : Signature}
    {category : Category} {more : List Field} {before after : Memory}
    (classified : scope.classifyWith busy type {} before = (.ok category, after)) :
    scope.areBlittable busy (field name type :: more) before =
      if category.isBlittable then scope.areBlittable busy more after else (false, after) := by
  have shaped : scope.classifyWith busy (field name type).type
      (Attribute.shape { type := ⟨"Tether.Attributes", "NativeProperty"⟩ }) before =
        (.ok category, after) := classified
  have found : scope.config.findAnnotation? (field name type).attributes
      Annotation.nativeProperty = some { type := ⟨"Tether.Attributes", "NativeProperty"⟩ } := by
    change scope.config.findAnnotation? exposing _ = _
    decide
  rw [Scope.areBlittable]
  simp only [found, bind, StateT.bind, shaped]
  split <;> rfl

theorem examine_lamp : scope.examine lamp 0 {} =
    (⟨some (.ofStruct lampBinding), []⟩, lampAsked) := by
  have anew : scope.classify .bool {} {} = (.ok .boolean, asked) := by
    rw [Scope.classify, Scope.classifyWith, Scope.classifyAnew]
    rfl
  have again : scope.classifyWith [lamp.qualifiedName] .bool {} asked = (.ok .boolean, asked) := by
    rw [Scope.classifyWith]
    rfl
  have listed : lamp.fields.zipIdx = [(field "On" .bool, 0)] := rfl
  have first : scope.extractField lamp (field "On" .bool) 0 {} =
      (⟨some (member "On" .bool .boolean 0), []⟩, asked) := extractField_field rfl anew rfl rfl
  have repr : scope.structRepr? lamp asked = (some .generic, lampAsked) :=
    Scope.structRepr?_eq_generic (by decide) (by decide) (by decide) rfl (areBlittable_cons again)
  refine Scope.examine_eq_ofStruct (by decide) rfl (by decide) rfl ?_
  simp only [Scope.extractStruct, listed, List.mapM_cons, List.mapM_nil, bind, StateT.bind, pure,
    StateT.pure, first, repr]
  rfl

/-- The field of the other struct has a category of its own, which rests on what is remembered of that
struct. -/
theorem classify_lamp {before : Memory} (anew : before.category? lamp.signature {} = none)
    (known : before.repr? lamp.qualifiedName = some .generic) :
    scope.classify lamp.signature {} before =
      (.ok lampCategory, before.withCategory lamp.signature {} (.ok lampCategory)) := by
  have core : scope.config.isCoreStruct lamp.qualifiedName = false := by decide
  have represented : scope.reprWith? [] lamp before = (some .generic, before) := by
    rw [Scope.reprWith?, core, if_neg Bool.false_ne_true]
    simp only [bind, StateT.bind, get, getThe, MonadStateOf.get, StateT.get, pure, known]
    rfl
  have settled : scope.classifyAnew [] lamp.signature {} before = (.ok lampCategory, before) := by
    rw [Scope.classifyAnew]
    change (scope.reprWith? [] lamp >>= (_ : _ → Remembering (Except Refusal Category))) _ = _
    simp only [bind, StateT.bind, represented]
    rfl
  rw [Scope.classify, Scope.classifyWith]
  simp only [bind, StateT.bind, get, getThe, MonadStateOf.get, StateT.get, pure, anew, settled]
  rfl

theorem examine_type : scope.examine type 1 lampAsked =
    (⟨some (.ofStruct binding), []⟩, fieldsAsked.withRepr type.qualifiedName .generic) := by
  let level := lampAsked.withCategory .i32 {} (.ok (.scalar .i32))
  have number : scope.classify .i32 {} lampAsked = (.ok (.scalar .i32), level) := by
    rw [Scope.classify, Scope.classifyWith, Scope.classifyAnew]
    rfl
  have again : ∀ busy, scope.classifyWith busy .i32 {} fieldsAsked =
      (.ok (.scalar .i32), fieldsAsked) ∧
        scope.classifyWith busy lamp.signature {} fieldsAsked = (.ok lampCategory, fieldsAsked) := by
    intro busy
    rw [Scope.classifyWith, Scope.classifyWith]
    exact ⟨rfl, rfl⟩
  have listed : type.fields.zipIdx =
    [(field "Level" .i32, 0), (field "Light" lamp.signature, 1)] := rfl
  have first : scope.extractField type (field "Level" .i32) 0 lampAsked =
      (⟨some (member "Level" .i32 (.scalar .i32) 0), []⟩, level) :=
    extractField_field rfl number rfl rfl
  have second : scope.extractField type (field "Light" lamp.signature) 1 level =
      (⟨some (member "Light" lamp.signature lampCategory 1), []⟩, fieldsAsked) :=
    extractField_field rfl (classify_lamp (by decide) (by decide)) rfl rfl
  have different : scope.areBlittable [type.qualifiedName] type.instanceFields fieldsAsked =
      (false, fieldsAsked) :=
    (areBlittable_cons (again _).1).trans (areBlittable_cons (again _).2)
  have repr : scope.structRepr? type fieldsAsked =
      (some .generic, fieldsAsked.withRepr type.qualifiedName .generic) :=
    Scope.structRepr?_eq_generic (by decide) (by decide) (by decide) rfl different
  refine Scope.examine_eq_ofStruct (by decide) rfl (by decide) rfl ?_
  simp only [Scope.extractStruct, listed, List.mapM_cons, List.mapM_nil, bind, StateT.bind, pure,
    StateT.pure, first, second, repr]
  rfl

theorem extract_scope : scope.extract = ⟨bindings, []⟩ := by
  have types : scope.module.types.zipIdx = [(lamp, 0), (type, 1)] := rfl
  rw [Scope.extract, Scope.extractWith, types, List.mapM_cons]
  simp only [bind, StateT.bind, List.mapM_cons, examine_lamp, examine_type]
  rfl

/-- The plan of a struct, which is made with the tables of the module so far. -/
def planOf (binding : StructBinding) (type : TypeDef) (tables : Tables) : TypePlan :=
  match binding.plan? scope.config type tables with
  | .ok (some plan, _) => plan
  | _ => {}

/-- The tables with what the plan for the first struct refers to. -/
def lampTables : Tables where
  strings := ["Lamp", "On"]
  members := [
    .staticField lamp.signature Naming.nativeClassPtr .intPtr,
    .staticField lamp.signature Naming.nativeDataSize .i32,
    scope.config.layout .nativeType,
    scope.config.layout .structSize,
    .staticField lamp.signature "On_Offset" .i32,
    .staticField lamp.signature "On_Width" .i32,
    scope.config.layout .propertyOffset,
    scope.config.layout .booleanStorageWidth,
    .field lamp.signature "On" .bool,
    scope.config.readTruth,
    scope.config.writeTruth]

/-- The tables with what both plans refer to. -/
def tables : Tables where
  strings := lampTables.strings ++ ["Panel", "Level", "Light"]
  members := lampTables.members ++ [
    .staticField type.signature Naming.nativeClassPtr .intPtr,
    .staticField type.signature Naming.nativeDataSize .i32,
    .staticField type.signature "Level_Offset" .i32,
    .field type.signature "Level" .i32,
    .staticField type.signature "Light_Offset" .i32,
    .field type.signature "Light" lamp.signature,
    .instanceMethod lamp.signature Method.constructorName [.intPtr] .void,
    .instanceMethod lamp.signature Naming.toNative [.intPtr] .void]

/-- A struct with code that reads it from native memory and code that writes it there. -/
def marshalled (type : TypeDef) (plan : TypePlan) (reading writing initializing : Fragment) :
    TypeDef :=
  { type with
    fields := type.fields ++ plan.fields
    methods := [
      { generatedMethod Method.constructorName [("buffer", .intPtr)] reading [] with
        flags := Method.specialNameFlag },
      generatedMethod Naming.toNative [("buffer", .intPtr)] writing [],
      TypePlan.newInitializer initializing] }

def lampEdited : TypeDef :=
  marshalled lamp (planOf lampBinding lamp {})
    [.loadArg 0, .loadArg 1, .loadStatic 4, .plain .toNative, .plain .add, .loadStatic 5, .call 9,
      .storeField 8, .ret]
    [.loadArg 1, .loadStatic 4, .plain .toNative, .plain .add, .loadStatic 5, .loadArg 0,
      .loadField 8, .call 10, .ret]
    [.constString 0, .call 2, .storeStatic 0, .loadStatic 0, .call 3, .storeStatic 1,
      .loadStatic 0, .constString 1, .call 6, .storeStatic 4, .call 7, .storeStatic 5]

def edited : TypeDef :=
  marshalled type (planOf binding type lampTables)
    [.loadArg 0, .loadArg 1, .loadStatic 13, .plain .toNative, .plain .add, .indirect .load .i32,
      .storeField 14, .loadArg 0, .loadArg 1, .loadStatic 15, .plain .toNative, .plain .add,
      .newObject 17, .storeField 16, .ret]
    [.loadArg 1, .loadStatic 13, .plain .toNative, .plain .add, .loadArg 0, .loadField 14,
      .indirect .store .i32, .loadArg 0, .loadFieldAddress 16, .loadArg 1, .loadStatic 15,
      .plain .toNative, .plain .add, .call 18, .ret]
    [.constString 2, .call 2, .storeStatic 11, .loadStatic 11, .call 3, .storeStatic 12,
      .loadStatic 11, .constString 3, .call 6, .storeStatic 13,
      .loadStatic 11, .constString 4, .call 6, .storeStatic 15]

theorem plan?_lampBinding : lampBinding.plan? scope.config lamp {} =
    Except.ok (some (planOf lampBinding lamp {}), lampTables) :=
  eq_ok_of_toOption (by decide +kernel)

theorem plan?_binding : binding.plan? scope.config type lampTables =
    Except.ok (some (planOf binding type lampTables), tables) :=
  eq_ok_of_toOption (by decide +kernel)

theorem apply_lampPlan : (planOf lampBinding lamp {}).apply lamp = .ok lampEdited :=
  eq_ok_of_toOption (by decide +kernel)

theorem apply_plan : (planOf binding type lampTables).apply type = .ok edited :=
  eq_ok_of_toOption (by decide +kernel)

theorem verify_lampEdited : ∀ method ∈ lampEdited.methods, method.verify lampTables = .ok () := by
  simp only [lampEdited, marshalled, List.forall_mem_cons]
  refine ⟨?_, ?_, ?_, List.forall_mem_nil _⟩ <;> cbv

theorem verify_edited : ∀ method ∈ edited.methods, method.verify tables = .ok () := by
  simp only [edited, marshalled, List.forall_mem_cons]
  refine ⟨?_, ?_, ?_, List.forall_mem_nil _⟩ <;> cbv

def draft : Draft :=
  ⟨scope.config, scope.module, scope.module, []⟩

def lampDraft : Draft :=
  { draft with module := { scope.module with types := [lampEdited, type], tables := lampTables } }

def finalDraft : Draft :=
  { draft with module := { scope.module with types := [lampEdited, edited], tables } }

/-- Both structs are processed in order, and their hashes are known afterwards. -/
theorem exists_processed : ∃ first second,
    Progress.processStruct bindings { draft } lampBinding.name =
      .ok ⟨⟨[lampBinding.name]⟩, { structs := [(lampBinding.name, first)] }, lampDraft⟩ ∧
    Progress.processStruct bindings
      ⟨⟨[lampBinding.name]⟩, { structs := [(lampBinding.name, first)] }, lampDraft⟩ binding.name =
        .ok ⟨⟨[binding.name, lampBinding.name]⟩,
          { structs := [(binding.name, second), (lampBinding.name, first)] }, finalDraft⟩ := by
  have lampMarked : ({} : Ledger).mark lampBinding.name = .ok ⟨[lampBinding.name]⟩ := rfl
  have marked : (⟨[lampBinding.name]⟩ : Ledger).mark binding.name =
      .ok ⟨[binding.name, lampBinding.name]⟩ := rfl
  have lampBound : Progress.bound (bindings.findStruct? lampBinding.name) lampBinding.name =
      .ok lampBinding := rfl
  have bound : Progress.bound (bindings.findStruct? binding.name) binding.name = .ok binding := rfl
  obtain ⟨first, lampHashed⟩ : ∃ hash, ({} : Fingerprints).addStruct bindings lampBinding =
      .ok (hash, { structs := [(lampBinding.name, hash)] }) := ⟨_, rfl⟩
  obtain ⟨second, hashed⟩ : ∃ hash, ({ structs := [(lampBinding.name, first)] } :
      Fingerprints).addStruct bindings binding = .ok (hash,
        { structs := [(binding.name, hash), (lampBinding.name, first)] }) := ⟨_, rfl⟩
  have lampEdits : draft.editStruct lampBinding = .ok lampDraft :=
    Draft.editStruct_eq_ok rfl rfl rfl plan?_lampBinding apply_lampPlan verify_lampEdited
  have edits : lampDraft.editStruct binding = .ok finalDraft :=
    Draft.editStruct_eq_ok rfl rfl rfl plan?_binding apply_plan verify_edited
  refine ⟨first, second, ?_, ?_⟩
  · simp only [Progress.processStruct, lampMarked, lampBound, lampHashed, lampEdits, ok_bind]
    rfl
  · simp only [Progress.processStruct, marked, bound, hashed, edits, ok_bind]
    rfl

theorem exists_woven : ∃ result, scope.weave = .ok (.woven result) ∧
    result.module.tables = tables := by
  have structs : bindings.structOrder = .ok [lampBinding.name, binding.name] := by cbv
  have classes : bindings.classOrder = .ok [] := rfl
  have started : Draft.start scope bindings = .ok draft := rfl
  rcases exists_processed with ⟨first, second, processed, following⟩
  rw [Scope.weave, if_neg (by decide)]
  simp only [extract_scope]
  rw [if_neg (by decide), if_neg (by decide)]
  simp only [Scope.weaveBindings, Scope.process, structs, classes, started, List.foldlM_cons,
    List.foldlM_nil, processed, following, ok_bind]
  exact ⟨_, rfl, rfl⟩

theorem isMarshalled_iff {other : StructBinding} :
    other.IsMarshalled scope.config bindings ↔ other = lampBinding ∨ other = binding := by
  constructor
  · rintro ⟨picked, _, _⟩
    have listed := Bindings.Picks.mem picked
    simpa [bindings] using listed
  · rintro (rfl | rfl) <;> exact ⟨rfl, rfl, by decide⟩

/-- Truth values are four bytes long, and a lamp lies behind the level. -/
def layout : StructLayout where
  size name := if name = lampBinding.name then 4 else 8
  distance field := if field.name = "Light" then 4 else 0
  width _ := 4

theorem forall_lampMembers {holds : MemberBinding → Prop} :
    (∀ member ∈ lampBinding.members, holds member) ↔ holds (member "On" .bool .boolean 0) :=
  List.forall_mem_singleton

theorem forall_members {holds : MemberBinding → Prop} :
    (∀ member ∈ binding.members, holds member) ↔ holds (member "Level" .i32 (.scalar .i32) 0) ∧
      holds (member "Light" lamp.signature lampCategory 1) := by
  rw [binding, List.forall_mem_cons, List.forall_mem_singleton]

theorem spreads (module : Module) (other : StructBinding)
    (marshalled : other.IsMarshalled scope.config bindings) :
    layout.Spreads (.ofStructs scope.config bindings module) other := by
  rcases isMarshalled_iff.mp marshalled with rfl | rfl
  · refine ⟨forall_lampMembers.mpr fun place covered => ?_, List.pairwise_singleton _ _⟩
    change (place - (0 + 0)).toNat < 4 at covered
    change place.toNat < 4
    bv_omega
  · refine ⟨forall_members.mpr ⟨fun place covered => ?_, fun place covered => ?_⟩,
      List.pairwise_pair.mpr fun place first second => ?_⟩
    · change (place - (0 + 0)).toNat < 4 at covered
      change place.toNat < 8
      bv_omega
    · change (place - (0 + 4)).toNat < 4 at covered
      change place.toNat < 8
      bv_omega
    · change (place - (0 + 0)).toNat < 4 at first
      change (place - (0 + 4)).toNat < 4 at second
      bv_omega

/-- A program with the structs of the woven module. -/
noncomputable def host (module : Module) : StructHost scope.config bindings module :=
  .ofLayout layout (spreads module) fun _ _ _ _ _ => Nat.zero_lt_succ 3

/-- What a panel holds: a level of seven and a lamp that is on. -/
def fields (field : MemberRef) : Content :=
  if field.name = "Level" then .plain (.integer 7)
  else .struct lampBinding fun _ => .plain (.truth true)

/-- The state with the panel. -/
def state : MachineState where
  memory _ := 0
  cells
    | .field 0 member => if member.name = "Level" then .integer 7 else .object 1
    | .field 1 _ => .truth true
    | _ => .null
  statics member := .integer <|
    if member.name = "Light_Offset" then 4
    else if member.name = "On_Width" then 4
    else 0
  frames := 0
  extent := 0

/-- Only the panel refers to an object, the lamp. -/
theorem of_cells_eq_object {cell : Cell} {identity : Nat}
    (refers : state.cells cell = .object identity) :
    identity = 1 ∧ ∃ member, cell = .field 0 member := by
  unfold state at refers
  dsimp only at refers
  split at refers
  · split at refers
    · cases refers
    · cases refers
      exact ⟨rfl, _, rfl⟩
  · cases refers
  · cases refers

theorem finite_state : state.Finite := by
  refine (Set.finite_le_nat 1).subset ?_
  rintro identity (⟨cell, _, refers⟩ | ⟨field, other, refers⟩)
  · exact Nat.le_of_eq (of_cells_eq_object refers).1
  · rcases of_cells_eq_object refers with ⟨_, member, same⟩
    cases same
    exact Nat.zero_le 1

theorem lays_state (module : Module) : (host module).Lays state := by
  intro other marshalled
  rcases isMarshalled_iff.mp marshalled with rfl | rfl
  · exact forall_lampMembers.mpr ⟨rfl, fun _ => rfl⟩
  · exact forall_members.mpr ⟨⟨rfl, nofun⟩, ⟨rfl, nofun⟩⟩

theorem fills_fields (module : Module) : (host module).Fills binding fields := by
  have small : NativeKind.i32.Holds (.integer 7) := ⟨by decide, by decide⟩
  refine forall_members.mpr ⟨⟨rfl, small⟩, isMarshalled_iff.mpr (.inl rfl), ⟨_, rfl⟩, ?_⟩
  exact forall_lampMembers.mpr ⟨rfl, true, rfl⟩

theorem heldBy_state :
    (Content.struct binding fields).HeldBy state (fun _ => True) (.object 0) :=
  ⟨0, rfl, trivial, forall_members.mpr ⟨rfl, 1, rfl, trivial, forall_lampMembers.mpr rfl⟩⟩

end Panel

/-- A panel with a level of seven and a lamp that is on is written to native memory and read into a new
panel, with a new lamp. -/
theorem Scope.structRoundTrips_of_weave_panel :
    ∃ result, Panel.scope.weave = .ok (.woven result) ∧ result.module.tables.Addressable ∧
      Panel.binding.IsMarshalled Panel.scope.config Panel.scope.extract.bindings ∧
      ∃ writing reading, result.module.structCode? Panel.binding "ToNative" = some writing ∧
        result.module.structCode? Panel.binding ".ctor" = some reading ∧
        ∃ (machine : Machine) (middle final : MachineState) (fresh lamp : Nat),
          machine.tables = result.module.tables ∧ ¬ middle.Occupies fresh ∧ ¬ middle.Occupies lamp ∧
          machine.Runs writing [.object 0, .integer 4096] Panel.state none middle ∧
          machine.Runs reading [.object fresh, .integer 4096] middle none final ∧
          final.cells (.field fresh (.field Panel.type.signature "Level" .i32)) = .integer 7 ∧
          final.cells (.field fresh (.field Panel.type.signature "Light" Panel.lamp.signature)) =
            .object lamp ∧
          final.cells (.field lamp (.field Panel.lamp.signature "On" .bool)) = .truth true := by
  rcases Panel.exists_woven with ⟨result, woven, tables⟩
  have addressable : result.module.tables.Addressable := by
    rw [tables]
    exact ⟨by rw [Tables.Indexed]; decide, by decide⟩
  have marshalled : Panel.binding.IsMarshalled Panel.scope.config Panel.scope.extract.bindings := by
    rw [Panel.extract_scope]
    exact Panel.isMarshalled_iff.mpr (.inr rfl)
  have trips := structRoundTrips_of_weave Panel.scope result woven addressable Panel.binding marshalled
  rw [Panel.extract_scope] at trips
  rcases trips with ⟨writing, reading, writer, reader, trips⟩
  rcases trips (Panel.host result.module) Panel.fields (Panel.fills_fields _) Panel.state 0 4096
      Panel.finite_state (Panel.lays_state _) Panel.heldBy_state with ⟨middle, written, _, finite, trips⟩
  obtain ⟨fresh, unused⟩ : ∃ fresh, ¬ middle.Occupies fresh := finite.exists_notMem
  rcases trips fresh unused with ⟨final, read, held, _⟩
  rcases held with ⟨_, same, _, each⟩
  cases same
  rcases Panel.forall_members.mp each with ⟨level, lamp, light, new, parts⟩
  exact ⟨result, woven, addressable, marshalled, writing, reading, writer, reader,
    (Panel.host result.module).machine, middle, final, fresh, lamp, rfl, unused, new, written, read, level, light,
    Panel.forall_lampMembers.mp parts⟩

end NativeWeave
