import NativeWeave.Marshalling.Value
import NativeWeave.Proofs.Machine.Execution
import NativeWeave.Proofs.Marshalling.Balance

namespace NativeWeave

/-!
# Moving plain values

Values that refer to nothing lie in native memory as a primitive, as the bytes of a struct, or, if
they are truth values, in a way that only their marshaller knows.  What is written to a place can be
read there for as long as the bytes of the place stay the same.
-/

/-- Tokens can name every member and every type of the tables. -/
structure Tables.Addressable (tables : Tables) : Prop where
  members : tables.Indexed
  types : tables.types.length ≤ 2 ^ 32

/-- The token of a type goes on meaning the type. -/
theorem Emit.leaves_typeToken (signature : Signature) :
    (Emit.type signature).Leaves fun tables token =>
      tables.Addressable → tables.type? token = some signature := by
  intro before after token run tables grows _ addressable
  cases run
  have within := Nat.le_trans grows.types.length_le addressable.types
  exact getElem?_of_prefix grows.types (getElem?_intern within)

/-! ## How values lie in memory -/

namespace Category

/-- Values of the category are primitives or structs of the same bytes on both sides. -/
def isPlain : Category → Bool
  | scalar _ | enumeration _ _ | boolean | struct .blittable _ _ => true
  | _ => false

end Category

/-- How a plain value lies in native memory. -/
inductive Form
  | exposed (shape : Shape)
  /-- A truth value in so many bytes. -/
  | truth (width : Address)

namespace Form

def size : Form → Nat
  | exposed shape => shape.size
  | truth width => width.toNat

def Holds (form : Form) (value : Value) : Prop :=
  match form with
  | exposed shape => shape.Holds value
  | truth _ => ∃ flag, value = .truth flag

end Form

/-- The form of a plain category, for a type of some shape and truth values of some width. -/
def Category.form (category : Category) (shape : Shape) (width : Address) : Form :=
  match category with
  | scalar kind => .exposed (.primitive kind)
  | enumeration _ _ => .exposed (.primitive .u8)
  | boolean => .truth width
  | _ => .exposed shape

namespace Config

/-- Reads a truth value of some width at an address. -/
def readTruth (config : Config) : MemberRef :=
  .staticMethod (config.runtimeSignature .boolMarshaller) "FromNative" [.intPtr, .i32] .bool

/-- Writes a truth value of some width to an address. -/
def writeTruth (config : Config) : MemberRef :=
  .staticMethod (config.runtimeSignature .boolMarshaller) "ToNative" [.intPtr, .i32, .bool] .void

end Config

namespace Machine

/-- The marshaller of truth values in so many bytes writes nothing but the place of the value, and
reads back what it has written there. -/
def MarshalsTruths (machine : Machine) (config : Config) (width : Address) : Prop :=
  ∀ (start : Address) (flag : Bool) (state : MachineState), ∃ memory,
    machine.answer config.writeTruth [.integer start, .integer width, .truth flag] state =
      .returns none { state with memory } ∧
    memory.AgreesOn state.memory (fun place => ¬ start.Covers width.toNat place) ∧
    ∀ later : MachineState, later.memory.AgreesOn memory (start.Covers width.toNat) →
      machine.answer config.readTruth [.integer start, .integer width] later =
        .returns (some (.truth flag)) later

/-- Reading at an address gives the value. -/
def Retrieves (machine : Machine) (config : Config) (form : Form) (start : Address) (value : Value)
    (state : MachineState) : Prop :=
  match form with
  | .exposed shape => shape.load state.memory start = value
  | .truth width => machine.answer config.readTruth [.integer start, .integer width] state =
      .returns (some value) state

/-- Reading at an address gives the value in every state that has the same bytes there. -/
def Keeps (machine : Machine) (config : Config) (form : Form) (start : Address) (value : Value)
    (memory : NativeMemory) : Prop :=
  ∀ state : MachineState, state.memory.AgreesOn memory (start.Covers form.size) →
    machine.Retrieves config form start value state

variable {machine : Machine} {config : Config} {form : Form} {start : Address} {value : Value}
  {memory other : NativeMemory}

theorem Keeps.congr (keeps : machine.Keeps config form start value memory)
    (agrees : other.AgreesOn memory (start.Covers form.size)) :
    machine.Keeps config form start value other :=
  fun state same => keeps state fun place inside => (same place inside).trans (agrees place inside)

/-! ## Where values and addresses are found -/

/-- The token is that of a static field that holds the value. -/
def HoldsStatic (machine : Machine) (state : MachineState) (token : UInt32) (value : Value) : Prop :=
  ∃ member, machine.tables.member? token = some member ∧ state.statics member = value

/-- The source has the value. -/
def Finds (machine : Machine) (frame : Nat) (state : MachineState) (source : ValueSource)
    (value : Value) : Prop :=
  match source with
  | .argument index => state.cells (.argument frame index.toNat) = value
  | .localVariable index => state.cells (.localVariable frame index.toNat) = value
  | .thisField token => ∃ identity member, state.cells (.argument frame 0) = .object identity ∧
      machine.tables.member? token = some member ∧ state.cells (.field identity member) = value
  | .static token => machine.HoldsStatic state token value
  | .behind index type => ∃ place signature, state.cells (.argument frame index.toNat) =
      .reference place ∧ machine.tables.type? type = some signature ∧ state.cells place = value

/-- The place in native memory begins at an address. -/
def Locates (machine : Machine) (frame : Nat) (state : MachineState) (address : NativeAddress)
    (start : Address) : Prop :=
  match address.offset with
  | none => machine.Finds frame state address.base (.integer start)
  | some slot => ∃ base distance, machine.Finds frame state address.base (.integer base) ∧
      machine.HoldsStatic state slot (.integer distance) ∧ start = base + distance

variable {frame : Nat} {state later : MachineState} {token : UInt32} {source : ValueSource}
  {address : NativeAddress} {stack rest : List Value}

theorem passes_loadStatic (holds : machine.HoldsStatic state token value) :
    machine.Passes frame [.loadStatic token] stack state (value :: stack) state := by
  rcases holds with ⟨member, means, rfl⟩
  refine passes_of_perform fun call => ?_
  simp only [perform, Instr.loadStatic, means]
  rfl

theorem passes_loadArg {index : UInt16}
    (holds : state.cells (.argument frame index.toNat) = value) :
    machine.Passes frame [.loadArg index] stack state (value :: stack) state :=
  passes_of_perform fun _ => holds ▸ rfl

theorem passes_constString {index : UInt32} {text : String}
    (names : machine.tables.string? index = some text) :
    machine.Passes frame [.constString index] stack state (.text text :: stack) state := by
  refine passes_of_perform fun call => ?_
  simp only [perform, names, Option.map_some]

theorem passes_storeStatic {member : MemberRef}
    (means : machine.tables.member? token = some member) :
    machine.Passes frame [.storeStatic token] (value :: stack) state stack
      (state.setStatic member value) := by
  refine passes_of_perform fun call => ?_
  simp only [perform, Instr.storeStatic, means]
  rfl

theorem passes_push (finds : machine.Finds frame state source value) :
    machine.Passes frame source.push stack state (value :: stack) state := by
  cases source with
  | argument index =>
    exact passes_loadArg finds
  | localVariable index =>
    cases finds
    exact passes_of_perform fun _ => rfl
  | thisField token =>
    rcases finds with ⟨identity, member, receiver, means, rfl⟩
    have first : machine.Passes frame [.loadArg 0] stack state (.object identity :: stack) state :=
      passes_loadArg receiver
    refine first.append (passes_of_perform fun call => ?_)
    simp only [perform, Instr.loadField, means]
    rfl
  | static token => exact passes_loadStatic finds
  | behind index type =>
    rcases finds with ⟨place, signature, passed, means, rfl⟩
    have first : machine.Passes frame [.loadArg index] stack state (.reference place :: stack)
        state := passes_loadArg passed
    refine first.append (passes_of_perform fun call => ?_)
    simp only [perform, Instr.loadObject, means]
    rfl

theorem passes_address (locates : machine.Locates frame state address start) :
    machine.Passes frame address.push stack state (.integer start :: stack) state := by
  unfold Locates at locates
  unfold NativeAddress.push
  split
  · next direct =>
    rw [direct] at locates
    exact passes_push locates
  · next slot shifted =>
    rw [shifted] at locates
    rcases locates with ⟨base, distance, finds, holds, rfl⟩
    have converted : machine.Passes frame [.plain .toNative]
        (.integer distance :: .integer base :: stack) state
        (.integer distance :: .integer base :: stack) state := passes_of_perform fun _ => rfl
    have added : machine.Passes frame [.plain .add]
        (.integer distance :: .integer base :: stack) state
        (.integer (base + distance) :: stack) state := passes_of_perform fun _ => rfl
    exact (passes_push finds).append ((passes_loadStatic holds).append (converted.append added))

/-! ## Calls -/

variable {member : MemberRef} {signature : MethodSignature} {passed : List Value}
  {result : Option Value}

theorem popArguments_reverse (passed rest : List Value) :
    popArguments passed.length (passed.reverse ++ rest) = some (passed, rest) := by
  rw [popArguments, if_pos (by simp)]
  rw [List.take_left' List.length_reverse, List.drop_left' List.length_reverse, List.reverse_reverse]

/-- A call takes its arguments from the stack and leaves its result. -/
theorem passes_call (passed : List Value) (means : machine.tables.member? token = some member)
    (declared : member.methodSignature? = some signature)
    (count : signature.argumentCount = passed.length)
    (calls : machine.Calls member passed state result later) :
    machine.Passes frame [.call token] (passed.reverse ++ rest) state
      ((if signature.result.isVoid then [] else result.toList) ++ rest) later := by
  rcases calls with ⟨fuel, called⟩
  refine .cons ⟨fuel, ?_⟩ .nil
  simp only [perform, Instr.call, performMember, means, declared, count, popArguments_reverse,
    performCall, called, Option.bind_eq_bind, Option.bind_some]
  rfl

theorem calls_of_returns
    (answered : machine.answer member passed state = .returns result later) :
    machine.Calls member passed state result later := by
  refine ⟨0, ?_⟩
  rw [callWith, answered]

theorem calls_of_runs {body : Body} {arguments : List Value}
    (answered : machine.answer member passed state = .runs body arguments)
    (runs : machine.Runs body arguments state result later) :
    machine.Calls member passed state result later := by
  rcases runs with ⟨fuel, run⟩
  refine ⟨fuel, ?_⟩
  rw [callWith, answered]
  exact run

end Machine

/-! ## Reading and writing -/

open Machine

/-- The code pushes the value at an address and changes nothing. -/
def Fragment.Reads (fragment : Fragment) (machine : Machine) (config : Config) (frame : Nat)
    (state : MachineState) (form : Form) (start : Address) : Prop :=
  ∀ value, machine.Retrieves config form start value state → ∀ stack,
    machine.Passes frame fragment stack state (value :: stack) state

/-- The code writes the value to an address and changes nothing else. -/
def Fragment.Writes (fragment : Fragment) (machine : Machine) (config : Config) (frame : Nat)
    (state : MachineState) (form : Form) (start : Address) (value : Value) : Prop :=
  ∃ memory : NativeMemory, memory.AgreesOn state.memory (fun place => ¬ start.Covers form.size place) ∧
    machine.Keeps config form start value memory ∧
    ∀ stack, machine.Passes frame fragment stack state stack { state with memory }

variable {category : Category} {config : Config} {type : Signature} {slots : MemberSlots}
  {address : NativeAddress} {source : ValueSource}

/-- Reading a value of a plain category. -/
theorem leaves_reading (plain : category.isPlain = true) :
    (category.fromNative config type slots address).Leaves fun tables fragment =>
      tables.Addressable → ∀ machine : Machine, machine.tables = tables →
        ∀ frame state start width, machine.Locates frame state address start →
          (∀ token ∈ slots.width, machine.HoldsStatic state token (.integer width)) →
            fragment.Reads machine config frame state (category.form (machine.shape type) width)
              start := by
  have primitive : ∀ {kind : NativeKind} {machine : Machine} {frame : Nat} {state : MachineState}
      {start : Address}, machine.Locates frame state address start →
        Fragment.Reads (address.push ++ [.indirect .load kind]) machine config frame state
          (.exposed (.primitive kind)) start := by
    intro kind machine frame state start locates value retrieves stack
    cases retrieves
    exact (passes_address locates).append (passes_of_perform fun _ => rfl)
  unfold Category.fromNative
  split
  all_goals try cases plain
  · exact .pure fun tables _ machine _ frame state start width locates _ => primitive locates
  · exact .pure fun tables _ machine _ frame state start width locates _ => primitive locates
  · refine .bind MemberSlots.leaves_require fun token => ?_
    refine .bind (Emit.leaves_callOf config.readTruth) fun call => .pure fun tables called found => ?_
    rintro _ machine rfl frame state start width locates measures value retrieves stack
    rcases called with ⟨reader, rfl, means⟩
    have read : machine.Passes frame [.call reader] (.integer width :: .integer start :: stack) state
        (value :: stack) state :=
      passes_call [.integer start, .integer width] means rfl rfl (calls_of_returns retrieves)
    exact (passes_address locates).append ((passes_loadStatic (measures token found)).append read)
  · refine .bind (Emit.leaves_typeToken type) fun token => .pure fun tables means addressable => ?_
    rintro machine rfl frame state start width locates _ value retrieves stack
    cases retrieves
    refine (passes_address locates).append (passes_of_perform fun call => ?_)
    simp only [perform, Instr.loadObject, means addressable]
    rfl

/-- Bytes that are written are there, and nothing else is changed. -/
theorem exists_written (machine : Machine) (state : MachineState) (shape : Shape) {start : Address}
    {value : Value} (holds : shape.Holds value) (fits : shape.size ≤ 2 ^ 64) :
    ∃ bytes, shape.bytes? value = some bytes ∧
      (state.memory.write start bytes).AgreesOn state.memory
        (fun place => ¬ start.Covers shape.size place) ∧
      machine.Keeps config (.exposed shape) start value (state.memory.write start bytes) := by
  rcases Shape.load_write holds fits with ⟨bytes, stored, length, loads⟩
  have agrees := NativeMemory.write_agreesOn state.memory start bytes
  rw [length] at agrees
  refine ⟨bytes, stored, agrees, fun later same => ?_⟩
  exact (Shape.load_congr same).trans (loads _ _)

/-- Writing a value of a plain category. -/
theorem leaves_writing (plain : category.isPlain = true) :
    (category.toNative config type slots address source).Leaves fun tables fragment =>
      tables.Addressable → ∀ machine : Machine, machine.tables = tables →
        ∀ frame state start width value, machine.Locates frame state address start →
          (∀ token ∈ slots.width, machine.HoldsStatic state token (.integer width)) →
            (category.needsWidth = true → machine.MarshalsTruths config width) →
              machine.Finds frame state source value →
                (category.form (machine.shape type) width).Holds value →
                  fragment.Writes machine config frame state
                    (category.form (machine.shape type) width) start value := by
  have primitive : ∀ {kind : NativeKind} {machine : Machine} {frame : Nat} {state : MachineState}
      {start : Address} {value : Value}, machine.Locates frame state address start →
        machine.Finds frame state source value → kind.Holds value →
          Fragment.Writes (address.push ++ source.push ++ [.indirect .store kind]) machine config
            frame state (.exposed (.primitive kind)) start value := by
    intro kind machine frame state start value locates finds holds
    rcases exists_written machine state (.primitive kind) holds (Shape.size_primitive_le kind) with
      ⟨bytes, stored, agrees, keeps⟩
    refine ⟨_, agrees, keeps, fun stack => ?_⟩
    refine ((passes_address locates).append (passes_push finds)).append (passes_of_perform ?_)
    intro call
    simp only [perform, performIndirect, stored, Option.map_some]
  unfold Category.toNative
  split
  all_goals try cases plain
  · exact .pure fun tables _ machine _ frame state start width value locates _ _ finds holds =>
      primitive locates finds holds
  · exact .pure fun tables _ machine _ frame state start width value locates _ _ finds holds =>
      primitive locates finds holds
  · refine .bind MemberSlots.leaves_require fun token => ?_
    refine .bind (Emit.leaves_callOf config.writeTruth) fun call => .pure fun tables called found => ?_
    rintro _ machine rfl frame state start width value locates measures marshals finds ⟨flag, rfl⟩
    rcases called with ⟨writer, rfl, means⟩
    rcases marshals rfl start flag state with ⟨memory, answered, agrees, reads⟩
    refine ⟨memory, agrees, reads, fun stack => ?_⟩
    have written : machine.Passes frame [.call writer]
        (.truth flag :: .integer width :: .integer start :: stack) state stack { state with memory } :=
      passes_call [.integer start, .integer width, .truth flag] means rfl rfl
        (calls_of_returns answered)
    exact ((passes_address locates).append ((passes_loadStatic (measures token found)).append
      (passes_push finds))).append written
  · refine .bind (Emit.leaves_typeToken type) fun token => .pure fun tables means addressable => ?_
    rintro machine rfl frame state start width value locates _ _ finds holds
    rcases exists_written machine state (machine.shape type) holds (machine.fits type) with
      ⟨bytes, stored, agrees, keeps⟩
    refine ⟨_, agrees, keeps, fun stack => ?_⟩
    refine ((passes_address locates).append (passes_push finds)).append (passes_of_perform ?_)
    intro call
    simp only [perform, Instr.storeObject, means addressable, Option.bind_eq_bind, Option.bind_some]
    cases value with
    | _ => simp only [performType, stored, Option.map_some]

end NativeWeave
