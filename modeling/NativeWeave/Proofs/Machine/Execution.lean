import NativeWeave.Marshalling.Fragment
import NativeWeave.Proofs.Code.Execution
import NativeWeave.Proofs.Format.Body
import NativeWeave.Proofs.Machine.Memory

namespace NativeWeave

/-!
# Execution

A machine runs the code of a body, one instruction after the other, on a stack of its own.  What a
called member does is up to the machine: a call may be answered at once, or by running a body.  A run
gets a number of steps as fuel; more fuel changes nothing once the run has come to its end.
-/

/-- How a call is answered. -/
inductive Reply
  | returns (result : Option Value) (state : MachineState)
  | runs (body : Body) (arguments : List Value)
  | fails

/-- What execution depends on besides the code. -/
structure Machine where
  tables : Tables
  shape : Signature → Shape
  /-- No value is larger than memory. -/
  fits : ∀ type, (shape type).size ≤ 2 ^ 64
  /-- What a local variable holds before anything is stored to it. -/
  initial : Signature → Value
  conforms : Signature → Value → Bool
  /-- The member that a virtual call arrives at. -/
  actual : MemberRef → List Value → MemberRef
  /-- A new object of the type that a constructor is of. -/
  allocate : MemberRef → MachineState → Value × MachineState
  answer : MemberRef → List Value → MachineState → Reply

/-! ## Single instructions -/

/-- What an operation without operand does to stack and state.  Arithmetic is that of integers. -/
def PlainOp.perform (op : PlainOp) (stack : List Value) (state : MachineState) :
    Option (List Value × MachineState) :=
  match op, stack with
  | nop, _ => some (stack, state)
  | pop, _ :: rest => some (rest, state)
  | dup, top :: rest => some (top :: top :: rest, state)
  | null, _ => some (.null :: stack, state)
  | add, .integer second :: .integer first :: rest =>
    some (.integer (first + second) :: rest, state)
  | sub, .integer second :: .integer first :: rest =>
    some (.integer (first - second) :: rest, state)
  | mul, .integer second :: .integer first :: rest =>
    some (.integer (first * second) :: rest, state)
  | toNative, .integer bits :: rest => some (.integer bits :: rest, state)
  | toInt32, .integer bits :: rest =>
    some (.integer ((bits.setWidth 32).signExtend 64) :: rest, state)
  | equal, second :: first :: rest => some (.truth (first = second) :: rest, state)
  | less, .integer second :: .integer first :: rest =>
    some (.truth (first.slt second) :: rest, state)
  | greater, .integer second :: .integer first :: rest =>
    some (.truth (second.slt first) :: rest, state)
  | initBlock, .integer size :: .integer byte :: .integer start :: rest =>
    some (rest, { state with
      memory := state.memory.fill start size.toNat (UInt8.ofNat byte.toNat) })
  | localAlloc, .integer size :: rest =>
    if state.extent + size.toNat ≤ 2 ^ 64 then
      some (.integer (BitVec.ofNat 64 state.extent) :: rest,
        { state with extent := state.extent + size.toNat })
    else
      none
  | _, _ => none

/-- What access to a variable of the frame does. -/
def SlotOp.perform (op : SlotOp) (frame index : Nat) (stack : List Value) (state : MachineState) :
    Option (List Value × MachineState) :=
  match op, stack with
  | loadArg, _ => some (state.cells (.argument frame index) :: stack, state)
  | storeArg, value :: rest => some (rest, state.setVariable (.argument frame index) value)
  | loadArgAddress, _ => some (.reference (.argument frame index) :: stack, state)
  | loadLocal, _ => some (state.cells (.localVariable frame index) :: stack, state)
  | storeLocal, value :: rest => some (rest, state.setVariable (.localVariable frame index) value)
  | loadLocalAddress, _ => some (.reference (.localVariable frame index) :: stack, state)
  | _, _ => none

/-- How many arguments a method takes, the receiver counted. -/
def MethodSignature.argumentCount (signature : MethodSignature) : Nat :=
  signature.parameters.length + if signature.hasThis then 1 else 0

/-- The arguments of a call, of which the last one is on top, and what lies below them. -/
def popArguments (count : Nat) (stack : List Value) : Option (List Value × List Value) :=
  if count ≤ stack.length then some ((stack.take count).reverse, stack.drop count) else none

namespace Machine

/-- How the machine goes on when a member is called. -/
abbrev Calling := MemberRef → List Value → MachineState → Option (Option Value × MachineState)

/-- Take the arguments from the stack, call a member and push its result. -/
def performCall (call : Calling) (member : MemberRef) (signature : MethodSignature)
    (passed rest : List Value) (state : MachineState) : Option (List Value × MachineState) := do
  let (result, later) ← call member passed state
  return ((if signature.result.isVoid then [] else result.toList) ++ rest, later)

/-- What access to a field does. -/
def accessField (op : MemberOp) (member : MemberRef) (stack : List Value)
    (state : MachineState) : Option (List Value × MachineState) :=
  match op, stack with
  | .loadField, .object identity :: rest =>
    some (state.cells (.field identity member) :: rest, state)
  | .storeField, value :: .object identity :: rest =>
    some (rest, state.setVariable (.field identity member) value)
  | .loadFieldAddress, .object identity :: rest =>
    some (.reference (.field identity member) :: rest, state)
  | .loadStatic, _ => some (state.statics member :: stack, state)
  | .storeStatic, value :: rest => some (rest, state.setStatic member value)
  | _, _ => none

/-- What an operation on a member does. -/
def performMember (machine : Machine) (call : Calling) (op : MemberOp) (member : MemberRef)
    (stack : List Value) (state : MachineState) : Option (List Value × MachineState) :=
  match op with
  | .call => do
    let signature ← member.methodSignature?
    let (passed, rest) ← popArguments signature.argumentCount stack
    performCall call member signature passed rest state
  | .callVirtual => do
    let signature ← member.methodSignature?
    let (passed, rest) ← popArguments signature.argumentCount stack
    performCall call (machine.actual member passed) signature passed rest state
  | .newObject => do
    let signature ← member.methodSignature?
    let (passed, rest) ← popArguments signature.parameters.length stack
    let (object, extended) := machine.allocate member state
    let (_, later) ← call member (object :: passed) extended
    return (object :: rest, later)
  | _ => accessField op member stack state

/-- What an operation on a type does.  An address is one of native memory or that of a variable. -/
def performType (machine : Machine) (op : TypeOp) (type : Signature) (stack : List Value)
    (state : MachineState) : Option (List Value × MachineState) :=
  match op, stack with
  | .castClass, value :: rest =>
    if machine.conforms type value then some (value :: rest, state) else none
  | .loadObject, .reference place :: rest => some (state.cells place :: rest, state)
  | .loadObject, .integer start :: rest =>
    some ((machine.shape type).load state.memory start :: rest, state)
  | .storeObject, value :: .reference place :: rest => some (rest, state.setVariable place value)
  | .storeObject, value :: .integer start :: rest =>
    ((machine.shape type).bytes? value).map fun bytes =>
      (rest, { state with memory := state.memory.write start bytes })
  | _, _ => none

/-- What access to a primitive does. -/
def performIndirect (op : IndirectOp) (kind : NativeKind) (stack : List Value)
    (state : MachineState) : Option (List Value × MachineState) :=
  match op, stack with
  | .load, .integer start :: rest =>
    some ((Shape.primitive kind).load state.memory start :: rest, state)
  | .store, value :: .integer start :: rest =>
    ((Shape.primitive kind).bytes? value).map fun bytes =>
      (rest, { state with memory := state.memory.write start bytes })
  | _, _ => none

/-- What an instruction does that neither jumps nor returns. -/
def perform (machine : Machine) (call : Calling) (frame : Nat) (instr : Instr)
    (stack : List Value) (state : MachineState) : Option (List Value × MachineState) :=
  match instr with
  | .plain op => op.perform stack state
  | .constI32 value => some (.integer (value.toBitVec.signExtend 64) :: stack, state)
  | .constI64 value => some (.integer value.toBitVec :: stack, state)
  | .constF32 bits => some (.single bits.toBitVec :: stack, state)
  | .constF64 bits => some (.double bits.toBitVec :: stack, state)
  | .constString index =>
    (machine.tables.string? index).map fun text => (.text text :: stack, state)
  | .slot op index => op.perform frame index.toNat stack state
  | .jump _ _ => none
  | .member op token => do
    let member ← machine.tables.member? token
    machine.performMember call op member stack state
  | .type op token => do
    let type ← machine.tables.type? token
    machine.performType op type stack state
  | .indirect op kind => performIndirect op kind stack state

end Machine

/-- Whether a jump is taken, and the stack behind it. -/
def JumpOp.decide (op : JumpOp) (stack : List Value) : Option (Bool × List Value) :=
  match op, stack with
  | always, _ => some (true, stack)
  | ifTrue, value :: rest => some (value.isTrue, rest)
  | ifFalse, value :: rest => some (!value.isTrue, rest)
  | _, [] => none

/-! ## Runs -/

namespace Machine

/-- How the machine goes on with code in a frame, from an index on. -/
abbrev Going := List Instr → (frame index : Nat) → List Value → MachineState →
  Option (Option Value × MachineState)

/-- Run the code of a body in a new frame. -/
def enter (machine : Machine) (go : Going) (body : Body) (passed : List Value)
    (state : MachineState) : Option (Option Value × MachineState) :=
  match body.toCode with
  | .ok code =>
    go code.instrs state.frames 0 [] (state.enter passed (body.locals.map machine.initial))
  | .error _ => none

/-- Answer a call. -/
def callWith (machine : Machine) (go : Going) : Calling := fun member passed state =>
  match machine.answer member passed state with
  | .returns result later => some (result, later)
  | .runs body arguments => machine.enter go body arguments state
  | .fails => none

/-- Execute code in a frame from an index on, up to the return. -/
def execute (machine : Machine) : (fuel : Nat) → Going
  | 0, _, _, _, _, _ => none
  | fuel + 1, instrs, frame, index, stack, state =>
    match instrs[index]? with
    | none => none
    | some (.plain .ret) => some (stack.head?, state)
    | some (.jump op target) => do
      let (taken, rest) ← op.decide stack
      machine.execute fuel instrs frame (if taken then target else index + 1) rest state
    | some instr => do
      let (next, later) ←
        machine.perform (machine.callWith (machine.execute fuel)) frame instr stack state
      machine.execute fuel instrs frame (index + 1) next later

/-- Running a body on arguments gives a result and leaves a state. -/
def Runs (machine : Machine) (body : Body) (passed : List Value) (state : MachineState)
    (result : Option Value) (later : MachineState) : Prop :=
  ∃ fuel, machine.enter (machine.execute fuel) body passed state = some (result, later)

/-- Calling a member with arguments gives a result and leaves a state. -/
def Calls (machine : Machine) (member : MemberRef) (passed : List Value) (state : MachineState)
    (result : Option Value) (later : MachineState) : Prop :=
  ∃ fuel, machine.callWith (machine.execute fuel) member passed state = some (result, later)

/-! ## Fuel -/

variable {machine : Machine}

/-- The second way to go on comes to the same end wherever the first one comes to an end. -/
def Going.Extends (first second : Going) : Prop :=
  ∀ instrs frame index stack state ended,
    first instrs frame index stack state = some ended →
      second instrs frame index stack state = some ended

theorem enter_extends {first second : Going} (extends' : first.Extends second) {body : Body}
    {passed : List Value} {state : MachineState} {ended : Option Value × MachineState}
    (run : machine.enter first body passed state = some ended) :
    machine.enter second body passed state = some ended := by
  unfold enter at run ⊢
  cases read : body.toCode with
  | error error =>
    rw [read] at run
    cases run
  | ok code =>
    rw [read] at run
    exact extends' _ _ _ _ _ _ run

theorem callWith_extends {first second : Going} (extends' : first.Extends second)
    {member : MemberRef} {passed : List Value} {state : MachineState}
    {ended : Option Value × MachineState}
    (run : machine.callWith first member passed state = some ended) :
    machine.callWith second member passed state = some ended := by
  unfold callWith at run ⊢
  cases answered : machine.answer member passed state with
  | returns result later =>
    rw [answered] at run
    exact run
  | runs body arguments =>
    rw [answered] at run
    exact enter_extends extends' run
  | fails =>
    rw [answered] at run
    cases run

theorem perform_extends {first second : Going} (extends' : first.Extends second) {frame : Nat}
    {instr : Instr} {stack : List Value} {state : MachineState} {next : List Value × MachineState}
    (run : machine.perform (machine.callWith first) frame instr stack state = some next) :
    machine.perform (machine.callWith second) frame instr stack state = some next := by
  cases instr with
  | member op token =>
    simp only [perform, Option.bind_eq_bind, Option.bind_eq_some_iff] at run ⊢
    rcases run with ⟨member, found, run⟩
    refine ⟨member, found, ?_⟩
    cases op with
    | call | callVirtual | newObject =>
      simp only [performMember, performCall, Option.bind_eq_bind, Option.bind_eq_some_iff] at run ⊢
      rcases run with ⟨signature, declared, popped, taken, ended, called, final⟩
      exact ⟨signature, declared, popped, taken, ended, callWith_extends extends' called, final⟩
    | _ => exact run
  | _ => exact run

/-- More fuel does not change how a run ends. -/
theorem execute_succ (fuel : Nat) :
    Going.Extends (machine.execute fuel) (machine.execute (fuel + 1)) := by
  induction fuel with
  | zero => exact fun _ _ _ _ _ _ impossible => nomatch impossible
  | succ fuel ih =>
    intro instrs frame index stack state ended run
    rw [execute] at run ⊢
    split at run
    · cases run
    · exact run
    · rcases Option.bind_eq_some_iff.mp run with ⟨⟨taken, rest⟩, decided, run⟩
      exact Option.bind_eq_some_iff.mpr ⟨_, decided, ih _ _ _ _ _ _ run⟩
    · rcases Option.bind_eq_some_iff.mp run with ⟨⟨next, later⟩, performed, run⟩
      exact Option.bind_eq_some_iff.mpr ⟨_, perform_extends ih performed, ih _ _ _ _ _ _ run⟩

theorem execute_le {fuel more : Nat} (enough : fuel ≤ more) :
    Going.Extends (machine.execute fuel) (machine.execute more) := by
  induction enough with
  | refl => exact fun _ _ _ _ _ _ run => run
  | step _ ih => exact fun _ _ _ _ _ _ run => execute_succ _ _ _ _ _ _ _ (ih _ _ _ _ _ _ run)

/-- A run has one end. -/
theorem Runs.unique {body : Body} {passed : List Value} {state : MachineState}
    {result other : Option Value} {later further : MachineState}
    (first : machine.Runs body passed state result later)
    (second : machine.Runs body passed state other further) :
    result = other ∧ later = further := by
  rcases first with ⟨fuel, one⟩
  rcases second with ⟨more, two⟩
  have both := enter_extends (execute_le (Nat.le_max_left fuel more)) one
  cases both.symm.trans (enter_extends (execute_le (Nat.le_max_right fuel more)) two)
  exact ⟨rfl, rfl⟩

/-! ## Code without jumps -/

/-- The machine can perform the instruction, given enough fuel for what it calls. -/
def Performs (machine : Machine) (frame : Nat) (instr : Instr) (stack : List Value)
    (state : MachineState) (next : List Value) (later : MachineState) : Prop :=
  ∃ fuel, machine.perform (machine.callWith (machine.execute fuel)) frame instr stack state =
    some (next, later)

/-- The machine passes through the instructions of a fragment, one after the other. -/
inductive Passes (machine : Machine) (frame : Nat) : Fragment → List Value → MachineState →
    List Value → MachineState → Prop
  | nil {stack : List Value} {state : MachineState} : Passes machine frame [] stack state stack state
  | cons {instr : Instr} {fragment : Fragment} {stack next final : List Value}
    {state later ended : MachineState} (first : machine.Performs frame instr stack state next later)
    (rest : Passes machine frame fragment next later final ended) :
    Passes machine frame (instr :: fragment) stack state final ended

variable {frame : Nat} {instr : Instr} {fragment front back : Fragment}
  {stack next final : List Value} {state later ended : MachineState}

/-- An instruction that is performed neither jumps nor returns. -/
theorem Performs.straight (performs : machine.Performs frame instr stack state next later) :
    instr.Straight := by
  rcases performs with ⟨fuel, performed⟩
  cases instr with
  | jump op target => cases performed
  | plain op =>
    cases op with
    | ret | throw => cases stack <;> cases performed
    | _ => exact ⟨rfl, rfl⟩
  | _ => exact ⟨rfl, rfl⟩

theorem Passes.straight (passes : machine.Passes frame fragment stack state final ended) :
    ∀ instr ∈ fragment, instr.Straight := by
  induction passes with
  | nil => exact List.forall_mem_nil _
  | cons first _ ih => exact List.forall_mem_cons.mpr ⟨first.straight, ih⟩

/-- An instruction does one thing, whatever the fuel. -/
theorem Performs.unique {other : List Value} {further : MachineState}
    (first : machine.Performs frame instr stack state next later)
    (second : machine.Performs frame instr stack state other further) :
    next = other ∧ later = further := by
  rcases first with ⟨fuel, one⟩
  rcases second with ⟨more, two⟩
  have both := perform_extends (execute_le (Nat.le_max_left fuel more)) one
  cases both.symm.trans (perform_extends (execute_le (Nat.le_max_right fuel more)) two)
  exact ⟨rfl, rfl⟩

/-- There is one way through a fragment. -/
theorem Passes.unique {other : List Value} {further : MachineState}
    (first : machine.Passes frame fragment stack state final ended)
    (second : machine.Passes frame fragment stack state other further) :
    final = other ∧ ended = further := by
  induction first with
  | nil =>
    cases second
    exact ⟨rfl, rfl⟩
  | cons step _ ih =>
    cases second with
    | cons same rest =>
      rcases step.unique same with ⟨rfl, rfl⟩
      exact ih rest

theorem passes_of_perform
    (performed : ∀ call : Calling, machine.perform call frame instr stack state = some (next, later)) :
    machine.Passes frame [instr] stack state next later :=
  .cons ⟨0, performed _⟩ .nil

theorem Passes.append (first : machine.Passes frame front stack state next later)
    (second : machine.Passes frame back next later final ended) :
    machine.Passes frame (front ++ back) stack state final ended := by
  induction first with
  | nil => exact second
  | cons step _ ih => exact .cons step (ih second)

/-- Control comes from the start of a fragment to the return behind it. -/
theorem Passes.exists_execute (passes : machine.Passes frame fragment stack state final ended)
    (before : List Instr) :
    ∃ fuel, machine.execute fuel (before ++ (fragment ++ [.ret])) frame before.length stack state =
      some (final.head?, ended) := by
  induction passes generalizing before with
  | nil =>
    refine ⟨1, ?_⟩
    rw [execute, List.nil_append, List.getElem?_concat_length]
    rfl
  | @cons instr fragment stack next final state later ended first rest ih =>
    rcases first with ⟨enough, performed⟩
    have straight := Performs.straight ⟨enough, performed⟩
    rcases ih (before ++ [instr]) with ⟨fuel, run⟩
    rw [List.append_assoc, List.length_append] at run
    refine ⟨max enough fuel + 1, ?_⟩
    have here : (before ++ (instr :: fragment ++ [.ret]))[before.length]? = some instr := by
      rw [List.getElem?_append_right (Nat.le_refl _), Nat.sub_self]
      rfl
    have goesOn : machine.perform (machine.callWith (machine.execute (max enough fuel))) frame
        instr stack state = some (next, later) :=
      perform_extends (execute_le (Nat.le_max_left _ _)) performed
    have rest := execute_le (Nat.le_max_right enough fuel) _ _ _ _ _ _ run
    rw [execute, here]
    split
    · next missing => cases missing
    · next ret =>
      cases ret
      cases straight.goesOn
    · next jump =>
      cases jump
      cases straight.leadsNowhere
    · next other _ _ same =>
      cases same
      rw [goesOn]
      exact rest

/-- A body of code without jumps is run by passing through it. -/
theorem runs_of_passes {locals : List Signature} {passed : List Value}
    (passes : machine.Passes state.frames fragment []
      (state.enter passed (locals.map machine.initial)) final ended) :
    machine.Runs (({ instrs := fragment ++ [.ret] } : Code).toBody locals) passed state final.head?
      ended := by
  have storable : ({ instrs := fragment ++ [.ret] } : Code).Storable := by
    intro index instr here target leads
    have nowhere : instr.target? = none := by
      rcases List.mem_append.mp (List.mem_of_getElem? here) with inside | last
      · exact (passes.straight instr inside).leadsNowhere
      · cases List.mem_singleton.mp last
        rfl
    cases nowhere.symm.trans leads
  rcases Code.exists_toCode_toBody storable locals with ⟨code, read, same⟩
  rcases passes.exists_execute [] with ⟨fuel, run⟩
  refine ⟨fuel, ?_⟩
  rw [enter, read]
  change machine.execute fuel code.instrs _ _ _ _ = _
  rw [same]
  exact run

end Machine

end NativeWeave
