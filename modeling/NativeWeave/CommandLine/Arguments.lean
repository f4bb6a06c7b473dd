import NativeWeave.CommandLine.Path

namespace NativeWeave

/-!
# The arguments of a call

A call names a command and its files, with options between them in any order.  An option is a word
behind two dashes or a letter behind one; its value follows an equals sign, or stands as the next
argument, or directly behind the letter.  Behind two bare dashes everything is a file.

Arguments are read one by one, and the first mistake ends the reading.  A value that stands as an
argument of its own is looked at only when the next option or file comes, or at the end.
-/

/-- How results are shown. -/
inductive OutputFormat
  | pretty
  | json
deriving DecidableEq, Repr

/-- What to weave, with what, and where to put it. -/
structure WeaveRequest where
  modules : List Path
  /-- Where modules for reference are searched. -/
  searchPaths : List Path := []
  outDir : Path := ⟨"woven"⟩
  config : Option Path := none
  manifest : Option Path := none
  format : OutputFormat := .pretty
deriving DecidableEq, Repr

inductive Command
  | weave (request : WeaveRequest)
  | inspect (module : Path)
deriving DecidableEq, Repr

/-- A call of the program. -/
structure Invocation where
  command : Command
  /-- When output is colored, as far as the environment leaves it open. -/
  color : Option String := none
  verbose : Bool := false
deriving DecidableEq, Repr

/-- Why a call runs no command. -/
inductive Interruption
  | help
  | version
  | noCommand
  | misuse (message : String)
deriving DecidableEq, Repr

inductive CommandOption
  | verbose
  | color
  | help
  | version
  | searchPath
  | outDir
  | config
  | manifest
  | format
deriving DecidableEq, Repr

namespace CommandOption

/-- The word behind two dashes. -/
def word : CommandOption → String
  | verbose => "verbose"
  | color => "color"
  | help => "help"
  | version => "version"
  | searchPath => "search-path"
  | outDir => "out-dir"
  | config => "config"
  | manifest => "manifest"
  | format => "format"

/-- The letter behind one dash. -/
def letter? : CommandOption → Option Char
  | verbose => some 'v'
  | help => some 'h'
  | version => some 'V'
  | searchPath => some 's'
  | outDir => some 'o'
  | color | config | manifest | format => none

/-- What the value of the option is called. -/
def valueName? : CommandOption → Option String
  | color => some "COLOR"
  | searchPath => some "SEARCH_PATHS"
  | outDir => some "OUT_DIR"
  | config => some "CONFIG"
  | manifest => some "MANIFEST"
  | format => some "FORMAT"
  | verbose | help | version => none

/-- How messages call the option. -/
def shown (option : CommandOption) : String :=
  "--" ++ option.word ++ ((option.valueName?.map fun name => " <" ++ name ++ ">").getD "")

end CommandOption

/-- What an argument is given for. -/
inductive ArgumentSlot
  | option (option : CommandOption)
  /-- The only file of a command. -/
  | module
  /-- The files of a command. -/
  | modules
deriving DecidableEq, Repr

namespace ArgumentSlot

/-- How messages call it. -/
def shown : ArgumentSlot → String
  | .option chosen => chosen.shown
  | module => "<MODULE>"
  | modules => "<MODULES>..."

/-- It stands without a value. -/
def isFlag : ArgumentSlot → Bool
  | .option chosen => chosen.valueName?.isNone
  | module | modules => false

/-- It may be given several times. -/
def repeats : ArgumentSlot → Bool
  | .option .searchPath => true
  | modules => true
  | _ => false

end ArgumentSlot

/-- An argument with its meaning.  Flags have an empty value. -/
structure Argument where
  slot : ArgumentSlot
  value : String
deriving DecidableEq, Repr

/-- The arguments that may stand somewhere: in front of the command, or behind it. -/
structure CallPart where
  options : List CommandOption
  /-- What arguments are that are no options; none in front of the command. -/
  operands : Option ArgumentSlot
deriving DecidableEq, Repr

namespace CallPart

def front : CallPart :=
  ⟨[.verbose, .color, .help, .version], none⟩

def weave : CallPart :=
  ⟨[.verbose, .color, .help, .searchPath, .outDir, .config, .manifest, .format], some .modules⟩

def inspect : CallPart :=
  ⟨[.verbose, .color, .help], some .module⟩

end CallPart

/-- What can stand as a command. -/
def commandNames : List String :=
  ["weave", "inspect", "help"]

/-! ## Messages -/

namespace Interruption

def unexpected {α : Type} (argument : String) : Except Interruption α :=
  .error (.misuse s!"unexpected argument '{argument}' found")

def unexpectedValue {α : Type} (value shown : String) : Except Interruption α :=
  .error (.misuse s!"unexpected value '{value}' for '{shown}' found; no more were expected")

def missingValue {α : Type} (shown : String) : Except Interruption α :=
  .error (.misuse s!"a value is required for '{shown}' but none was supplied")

def invalidValue {α : Type} (value shown : String) : Except Interruption α :=
  .error (.misuse s!"invalid value '{value}' for '{shown}'")

def repeated {α : Type} (shown : String) : Except Interruption α :=
  .error (.misuse s!"the argument '{shown}' cannot be used multiple times")

def missingArguments {α : Type} : Except Interruption α :=
  .error (.misuse "the following required arguments were not provided:")

def unknownCommand {α : Type} (name : String) : Except Interruption α :=
  .error (.misuse s!"unrecognized subcommand '{name}'")

def missingCommand {α : Type} : Except Interruption α :=
  .error (.misuse "'tether' requires a subcommand but one was not provided")

end Interruption

namespace ArgumentSlot

/-- A value suits: paths must not be empty, and there are two formats. -/
def check (slot : ArgumentSlot) (value : String) : Except Interruption Unit :=
  match slot with
  | .option .verbose | .option .color | .option .help | .option .version => .ok ()
  | .option .format =>
    if value.isEmpty then Interruption.missingValue slot.shown
    else if value = "pretty" ∨ value = "json" then .ok ()
    else Interruption.invalidValue value slot.shown
  | _ => if value.isEmpty then Interruption.missingValue slot.shown else .ok ()

end ArgumentSlot

/-! ## Reading argument by argument -/

/-- A part of a call as far as it has been read. -/
structure CallReading where
  /-- The arguments that have been checked. -/
  settled : List Argument := []
  /-- What is being given now, with its values so far. -/
  waiting : Option (ArgumentSlot × List String) := none
deriving DecidableEq, Repr

namespace CallReading

/-- Settle an argument with its values.  Asking for help or for the version ends the reading. -/
def accept (reading : CallReading) (slot : ArgumentSlot) (values : List String) :
    Except Interruption CallReading :=
  if slot = .option .help then
    .error .help
  else if slot = .option .version then
    .error .version
  else if !slot.isFlag && values.isEmpty then
    Interruption.missingValue slot.shown
  else if !slot.repeats && reading.settled.any (·.slot = slot) then
    Interruption.repeated slot.shown
  else do
    values.forM slot.check
    let given := if slot.isFlag then [""] else values
    return { reading with settled := reading.settled ++ given.map (Argument.mk slot) }

/-- Settle what is being given. -/
def settle (reading : CallReading) : Except Interruption CallReading :=
  match reading.waiting with
  | none => .ok reading
  | some (slot, values) => { reading with waiting := none }.accept slot values

/-- Give an option that is complete. -/
def give (reading : CallReading) (option : CommandOption) (values : List String) :
    Except Interruption CallReading := do
  (← reading.settle).accept (.option option) values

/-- Begin with an option that has its value in the next argument. -/
def await (reading : CallReading) (option : CommandOption) : Except Interruption CallReading := do
  return { ← reading.settle with waiting := some (.option option, []) }

/-- The option that has its value in the next argument. -/
def awaited? (reading : CallReading) : Option ArgumentSlot :=
  match reading.waiting with
  | some (slot, []) => some slot
  | _ => none

/-- Something is given for a slot. -/
def has (reading : CallReading) (slot : ArgumentSlot) : Bool :=
  reading.settled.any (·.slot = slot) || reading.waiting.any (·.1 = slot)

/-- Take an argument that is no option.  There may be one file, or the files add up. -/
def addOperand (part : CallPart) (reading : CallReading) (text : String) :
    Except Interruption CallReading :=
  match part.operands with
  | none => Interruption.unknownCommand text
  | some slot =>
    if !slot.repeats && reading.has slot then
      Interruption.unexpected text
    else if reading.waiting.any (·.1 = slot) then
      let add := fun (given : ArgumentSlot × List String) => (given.1, given.2 ++ [text])
      .ok { reading with waiting := reading.waiting.map add }
    else do
      return { ← reading.settle with waiting := some (slot, [text]) }

/-- Read the letters behind one dash. -/
def readLetters (part : CallPart) (reading : CallReading) :
    List Char → Except Interruption CallReading
  | [] => .ok reading
  | letter :: rest =>
    match part.options.find? (·.letter? = some letter) with
    | none => Interruption.unexpected (String.ofList ['-', letter])
    | some option =>
      match option.valueName?, rest with
      | none, _ => do readLetters part (← reading.give option []) rest
      | some _, [] => reading.await option
      | some _, '=' :: value => reading.give option [String.ofList value]
      | some _, value => reading.give option [String.ofList value]

/-- Read the word behind two dashes, perhaps with a value. -/
def readWord (part : CallPart) (reading : CallReading) (text : List Char) :
    Except Interruption CallReading :=
  let word := String.ofList (text.takeWhile (· ≠ '='))
  let value := String.ofList ((text.dropWhile (· ≠ '=')).drop 1)
  match part.options.find? (·.word = word) with
  | none => Interruption.unexpected ("--" ++ word)
  | some option =>
    match option.valueName?, text.contains '=' with
    | some _, true => reading.give option [value]
    | some _, false => reading.await option
    | none, true => Interruption.unexpectedValue value option.shown
    | none, false => reading.give option []

/-- Read the arguments behind two bare dashes.  A command must not stand there. -/
def readOperands (part : CallPart) (reading : CallReading) (texts : List String) :
    Except Interruption CallReading :=
  texts.foldlM (fun reading text =>
    if part.operands.isNone ∧ text ∈ commandNames then Interruption.unexpected text
    else reading.addOperand part text) reading

/-- Read arguments up to a command, which is left over with what stands behind it. -/
def read (part : CallPart) (reading : CallReading) :
    List String → Except Interruption (CallReading × List String)
  | [] => .ok (reading, [])
  | argument :: more =>
    match argument.toList, reading.awaited? with
    | ['-', '-'], _ => do return (← reading.readOperands part more, [])
    | '-' :: '-' :: text, _ => do read part (← reading.readWord part text) more
    | '-' :: letter :: letters, _ => do
      read part (← reading.readLetters part (letter :: letters)) more
    | _, some slot => read part { reading with waiting := some (slot, [argument]) } more
    | _, none =>
      if part.operands.isNone ∧ argument ∈ commandNames then
        .ok (reading, argument :: more)
      else do
        read part (← reading.addOperand part argument) more

/-! ## What was given -/

/-- The values given for a slot, in order. -/
def valuesOf (reading : CallReading) (slot : ArgumentSlot) : List String :=
  (reading.settled.filter (·.slot = slot)).map (·.value)

/-- The value of an option that can be given once. -/
def value? (reading : CallReading) (option : CommandOption) : Option String :=
  (reading.valuesOf (.option option)).head?

def path? (reading : CallReading) (option : CommandOption) : Option Path :=
  (reading.value? option).map Path.mk

def weaveRequest (reading : CallReading) : Except Interruption WeaveRequest :=
  match reading.valuesOf .modules with
  | [] => Interruption.missingArguments
  | modules => .ok
    { modules := modules.map Path.mk
      searchPaths := (reading.valuesOf (.option .searchPath)).map Path.mk
      outDir := (reading.path? .outDir).getD ⟨"woven"⟩
      config := reading.path? .config
      manifest := reading.path? .manifest
      format := if reading.value? .format = some "json" then .json else .pretty }

def inspectedModule (reading : CallReading) : Except Interruption Path :=
  match reading.valuesOf .module with
  | [] => Interruption.missingArguments
  | text :: _ => .ok ⟨text⟩

end CallReading

namespace Invocation

/-- Read the arguments behind a command to the end. -/
def readAll (part : CallPart) (texts : List String) : Except Interruption CallReading := do
  let (reading, _) ← CallReading.read part {} texts
  reading.settle

/-- Help is asked for by name, if there is such a command. -/
def readHelp {α : Type} : (topics : List String) → Except Interruption α
  | [] => .error .help
  | topic :: more =>
    if topic ∈ commandNames then
      match more with
      | [] => .error .help
      | stray :: _ => Interruption.unknownCommand stray
    else
      Interruption.unknownCommand topic

/-- Read the arguments of a command and what it is to do with them. -/
def readCommand (name : String) (texts : List String) :
    Except Interruption (CallReading × Command) := do
  match name with
  | "weave" =>
    let reading ← readAll .weave texts
    return (reading, .weave (← reading.weaveRequest))
  | "inspect" =>
    let reading ← readAll .inspect texts
    return (reading, .inspect (← reading.inspectedModule))
  | "help" => readHelp texts
  | other => Interruption.unknownCommand other

/-- Read a call.  The options that stand with the command win over those in front of it. -/
def parse (texts : List String) : Except Interruption Invocation := do
  let (front, rest) ← CallReading.read .front {} texts
  match rest with
  | [] =>
    let front ← front.settle
    if front.settled.isEmpty then throw .noCommand else Interruption.missingCommand
  | name :: texts =>
    let (behind, command) ← readCommand name texts
    let front ← front.settle
    return {
      command
      color := (behind.value? .color).or (front.value? .color)
      verbose := ((behind.value? .verbose).or (front.value? .verbose)).isSome }

end Invocation

end NativeWeave
