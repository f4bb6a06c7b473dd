import NativeWeave.Diagnostic

namespace NativeWeave

/-!
# Colored output

Parts of the output stand out by color and weight where colors are wanted.  Without colors the same
text is written plainly.
-/

/-- What the environment says about the terminal. -/
structure Environment where
  /-- Colors are unwanted, whatever a call asks for. -/
  noColor : Bool := false
  /-- The kind of terminal, if one is set. -/
  terminal : Option String := none
deriving DecidableEq, Repr

/-- Output is colored.  A call can force or forbid it; otherwise any terminal that is not dumb will
do, and whether it is one that people look at makes no difference. -/
def Environment.isColored (environment : Environment) (wish : Option String) : Bool :=
  !environment.noColor && match wish, environment.terminal with
    | some "always", _ => true
    | some "never", _ => false
    | _, none => false
    | _, some kind => kind ≠ "dumb"

inductive Color
  | red
  | green
  | yellow
  | cyan
deriving DecidableEq, Repr

/-- The number of a color in control sequences. -/
def Color.number : Color → Nat
  | red => 1
  | green => 2
  | yellow => 3
  | cyan => 6

/-- How a part of the output stands out. -/
structure Style where
  color : Option Color := none
  bold : Bool := false
deriving DecidableEq, Repr

namespace Style

def success : Style := { color := some .green, bold := true }

def error : Style := { color := some .red, bold := true }

def warning : Style := { color := some .yellow, bold := true }

def info : Style := { color := some .cyan }

def strong : Style := { bold := true }

/-- The style of a severity. -/
def ofSeverity : Severity → Style
  | .error => error
  | .warning => warning

/-- A control sequence that sets a property of the text behind it. -/
def control (code : String) : String :=
  "\x1b[" ++ code ++ "m"

/-- A text in a style.  A reset stands in front of the properties and behind the text. -/
def paint (style : Style) (colored : Bool) (text : String) : String :=
  if colored then
    control "0" ++ (if style.bold then control "1" else "")
      ++ ((style.color.map fun color => control s!"3{color.number}").getD "")
      ++ text ++ control "0"
  else
    text

@[simp] theorem paint_false (style : Style) (text : String) : style.paint false text = text := rfl

end Style

end NativeWeave
