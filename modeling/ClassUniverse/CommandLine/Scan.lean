import ClassUniverse.CommandLine.Grammar
import ClassUniverse.Text.Split

/-!
# Reading a command line

Arguments are read from left to right.  An option that takes a value waits for the argument that
follows, and its value is looked at only when the next thing is met, so an unknown argument is
reported before a bad value in front of it.  Two hyphens end the options; what comes behind them are
operands.
-/

namespace ClassUniverse.CommandLine

open Text

/-- How far a command line has been read: the choices made, the names of the options met, the option
that waits for its value or has got one that is still to be looked at, how many operands were read,
and whether only operands can follow. -/
structure Progress (σ : Type) where
  choices : σ
  met : List String := []
  waiting : Option (Setting σ × Option String) := none
  operandsRead : Nat := 0
  onlyOperands : Bool := false

namespace Progress

variable {σ : Type}

def awaitsValue (p : Progress σ) : Bool :=
  match p.waiting with
  | some (_, none) => true
  | _ => false

/-- Applies an option with the value that it was given. -/
def apply (p : Progress σ) (s : Setting σ) (value : Option String) :
    Except UsageProblem (Progress σ) := do
  match s.effect, value with
  | .help, _ => throw .helpAsked
  | .switch turn, _ =>
      if p.met.contains s.name then throw .repeated
      return { p with choices := turn p.choices, met := s.name :: p.met }
  | .once _, none | .each _, none => throw .invalidValue
  | .once take, some text =>
      if p.met.contains s.name then throw .repeated
      return { p with choices := ← take text p.choices, met := s.name :: p.met }
  | .each take, some text =>
      return { p with choices := ← take text p.choices, met := s.name :: p.met }

def settle (p : Progress σ) : Except UsageProblem (Progress σ) :=
  match p.waiting with
  | none => .ok p
  | some (s, value) => { p with waiting := none }.apply s value

/-- Meets an option without a value in the same argument. -/
def meet (p : Progress σ) (s : Setting σ) : Except UsageProblem (Progress σ) := do
  let p ← p.settle
  if s.effect.takesValue then return { p with waiting := some (s, none) }
  p.apply s none

/-- Meets an option with a value in the same argument. -/
def meetWith (p : Progress σ) (s : Setting σ) (value : String) :
    Except UsageProblem (Progress σ) := do
  (← p.settle).apply s (some value)

end Progress

namespace Grammar

variable {σ : Type} (g : Grammar σ)

/-- Reads the text behind two hyphens: a name, perhaps with a value behind an equals sign. -/
def readLong (p : Progress σ) (text : List Char) : Except UsageProblem (Progress σ) :=
  let (name, value) :=
    match splitFirst '=' text with
    | some (name, value) => (name, some (String.ofList value))
    | none => (text, none)
  match g.ofName? (String.ofList name), value with
  | none, _ => .error .unknownArgument
  | some s, none => p.meet s
  | some s, some value => if s.effect.takesValue then p.meetWith s value else .error .unneededValue

/-- Reads the letters behind one hyphen.  The first one that takes a value has the rest as its
value, without an equals sign in front, unless nothing is left. -/
def readLetters (p : Progress σ) : List Char → Except UsageProblem (Progress σ)
  | [] => .ok p
  | letter :: rest =>
      match g.ofLetter? letter with
      | none => .error .unknownArgument
      | some s =>
          if !s.effect.takesValue then do
            let p ← p.meet s
            readLetters p rest
          else
            match rest with
            | [] => p.meet s
            | '=' :: value => p.meetWith s (String.ofList value)
            | value => p.meetWith s (String.ofList value)

/-- Reads an argument that is neither an option nor the value of one. -/
def readOperand (p : Progress σ) (text : String) : Except UsageProblem (Progress σ) := do
  match g.operands[p.operandsRead]? with
  | some take =>
      let p ← p.settle
      return { p with choices := take text p.choices, operandsRead := p.operandsRead + 1 }
  | none =>
      if g.commands.isEmpty || (p.onlyOperands && g.commands.contains text) then
        throw .unknownArgument
      throw .unknownCommand

/-- Reads an argument that is not the name of a command. -/
def readArgument (p : Progress σ) (text : String) : Except UsageProblem (Progress σ) :=
  if p.onlyOperands then g.readOperand p text
  else
    match text.toList with
    | ['-', '-'] => .ok { p with onlyOperands := true }
    | '-' :: '-' :: name => g.readLong p name
    | '-' :: letter :: letters => g.readLetters p (letter :: letters)
    | _ =>
        match p.waiting with
        | some (s, none) => .ok { p with waiting := some (s, some text) }
        | _ => g.readOperand p text

/-- Reads arguments up to the name of a command, which is given with the arguments behind it. -/
def scan (p : Progress σ) :
    List String → Except UsageProblem (Progress σ × Option (String × List String))
  | [] => .ok (p, none)
  | text :: rest =>
      if !p.onlyOperands && !p.awaitsValue && g.commands.contains text then
        .ok (p, some (text, rest))
      else do
        let p ← g.readArgument p text
        scan p rest

/-- Reads a whole command line that has no commands; every operand has to be there. -/
def read (start : σ) (args : List String) : Except UsageProblem σ := do
  let (p, _) ← g.scan { choices := start } args
  let p ← p.settle
  if p.operandsRead < g.operands.length then throw .missingOperand
  return p.choices

end Grammar

end ClassUniverse.CommandLine
