/-!
# Grammars of command lines

A grammar has options, operands and the names of commands.  An option has a long name and perhaps a
letter; it is a switch, or takes a value once or each time.  Options that take no value can be
written together behind one hyphen, and a value can follow its option in the same argument.
-/

namespace ClassUniverse.CommandLine

/-- Why a command line cannot be used.  Asking for help is one of the reasons. -/
inductive UsageProblem
  | unknownArgument
  | invalidValue
  | malformedNumber
  | unneededValue
  | repeated
  | unknownCommand
  | missingOperand
  | missingCommand
  | helpAsked
  | nothingGiven
  deriving DecidableEq, Repr

def UsageProblem.message : UsageProblem → String
  | unknownArgument => "an argument is not known"
  | invalidValue => "an option has no value or one that it does not know"
  | malformedNumber => "the value of an option is not a number in range"
  | unneededValue => "an option that takes no value has one"
  | repeated => "an option is given more than once"
  | unknownCommand => "a command is not known"
  | missingOperand => "a command lacks an argument"
  | missingCommand => "there is no command"
  | helpAsked => "help is asked for"
  | nothingGiven => "nothing is given"

/-- What an option does to the choices made so far: a switch is turned, one value is taken once, a
value is taken each time, or help is shown. -/
inductive Effect (σ : Type)
  | switch (turn : σ → σ)
  | once (take : String → σ → Except UsageProblem σ)
  | each (take : String → σ → Except UsageProblem σ)
  | help

def Effect.takesValue {σ : Type} : Effect σ → Bool
  | switch _ | help => false
  | once _ | each _ => true

/-- An option. -/
structure Setting (σ : Type) where
  name : String
  letter : Option Char := none
  effect : Effect σ

def Setting.help {σ : Type} : Setting σ := { name := "help", letter := some 'h', effect := .help }

/-- The options, the operands in their order, and the names of the commands of a command line. -/
structure Grammar (σ : Type) where
  settings : List (Setting σ)
  operands : List (String → σ → σ) := []
  commands : List String := []

namespace Grammar

variable {σ : Type} (g : Grammar σ)

def ofName? (name : String) : Option (Setting σ) := g.settings.find? fun s => s.name == name

def ofLetter? (letter : Char) : Option (Setting σ) :=
  g.settings.find? fun s => s.letter == some letter

end Grammar

end ClassUniverse.CommandLine
