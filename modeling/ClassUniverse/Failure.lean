import ClassUniverse.Error
import ClassUniverse.Text.Split

/-!
# Failures

A failure says what was being done and what went wrong.  Its text names the causes one below the
other, numbered when there are several.
-/

namespace ClassUniverse

open Text

/-- What was being done, and what went wrong. -/
structure Failure where
  activity : String
  error : Error
  deriving DecidableEq, Repr

namespace Failure

def causes (f : Failure) : List String := f.error.message :: f.error.causes

/-- A text with a mark in front of its first line and blanks of the same width in front of the
others. -/
def hang (mark s : String) : String :=
  let blanks := String.ofList (List.replicate mark.length ' ')
  mark ++ String.intercalate ("\n" ++ blanks) (pieces '\n' s)

/-- The mark of a cause that is one of several. -/
def numberMark (n : Nat) : String :=
  let digits := toString n
  String.ofList (List.replicate (5 - digits.length) ' ') ++ digits ++ ": "

/-- The causes as text: a single one stands behind four blanks, several are numbered from zero. -/
def renderCauses : List String → List String
  | [cause] => [hang "    " cause]
  | causes => causes.zipIdx.map fun (cause, n) => hang (numberMark n) cause

def render (f : Failure) : String :=
  "Error: " ++ f.activity ++ "\n\nCaused by:\n" ++ String.intercalate "\n" (renderCauses f.causes)

end Failure

end ClassUniverse
