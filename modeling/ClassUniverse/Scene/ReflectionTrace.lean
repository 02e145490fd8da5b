import ClassUniverse.OrderedMap
import ClassUniverse.Signature
import ClassUniverse.Text.Blank

/-!
# Reflection traces

A recorded use of reflection is a line `kind;target;source` with more fields behind it.  It names
the class that reflection was used on and the class that used it.
-/

namespace ClassUniverse.ReflectionTrace

open Text

/-- What the target field of a line names: a class by itself, or a member with its class. -/
inductive Target
  | className
  | member
  deriving DecidableEq, Repr

/-- What the target field names for a kind of use. -/
def target? (kind : String) : Option Target :=
  if kind = "Class.forName" ∨ kind = "Class.newInstance" then some .className
  else if kind = "Method.invoke" ∨ kind = "Constructor.newInstance" then some .member
  else if "Field.set".toList.isPrefixOf kind.toList ∨ "Field.get".toList.isPrefixOf kind.toList then
    some .member
  else none

/-- The classes that a line names, the using one first. -/
def classesOfLine (line : String) : Except Error (List String) :=
  match pieces ';' line with
  | kind :: target :: source :: _ => do
      let user := (beforeLastDot? source).getD source
      match target? kind with
      | some .className => return [user, target]
      | some .member => return [user, (← Signature.parse target).className]
      | none => throw (.configuration (.unknownTraceKind kind))
  | _ => .error (.configuration (.malformedTraceLine line))

/-- The classes that a trace names, in order of first mention; blank lines are left out. -/
def classes (text : List Char) : Except Error (List String) := do
  let lines := (splitOn '\n' text).map fun line => String.ofList (trim line)
  let named ← (lines.filter fun line => !line.isEmpty).mapM classesOfLine
  return firstOccurrences named.flatten

end ClassUniverse.ReflectionTrace
