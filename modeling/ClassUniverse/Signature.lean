import ClassUniverse.Error
import ClassUniverse.Name.Quoting

/-!
# Member signatures

A field or method of a class is named by the text `<C: S>`, where `C` is the written form of the
class name and `S` the subsignature of the member within its class.
-/

namespace ClassUniverse

open Text

/-- The class name and the subsignature that a signature names. -/
structure Signature where
  className : String
  member : String
  deriving DecidableEq, Repr

namespace Signature

def inner? : List Char → Option (List Char)
  | '<' :: rest => if rest.getLast? == some '>' then some rest.dropLast else none
  | _ => none

/-- The two parts of `<C: S>` as they are written. -/
def parts? (signature : List Char) : Option (List Char × List Char) :=
  match inner? signature with
  | none => none
  | some inner =>
      match splitFirst ':' inner with
      | some (cls, ' ' :: member) =>
          if cls.isEmpty || member.isEmpty then none else some (cls, member)
      | _ => none

def parse (signature : String) : Except Error Signature :=
  match parts? signature.toList with
  | some (cls, member) => .ok ⟨Name.unquote (String.ofList cls), String.ofList member⟩
  | none => .error (.malformedSignature signature)

def render (className member : String) : String := "<" ++ className ++ ": " ++ member ++ ">"

end Signature

end ClassUniverse
