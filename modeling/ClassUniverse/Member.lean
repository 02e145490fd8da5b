import ClassUniverse.Definition
import ClassUniverse.Signature

/-!
# Fields and methods of loaded classes

A member is made once from its definition and never changes.  Its serial number tells it from other
members with the same signature.
-/

namespace ClassUniverse

/-- A field of a class. -/
structure Field where
  serial : Nat
  declaringClass : String
  definition : FieldDefinition
  deriving DecidableEq, Repr

/-- A method of a class. -/
structure Method where
  serial : Nat
  declaringClass : String
  definition : MethodDefinition
  deriving DecidableEq, Repr

namespace Field

def subsignature (f : Field) : String := f.definition.subsignature

def signature (f : Field) : String := Signature.render f.declaringClass f.subsignature

end Field

namespace Method

def subsignature (m : Method) : String := m.definition.subsignature

def signature (m : Method) : String := Signature.render m.declaringClass m.subsignature

def isStatic (m : Method) : Bool := m.definition.modifiers.isStatic

end Method

end ClassUniverse
