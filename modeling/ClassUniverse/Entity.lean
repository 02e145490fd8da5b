/-!
# Things with an identity

Two local variables with the same name and type are still two variables.  A serial number tells
things apart whose contents are equal.
-/

namespace ClassUniverse

/-- A value with an identity of its own. -/
structure Entity (α : Type) where
  serial : Nat
  value : α
  deriving DecidableEq, Repr

/-- A local variable of a method body. -/
structure LocalVariable where
  method : String
  name : String
  typeName : String
  deriving DecidableEq, Repr

/-- A place in a method body. -/
structure BodyPosition where
  method : String
  index : Nat
  deriving DecidableEq, Repr

end ClassUniverse
