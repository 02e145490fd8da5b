/-!
# Access flags

The sixteen access flags of a class, a field or a method of the Java virtual machine, kept as the
word that a class file holds.
-/

namespace ClassUniverse

/-- A set of access flags, one bit a flag. -/
structure Modifiers where
  bits : UInt16
  deriving DecidableEq, Repr, Inhabited

namespace Modifiers

def publicFlag : Modifiers := ⟨0x0001⟩

def privateFlag : Modifiers := ⟨0x0002⟩

def staticFlag : Modifiers := ⟨0x0008⟩

def finalFlag : Modifiers := ⟨0x0010⟩

def nativeFlag : Modifiers := ⟨0x0100⟩

def interfaceFlag : Modifiers := ⟨0x0200⟩

def abstractFlag : Modifiers := ⟨0x0400⟩

def union (a b : Modifiers) : Modifiers := ⟨a.bits ||| b.bits⟩

instance : OrOp Modifiers := ⟨union⟩

def contains (a b : Modifiers) : Bool := a.bits &&& b.bits == b.bits

def isInterface (m : Modifiers) : Bool := m.contains interfaceFlag

def isAbstract (m : Modifiers) : Bool := m.contains abstractFlag

def isStatic (m : Modifiers) : Bool := m.contains staticFlag

def isNative (m : Modifiers) : Bool := m.contains nativeFlag

/-- Whether instances can be made: neither an interface nor abstract. -/
def isConcrete (m : Modifiers) : Bool := !m.isInterface && !m.isAbstract

def render (m : Modifiers) : String :=
  let digits := Nat.toDigits 16 m.bits.toNat
  "Modifiers(0x" ++ String.ofList (List.replicate (4 - digits.length) '0' ++ digits) ++ ")"

end Modifiers

end ClassUniverse
