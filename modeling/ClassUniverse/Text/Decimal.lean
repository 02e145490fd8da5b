/-!
# Decimal numbers

A numeral is a non-empty run of the ten ASCII digits, with an optional plus sign in front where a
whole text is read.  Its value has to be below a bound, most often that of 32 bits.
-/

namespace ClassUniverse.Text

/-- Whether a character is one of the ten ASCII digits. -/
def isDigit (c : Char) : Bool := '0' ≤ c && c ≤ '9'

/-- The value of a run of digits, most significant digit first. -/
def digitsValue (digits : List Char) : Nat :=
  digits.foldl (fun value c => value * 10 + (c.toNat - '0'.toNat)) 0

/-- The value of a non-empty run of digits, when it is below a bound. -/
def naturalBelow? (bound : Nat) (digits : List Char) : Option Nat :=
  if digits.isEmpty || !digits.all isDigit then none
  else if digitsValue digits < bound then some (digitsValue digits)
  else none

/-- The value of a non-empty run of digits that fits 32 bits. -/
def ofDigits? (digits : List Char) : Option UInt32 :=
  (naturalBelow? UInt32.size digits).map UInt32.ofNat

def withoutPlus : List Char → List Char
  | '+' :: digits => digits
  | digits => digits

/-- Reads a whole text as a numeral, a leading plus sign being allowed. -/
def parseNumber? (s : List Char) : Option UInt32 := ofDigits? (withoutPlus s)

def decimal (n : UInt32) : String := toString n.toNat

end ClassUniverse.Text
