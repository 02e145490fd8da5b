/-!
# Byte patterns

A pattern describes sequences of bytes.  It is matched by following a set of positions through the
bytes: each part of the pattern turns the positions where it may begin into those where it may end.
The set never grows beyond the positions there are, so no pattern takes long.

The depth of a pattern tells how far its parts are nested.
-/

namespace ClassUniverse

/-- Which bytes may stand at a position: those in some ranges, or those in none of them. -/
structure ByteClass where
  negated : Bool
  ranges : List (UInt8 × UInt8)
  deriving DecidableEq, Repr

namespace ByteClass

def allBut (b : UInt8) : ByteClass := ⟨true, [(b, b)]⟩

def all : ByteClass := ⟨true, []⟩

/-- How deep a class nests: the class of all bytes is written without brackets, and several ranges
in brackets are a level of their own. -/
def depth (c : ByteClass) : Nat := min c.ranges.length 2

def contains (c : ByteClass) (b : UInt8) : Bool :=
  (c.ranges.any fun range => range.1 ≤ b && b ≤ range.2) != c.negated

end ByteClass

/-- A pattern over bytes: no bytes, a given byte, one byte or any number of bytes of a class, two
patterns one after the other, a choice of two patterns, or a pattern in parentheses. -/
inductive BytePattern
  | nothing
  | byte (b : UInt8)
  | one (c : ByteClass)
  | many (c : ByteClass)
  | both (first second : BytePattern)
  | either (first second : BytePattern)
  | enclosed (inner : BytePattern)
  deriving DecidableEq, Repr

namespace BytePattern

def sequence : List BytePattern → BytePattern
  | [] => nothing
  | [p] => p
  | p :: rest => both p (sequence rest)

def choice (first : BytePattern) (others : List BytePattern) : BytePattern :=
  others.foldl either first

/-- How deep a pattern nests.  Each row of parts, choice, repetition and pair of parentheses is a
level.  A row goes on in its second part and a choice in its first one, so that the parts of one row
or choice are all on the same level. -/
def depth : (inRow inChoice : Bool) → BytePattern → Nat
  | _, _, nothing => 0
  | _, _, byte _ => 0
  | _, _, one c => c.depth
  | _, _, many c => 1 + c.depth
  | inRow, _, both p q => (!inRow).toNat + max (depth false false p) (depth true false q)
  | _, inChoice, either p q => (!inChoice).toNat + max (depth false true p) (depth false false q)
  | _, _, enclosed p => 1 + depth false false p

/-- A set of positions in some bytes: for each position from the first on, whether it is in. -/
abbrev Positions := List Bool

def stepOne (test : UInt8 → Bool) (bytes : List UInt8) (starts : Positions) : Positions :=
  false :: List.zipWith (fun isIn b => isIn && test b) starts bytes

/-- The positions behind any number of bytes of a class; `carried` tells whether the position in
front of the first one can be passed. -/
def stepMany (c : ByteClass) (carried : Bool) : List UInt8 → Positions → Positions
  | _, [] => []
  | [], isIn :: _ => [isIn || carried]
  | b :: bytes, isIn :: rest =>
      (isIn || carried) :: stepMany c ((isIn || carried) && c.contains b) bytes rest

/-- The positions where a pattern may end that begins at some positions. -/
def advance (bytes : List UInt8) : BytePattern → Positions → Positions
  | nothing, starts => starts
  | byte b, starts => stepOne (· == b) bytes starts
  | one c, starts => stepOne c.contains bytes starts
  | many c, starts => stepMany c false bytes starts
  | both p q, starts => advance bytes q (advance bytes p starts)
  | either p q, starts => List.zipWith (· || ·) (advance bytes p starts) (advance bytes q starts)
  | enclosed p, starts => advance bytes p starts

/-- Whether a pattern describes some bytes from first to last. -/
def accepts (p : BytePattern) (bytes : List UInt8) : Bool :=
  (advance bytes p (true :: bytes.map fun _ => false)).getLast?.getD false

end BytePattern

end ClassUniverse
