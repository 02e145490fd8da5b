/-!
# Text in UTF-8 and UTF-16

Bytes are read one at a time by a machine that knows, between two bytes of a character, how many
are owed and in which range the next one has to lie.  A byte outside that range ends the broken
character, which is read as one replacement character, and is then read as a first byte itself.
-/

namespace ClassUniverse.Text

def replacement : Char := Char.ofNat 0xFFFD

/-- A character of which some bytes are still owed: how many, the bits read so far, and the range of
the next byte. -/
structure Pending where
  owed : Nat
  value : Nat
  low : UInt8
  high : UInt8
  deriving DecidableEq, Repr

/-- What a first byte says. -/
inductive FirstByte
  | character (c : Char)
  | pending (p : Pending)
  | invalid
  deriving DecidableEq, Repr

def firstByte (b : UInt8) : FirstByte :=
  let n := b.toNat
  if n ≤ 0x7F then .character (Char.ofNat n)
  else if n < 0xC2 then .invalid
  else if n ≤ 0xDF then .pending ⟨1, n - 0xC0, 0x80, 0xBF⟩
  else if n = 0xE0 then .pending ⟨2, 0, 0xA0, 0xBF⟩
  else if n = 0xED then .pending ⟨2, n - 0xE0, 0x80, 0x9F⟩
  else if n ≤ 0xEF then .pending ⟨2, n - 0xE0, 0x80, 0xBF⟩
  else if n = 0xF0 then .pending ⟨3, 0, 0x90, 0xBF⟩
  else if n ≤ 0xF3 then .pending ⟨3, n - 0xF0, 0x80, 0xBF⟩
  else if n = 0xF4 then .pending ⟨3, n - 0xF0, 0x80, 0x8F⟩
  else .invalid

/-- Reads a further byte: the whole character, or what is owed after it; nothing when the byte lies
outside the range. -/
def Pending.next (p : Pending) (b : UInt8) : Option (Char ⊕ Pending) :=
  if p.low ≤ b ∧ b ≤ p.high then
    let value := p.value * 64 + (b.toNat - 0x80)
    if p.owed ≤ 1 then some (.inl (Char.ofNat value))
    else some (.inr ⟨p.owed - 1, value, 0x80, 0xBF⟩)
  else none

def decodeFrom : Option Pending → List UInt8 → List Char
  | none, [] => []
  | some _, [] => [replacement]
  | none, b :: rest =>
      match firstByte b with
      | .character c => c :: decodeFrom none rest
      | .pending p => decodeFrom (some p) rest
      | .invalid => replacement :: decodeFrom none rest
  | some p, b :: rest =>
      match p.next b with
      | some (.inl c) => c :: decodeFrom none rest
      | some (.inr p) => decodeFrom (some p) rest
      | none =>
          replacement ::
            match firstByte b with
            | .character c => c :: decodeFrom none rest
            | .pending p => decodeFrom (some p) rest
            | .invalid => replacement :: decodeFrom none rest

/-- The text of any bytes; each unreadable stretch becomes a replacement character. -/
def decodeLossy (bytes : List UInt8) : List Char := decodeFrom none bytes

/-- Reads bytes that have to be well formed to the end. -/
def decodeStrictFrom : Option Pending → List UInt8 → Option (List Char)
  | none, [] => some []
  | some _, [] => none
  | none, b :: rest =>
      match firstByte b with
      | .character c => (decodeStrictFrom none rest).map (c :: ·)
      | .pending p => decodeStrictFrom (some p) rest
      | .invalid => none
  | some p, b :: rest =>
      match p.next b with
      | some (.inl c) => (decodeStrictFrom none rest).map (c :: ·)
      | some (.inr p) => decodeStrictFrom (some p) rest
      | none => none

def decode? (bytes : List UInt8) : Option (List Char) := decodeStrictFrom none bytes

def encode (s : String) : List UInt8 := s.toUTF8.toList

/-- Whether a 16-bit unit is the first half of a pair. -/
def isHighHalf (unit : Nat) : Bool := 0xD800 ≤ unit && unit < 0xDC00

/-- Whether a 16-bit unit is the second half of a pair. -/
def isLowHalf (unit : Nat) : Bool := 0xDC00 ≤ unit && unit < 0xE000

/-- The text of 16-bit units; a half without its partner becomes a replacement character. -/
def decodeUnits : List Nat → List Char
  | [] => []
  | [unit] => if isHighHalf unit || isLowHalf unit then [replacement] else [Char.ofNat unit]
  | unit :: next :: rest =>
      if isHighHalf unit then
        if isLowHalf next then
          Char.ofNat (0x10000 + (unit - 0xD800) * 0x400 + (next - 0xDC00)) :: decodeUnits rest
        else replacement :: decodeUnits (next :: rest)
      else if isLowHalf unit then replacement :: decodeUnits (next :: rest)
      else Char.ofNat unit :: decodeUnits (next :: rest)

end ClassUniverse.Text
