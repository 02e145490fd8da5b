/-!
# Compressed bytes

A compressed stretch of bytes is a sequence of blocks.  A block is stored as it is, or is written
with two prefix codes: one for bytes and the lengths of repetitions, one for the distances of
repetitions.  The codes are fixed or come with the block.  Bits are taken from the low end of each
byte first.
-/

namespace ClassUniverse.Deflate

/-- Why expanding stops before the last block has ended: the bytes end, or they are none that a
compressor writes. -/
inductive Stop
  | ended
  | broken
  deriving DecidableEq, Repr

/-- The bytes that are left, how many bits of the first one have been taken, and the bytes that have
been found. -/
structure Expansion where
  bytes : List UInt8
  taken : Nat
  found : Array UInt8

abbrev BitReader (α : Type) := EStateM Stop Expansion α

def Expansion.size (s : Expansion) : Nat := 8 * s.bytes.length

def bit : BitReader Nat := fun s =>
  match s with
  | ⟨[], _, _⟩ => .error .ended s
  | ⟨b :: rest, taken, found⟩ =>
      let value := (b.toNat.testBit taken).toNat
      .ok value (if taken = 7 then ⟨rest, 0, found⟩ else ⟨b :: rest, taken + 1, found⟩)

def emit (b : UInt8) : BitReader Unit := modify fun s => { s with found := s.found.push b }

def number : Nat → BitReader Nat
  | 0 => pure 0
  | n + 1 => do
      let low ← bit
      let high ← number n
      return low + 2 * high

/-- Skips the bits that are left of a byte of which some have been taken. -/
def align : BitReader Unit :=
  modify fun s => if s.taken = 0 then s else { s with bytes := s.bytes.drop 1, taken := 0 }

/-- A prefix code: how many symbols there are of each length from one on, and the symbols in the
order of their codes. -/
structure Code where
  counts : List Nat
  symbols : Array Nat

def longest : Nat := 15

/-- The code in which each symbol has a given length, zero for a symbol that does not occur.
Shorter codes come first, and codes of one length follow the symbols. -/
def Code.ofLengths (lengths : List Nat) : Code :=
  let ofLength (n : Nat) := lengths.zipIdx.filterMap fun (l, symbol) =>
    if l = n + 1 then some symbol else none
  let groups := (List.range longest).map ofLength
  ⟨groups.map List.length, groups.flatten.toArray⟩

def room : Nat := 0x8000

/-- How many codes of the longest length the codes take up, each longer code being half as large. -/
def Code.extent (c : Code) : Nat := c.counts.foldl (fun extent count => 2 * extent + count) 0

/-- Whether every sequence of bits begins with exactly one code. -/
def Code.isWhole (c : Code) : Bool := c.extent == room

/-- Whether a code can be used: it is whole, or it has one symbol at most. -/
def Code.isUsable (c : Code) : Bool := c.isWhole || c.symbols.size ≤ 1

/-- Reads the rest of a symbol: its bits so far, the first code of this length, and the number of
shorter codes. -/
def Code.readFrom (symbols : Array Nat) : List Nat → (value first shorter : Nat) → BitReader Nat
  | [], _, _, _ => throw .broken
  | count :: counts, value, first, shorter => do
      let value := 2 * value + (← bit)
      let first := 2 * first
      if first ≤ value ∧ value < first + count then
        match symbols[shorter + (value - first)]? with
        | some symbol => return symbol
        | none => throw .broken
      else readFrom symbols counts value (first + count) (shorter + count)

def Code.read (c : Code) : BitReader Nat := Code.readFrom c.symbols c.counts 0 0 0

abbrev Range := Nat × Nat

/-- The lengths of repetitions by symbol, from symbol 257 on. -/
def lengthRanges : Array Range :=
  #[(3, 0), (4, 0), (5, 0), (6, 0), (7, 0), (8, 0), (9, 0), (10, 0), (11, 1), (13, 1), (15, 1),
    (17, 1), (19, 2), (23, 2), (27, 2), (31, 2), (35, 3), (43, 3), (51, 3), (59, 3), (67, 4),
    (83, 4), (99, 4), (115, 4), (131, 5), (163, 5), (195, 5), (227, 5), (258, 0)]

def distanceRanges : Array Range :=
  #[(1, 0), (2, 0), (3, 0), (4, 0), (5, 1), (7, 1), (9, 2), (13, 2), (17, 3), (25, 3), (33, 4),
    (49, 4), (65, 5), (97, 5), (129, 6), (193, 6), (257, 7), (385, 7), (513, 8), (769, 8),
    (1025, 9), (1537, 9), (2049, 10), (3073, 10), (4097, 11), (6145, 11), (8193, 12), (12289, 12),
    (16385, 13), (24577, 13)]

def readRange (ranges : Array Range) (symbol : Nat) : BitReader Nat :=
  match ranges[symbol]? with
  | some (base, bits) => return base + (← number bits)
  | none => throw .broken

/-- Repeats bytes that begin at a distance from the end.  In front of all bytes there are zeros. -/
def copyBack (distance : Nat) : (length : Nat) → Array UInt8 → Array UInt8
  | 0, found => found
  | length + 1, found =>
      let b := if distance ≤ found.size then (found[found.size - distance]?).getD 0 else 0
      copyBack distance length (found.push b)

/-- Reads the symbols of a block up to the one that ends it, of which there are at most so many as
there are bits. -/
def readSymbols (bytes distances : Code) : (steps : Nat) → BitReader Unit
  | 0 => throw .ended
  | steps + 1 => do
      let symbol ← bytes.read
      if symbol < 256 then
        emit (UInt8.ofNat symbol)
        readSymbols bytes distances steps
      else if symbol = 256 then return ()
      else
        let length ← readRange lengthRanges (symbol - 257)
        let distance ← readRange distanceRanges (← distances.read)
        modify fun s => { s with found := copyBack distance length s.found }
        readSymbols bytes distances steps

def fixedBytes : Code :=
  .ofLengths (List.replicate 144 8 ++ List.replicate 112 9 ++ List.replicate 24 7 ++
    List.replicate 8 8)

def fixedDistances : Code := .ofLengths (List.replicate 30 5)

/-- The order in which the lengths of the code for lengths are written. -/
def lengthOrder : List Nat := [16, 17, 18, 0, 8, 7, 9, 6, 10, 5, 11, 4, 12, 3, 13, 2, 14, 1, 15]

/-- Reads the lengths of two codes, runs of one length being written as one symbol. -/
def readLengths (code : Code) (wanted : Nat) : (steps : Nat) → List Nat → BitReader (List Nat)
  | 0, found => if found.length = wanted then pure found else throw .broken
  | steps + 1, found => do
      if wanted ≤ found.length then
        if found.length = wanted then return found else throw .broken
      match ← code.read with
      | 16 =>
          match found.getLast? with
          | some last =>
              let count := 3 + (← number 2)
              readLengths code wanted steps (found ++ List.replicate count last)
          | none => throw .broken
      | 17 =>
          let count := 3 + (← number 3)
          readLengths code wanted steps (found ++ List.replicate count 0)
      | 18 =>
          let count := 11 + (← number 7)
          readLengths code wanted steps (found ++ List.replicate count 0)
      | length => readLengths code wanted steps (found ++ [length])

def times {α : Type} (item : BitReader α) : Nat → BitReader (List α)
  | 0 => pure []
  | n + 1 => do
      let first ← item
      let rest ← times item n
      return first :: rest

/-- The greatest number of symbols for bytes and lengths that a block may announce. -/
def mostBytes : Nat := 286

/-- The greatest number of symbols for distances that a block may announce. -/
def mostDistances : Nat := 30

def readCodes : BitReader (Code × Code) := do
  let byteCount := 257 + (← number 5)
  let distanceCount := 1 + (← number 5)
  let lengthCount := 4 + (← number 4)
  if mostBytes < byteCount ∨ mostDistances < distanceCount then throw .broken
  let written ← times (number 3) lengthCount
  let placed := lengthOrder.zip written
  let code := Code.ofLengths ((List.range 19).map fun symbol => (placed.lookup symbol).getD 0)
  if !code.isWhole then throw .broken
  let wanted := byteCount + distanceCount
  let lengths ← readLengths code wanted wanted []
  let bytes := Code.ofLengths (lengths.take byteCount)
  let distances := Code.ofLengths (lengths.drop byteCount)
  if !bytes.isUsable || !distances.isUsable then throw .broken
  return (bytes, distances)

def copyOver : (length : Nat) → BitReader Unit
  | 0 => return ()
  | length + 1 => do
      emit (UInt8.ofNat (← number 8))
      copyOver length

/-- Reads the bytes of a block that is stored as it is. -/
def readStored : BitReader Unit := do
  align
  let length ← number 16
  let complement ← number 16
  if length + complement ≠ 0xFFFF then throw .broken
  copyOver length

/-- Reads a block, and whether it is the last one. -/
def readBlock : BitReader Bool := do
  let last ← bit
  let kind ← number 2
  let steps := (← get).size
  match kind with
  | 0 => readStored
  | 1 => readSymbols fixedBytes fixedDistances steps
  | 2 => do
      let (bytes, distances) ← readCodes
      readSymbols bytes distances steps
  | _ => throw .broken
  return last = 1

/-- Reads blocks up to the last one, of which there are at most so many as there are bits. -/
def readBlocks : (steps : Nat) → BitReader Unit
  | 0 => throw .ended
  | steps + 1 => do
      if ← readBlock then return () else readBlocks steps

/-- The bytes that compressed bytes stand for; nothing when they are broken.  Bytes that end early
stand for what was found up to their end. -/
def expand? (bytes : List UInt8) : Option (List UInt8) :=
  let start : Expansion := ⟨bytes, 0, #[]⟩
  match readBlocks start.size start with
  | .ok _ s => some s.found.toList
  | .error .ended s => some s.found.toList
  | .error .broken _ => none

end ClassUniverse.Deflate
