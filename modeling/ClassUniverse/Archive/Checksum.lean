/-!
# Checksums

The cyclic redundancy check of 32 bits over a sequence of bytes: the remainder of its bits, lowest
bit of each byte first, by a fixed polynomial.  A table holds the remainder of each single byte.
-/

namespace ClassUniverse.Checksum

def polynomial : UInt32 := 0xEDB88320

def step (r : UInt32) : UInt32 :=
  if r &&& 1 = 1 then (r >>> 1) ^^^ polynomial else r >>> 1

def steps : Nat → UInt32 → UInt32
  | 0, r => r
  | n + 1, r => steps n (step r)

def table : Array UInt32 := (Array.range 256).map fun b => steps 8 (UInt32.ofNat b)

def update (r : UInt32) (b : UInt8) : UInt32 :=
  let index := ((r ^^^ b.toUInt32) &&& 0xFF).toNat
  (r >>> 8) ^^^ (table[index]?).getD 0

def ofBytes (bytes : List UInt8) : UInt32 := ~~~(bytes.foldl update 0xFFFFFFFF)

end ClassUniverse.Checksum
