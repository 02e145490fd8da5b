import ClassUniverse.Archive.Zip
import ClassUniverse.Text.Utf8

/-!
# Writing archives

The bytes of an archive with given entries: each entry behind a record of its own, then the
directory, then the end record.  The times of the entries are the earliest that a record can tell,
and the entries are plain files that all may read.  Compressed entries use the fixed code and repeat
nothing.
-/

namespace ClassUniverse

namespace Deflate

/-- The bits of a number, so many of them, the highest first. -/
def highFirst : (width : Nat) → Nat → List Bool
  | 0, _ => []
  | width + 1, value => value.testBit width :: highFirst width value

def fixedBits (b : UInt8) : List Bool :=
  if b < 144 then highFirst 8 (0x30 + b.toNat) else highFirst 9 (0x190 + (b.toNat - 144))

def endBits : List Bool := highFirst 7 0

def byteOfBits (bits : List Bool) : UInt8 :=
  UInt8.ofNat (bits.foldr (fun bit high => bit.toNat + 2 * high) 0)

/-- Bits in bytes.  The last byte is filled up with zeros. -/
def bytesOfBits : List Bool → List UInt8
  | [] => []
  | bit :: rest => byteOfBits (bit :: rest.take 7) :: bytesOfBits (rest.drop 7)
termination_by bits => bits.length
decreasing_by simp +arith

/-- Compressed bytes: one block, which is the last one, in the fixed codes. -/
def pack (bytes : List UInt8) : List UInt8 :=
  bytesOfBits ([true, true, false] ++ bytes.flatMap fixedBits ++ endBits)

end Deflate

namespace Zip

open Text

/-- The bytes of a number, so many of them, the lowest first. -/
def bytesOfNumber : (width : Nat) → Nat → List UInt8
  | 0, _ => []
  | width + 1, value => UInt8.ofNat value :: bytesOfNumber width (value / 256)

/-- The version of the format that a reader has to know. -/
def neededVersion : Nat := 20

/-- The version of the format that a writer knows, and its system. -/
def writerVersion : Nat := 0x032E

def firstDay : Nat := 0x0021

/-- The attributes of a plain file that its owner may change and all may read. -/
def plainFile : Nat := 0o100644 * 0x10000

/-- An entry to be written: its name, its bytes, and whether they are compressed. -/
structure Packed where
  name : String
  bytes : List UInt8
  isCompressed : Bool

namespace Packed

/-- The bytes of the entry as they stand in the archive. -/
def raw (p : Packed) : List UInt8 := if p.isCompressed then Deflate.pack p.bytes else p.bytes

/-- The fields that the directory and the entry's own record share. -/
def fields (p : Packed) : List UInt8 :=
  let isPlain := p.name.toList.all fun c => c.toNat < 128
  bytesOfNumber 2 neededVersion ++
    bytesOfNumber 2 (if isPlain then 0 else 0x0800) ++
    bytesOfNumber 2 (if p.isCompressed then 8 else 0) ++
    bytesOfNumber 2 0 ++
    bytesOfNumber 2 firstDay ++
    bytesOfNumber 4 (Checksum.ofBytes p.bytes).toNat ++
    bytesOfNumber 4 p.raw.length ++
    bytesOfNumber 4 p.bytes.length ++
    bytesOfNumber 2 (encode p.name).length ++
    bytesOfNumber 2 0

def body (p : Packed) : List UInt8 :=
  bytesOfNumber 4 entryMark ++ p.fields ++ encode p.name ++ p.raw

/-- The record of the directory for the entry at a place.  It has no remark. -/
def record (p : Packed) (place : Nat) : List UInt8 :=
  bytesOfNumber 4 directoryMark ++ bytesOfNumber 2 writerVersion ++ p.fields ++
    bytesOfNumber 6 0 ++ bytesOfNumber 4 plainFile ++ bytesOfNumber 4 place ++ encode p.name

end Packed

/-- The directory of entries that stand one after the other from a place on. -/
def directory : (place : Nat) → List Packed → List UInt8
  | _, [] => []
  | place, p :: rest => p.record place ++ directory (place + p.body.length) rest

/-- The end record for a number of entries and the length and place of the directory.  It has no
remark. -/
def endRecord (count size place : Nat) : List UInt8 :=
  bytesOfNumber 4 endMark ++ bytesOfNumber 4 0 ++ bytesOfNumber 2 count ++ bytesOfNumber 2 count ++
    bytesOfNumber 4 size ++ bytesOfNumber 4 place ++ bytesOfNumber 2 0

def write (entries : List Packed) : List UInt8 :=
  let bodies := entries.flatMap Packed.body
  let directory := directory 0 entries
  bodies ++ directory ++ endRecord entries.length directory.length bodies.length

end Zip

end ClassUniverse
