import ClassUniverse.Archive.Checksum
import ClassUniverse.Archive.Deflate
import ClassUniverse.Error
import ClassUniverse.Text.CodePage
import ClassUniverse.Text.Utf8

/-!
# Archives as bytes

An archive ends with a record that tells where its directory is; the directory tells the names of
the entries and where their bytes are.  Bytes in front of the archive shift all places by their
number.  A large archive has a second, larger end record in front of the first one, and notes in the
directory for the numbers that do not fit there.
-/

namespace ClassUniverse

namespace Zip

open Text

/-- The bytes of a file, to be looked up by place. -/
abbrev Image := Array UInt8

def numberOf (bytes : List UInt8) : Nat := bytes.foldr (fun b high => b.toNat + 256 * high) 0

namespace Image

/-- A stretch of bytes, which has to be wholly there. -/
def slice (image : Image) (place length : Nat) : Except ArchiveProblem (List UInt8) :=
  if place + length ≤ image.size then .ok (image.extract place (place + length)).toList
  else .error .cutOff

def number (image : Image) (place length : Nat) : Except ArchiveProblem Nat :=
  (image.slice place length).map numberOf

end Image

/-! ## The end of an archive -/

/-- The length of the end record without the remark that follows it. -/
def endLength : Nat := 22

def longestRemark : Nat := 65535

def endMark : Nat := 0x06054B50

/-- The mark of the record that tells where the large end record is. -/
def locatorMark : Nat := 0x07064B50

def largeEndMark : Nat := 0x06064B50

def directoryMark : Nat := 0x02014B50

/-- The mark in front of the bytes of an entry. -/
def entryMark : Nat := 0x04034B50

/-- The length of the record that tells where the large end record is. -/
def locatorLength : Nat := 20

/-- The least distance from the large end record to the end record. -/
def largeEndDistance : Nat := 60

/-- The greatest number of two bytes, which says that the true number is in the large record. -/
def full2 : Nat := 0xFFFF

def full4 : Nat := 0xFFFFFFFF

def placeBound : Nat := 0x10000000000000000

/-- The place of the end record: the last place with its mark. -/
def endPlace? (image : Image) : Option Nat :=
  let start := image.size - endLength
  ((List.range (min start longestRemark + 1)).map fun back => start - back).find? fun place =>
    image.extract place (place + 4) == #[0x50, 0x4B, 0x05, 0x06]

/-- The end record: the disk it is on and that of the directory, the number of entries on this disk
and on all, the length and the place of the directory, and the length of the remark. -/
structure EndRecord where
  disk : Nat
  directoryDisk : Nat
  countHere : Nat
  count : Nat
  size : Nat
  start : Nat
  remarkLength : Nat

/-- Reads the end record, whose remark has to be wholly there. -/
def EndRecord.read (image : Image) (place : Nat) : Except ArchiveProblem EndRecord := do
  let r : EndRecord :=
    { disk := ← image.number (place + 4) 2
      directoryDisk := ← image.number (place + 6) 2
      countHere := ← image.number (place + 8) 2
      count := ← image.number (place + 10) 2
      size := ← image.number (place + 12) 4
      start := ← image.number (place + 16) 4
      remarkLength := ← image.number (place + 20) 2 }
  let _ ← image.slice (place + endLength) r.remarkLength
  return r

/-- Whether some number of the end record does not fit there. -/
def EndRecord.isFull (r : EndRecord) : Bool :=
  r.disk == full2 || r.directoryDisk == full2 || r.countHere == full2 || r.count == full2 ||
    r.size == full4 || r.start == full4

/-- Where the directory of an archive is: how many bytes stand in front of the archive, where the
directory begins, and how many records it has. -/
structure Layout where
  lead : Nat
  start : Nat
  count : Nat

/-- The layout that an end record tells.  The directory ends where the end record begins. -/
def Layout.ofEnd (r : EndRecord) (place : Nat) : Except ArchiveProblem Layout :=
  if place < r.size + r.start then .error .misplaced
  else .ok ⟨place - r.size - r.start, place - r.size, r.countHere⟩

/-- The record that tells where the large end record is: the disk of the directory and the place.
It stands in front of the end record, wherever a remark of the told length would have that. -/
def locator? (image : Image) (r : EndRecord) : Option (Nat × Nat) :=
  let back := locatorLength + endLength + r.remarkLength
  if image.size < back then none
  else
    let place := image.size - back
    let field (offset length : Nat) :=
      numberOf (image.extract (place + offset) (place + offset + length)).toList
    if field 0 4 = locatorMark then some (field 4 4, field 8 8) else none

/-- The first place with the mark of the large end record, from a place on. -/
def largeEndPlace? (image : Image) : (steps place : Nat) → Option Nat
  | 0, _ => none
  | steps + 1, place =>
      if image.extract place (place + 4) == #[0x50, 0x4B, 0x06, 0x06] then some place
      else largeEndPlace? image steps (place + 1)

/-- The layout that the large end record tells, which is looked for from its nominal place on. -/
def Layout.ofLargeEnd (image : Image) (nominal place : Nat) : Except ArchiveProblem Layout := do
  if place < largeEndDistance then throw .noRoomForLargeEnd
  match largeEndPlace? image (place - largeEndDistance + 1 - nominal) nominal with
  | none => throw .noLargeEnd
  | some found =>
      let disk ← image.number (found + 16) 4
      let directoryDisk ← image.number (found + 20) 4
      let count ← image.number (found + 32) 8
      let start ← image.number (found + 48) 8
      if disk ≠ directoryDisk then throw .severalDisks
      let lead := found - nominal
      if placeBound ≤ start + lead then throw .misplaced
      return ⟨lead, start + lead, count⟩

def Layout.read (image : Image) : Except ArchiveProblem Layout := do
  if image.size < endLength then throw .tooShort
  match endPlace? image with
  | none => throw .noEnd
  | some place =>
      let r ← EndRecord.read image place
      if !r.isFull && r.disk ≠ r.directoryDisk then throw .severalDisks
      match locator? image r with
      | none => Layout.ofEnd r place
      | some (disk, nominal) =>
          if !r.isFull && r.disk ≠ disk then throw .severalDisks
          Layout.ofLargeEnd image nominal place

/-! ## The directory -/

/-- An entry as the directory tells it. -/
structure DirectoryRecord where
  name : String
  encrypted : Bool
  method : Nat
  checksum : UInt32
  size : Nat
  fullSize : Nat
  place : Nat
  hasCipher : Bool := false
  deriving DecidableEq, Repr

def largeNote : Nat := 0x0001

def cipherNote : Nat := 0x9901

/-- The method that says that a note on a cipher tells the method. -/
def cipherMethod : Nat := 99

/-- Takes a number of eight bytes from a note when the number known so far is full. -/
def enlarge (known : Nat) (note : List UInt8) : Option (Nat × List UInt8) :=
  if known ≠ full4 then some (known, note)
  else if note.length < 8 then none
  else some (numberOf (note.take 8), note.drop 8)

/-- Puts the numbers of a note in the place of full ones, and what is left of the notes.  Nothing is
left when the notes end early. -/
def DirectoryRecord.takeLarge (r : DirectoryRecord) (notes : List UInt8) :
    DirectoryRecord × Option (List UInt8) :=
  match enlarge r.fullSize notes with
  | none => (r, none)
  | some (fullSize, notes) =>
      let r := { r with fullSize := fullSize }
      match enlarge r.size notes with
      | none => (r, none)
      | some (size, notes) =>
          let r := { r with size := size }
          match enlarge r.place notes with
          | none => (r, none)
          | some (place, notes) => ({ r with place := place }, some notes)

def DirectoryRecord.takeCipher (r : DirectoryRecord) (note : List UInt8) :
    Except ArchiveProblem DirectoryRecord :=
  if numberOf ((note.drop 2).take 2) ≠ 0x4541 then .error (.cipher .unknownVendor)
  else if numberOf (note.take 2) ∉ [1, 2] then .error (.cipher .unknownVersion)
  else if numberOf ((note.drop 4).take 1) ∉ [1, 2, 3] then .error (.cipher .unknownStrength)
  else .ok { r with method := numberOf ((note.drop 5).take 2), hasCipher := true }

/-- Takes in the notes of a record, each of which has a kind, a length and its bytes.  Notes that
end early are of no account from there on.  Each note takes bytes, so their number bounds that of
the notes. -/
def DirectoryRecord.takeNotes : (steps : Nat) → DirectoryRecord → List UInt8 →
    Except ArchiveProblem DirectoryRecord
  | 0, r, _ => .ok r
  | steps + 1, r, notes =>
      if notes.length < 4 then .ok r
      else
        let kind := numberOf (notes.take 2)
        let length := numberOf ((notes.drop 2).take 2)
        let rest := notes.drop 4
        if kind = largeNote then
          match r.takeLarge rest with
          | (r, none) => .ok r
          | (r, some left) =>
              takeNotes steps r (left.drop (length - (rest.length - left.length)))
        else if kind = cipherNote then
          if length ≠ 7 then .error (.cipher .wrongLength)
          else if rest.length < 7 then .ok r
          else
            match r.takeCipher rest with
            | .error problem => .error problem
            | .ok r => takeNotes steps r (rest.drop 14)
        else takeNotes steps r (rest.drop length)

/-- The name of an entry: in UTF-8 if the record says so, else in the old code page. -/
def nameOf (isUtf8 : Bool) (bytes : List UInt8) : String :=
  String.ofList (if isUtf8 then decodeLossy bytes else CodePage.decode bytes)

/-- Reads a record of the directory of an archive behind leading bytes, and the place behind the
record. -/
def DirectoryRecord.read (image : Image) (lead place : Nat) :
    Except ArchiveProblem (DirectoryRecord × Nat) := do
  if (← image.number place 4) ≠ directoryMark then throw .noDirectoryRecord
  let flags ← image.number (place + 8) 2
  let method ← image.number (place + 10) 2
  let checksum ← image.number (place + 16) 4
  let size ← image.number (place + 20) 4
  let fullSize ← image.number (place + 24) 4
  let nameLength ← image.number (place + 28) 2
  let notesLength ← image.number (place + 30) 2
  let remarkLength ← image.number (place + 32) 2
  let start ← image.number (place + 42) 4
  let name ← image.slice (place + 46) nameLength
  let notes ← image.slice (place + 46 + nameLength) notesLength
  let _ ← image.slice (place + 46 + nameLength + notesLength) remarkLength
  let bare : DirectoryRecord :=
    { name := nameOf (flags.testBit 11) name
      encrypted := flags.testBit 0
      method := method
      checksum := UInt32.ofNat checksum
      size := size
      fullSize := fullSize
      place := start }
  let r ← takeNotes notesLength bare notes
  if r.method = cipherMethod ∧ !r.hasCipher then throw (.cipher .noNote)
  if placeBound ≤ r.place + lead then throw .tooFar
  return ({ r with place := r.place + lead },
    place + 46 + nameLength + notesLength + remarkLength)

/-- Reads so many records of the directory behind those that have been read. -/
def readRecords (image : Image) (lead : Nat) : (count place : Nat) → Array DirectoryRecord →
    Except ArchiveProblem (Array DirectoryRecord)
  | 0, _, found => .ok found
  | count + 1, place, found =>
      match DirectoryRecord.read image lead place with
      | .error problem => .error problem
      | .ok (r, next) => readRecords image lead count next (found.push r)

/-! ## The entries -/

/-- The methods that are known: bytes as they are, and compressed ones. -/
def knownMethods : List Nat := [0, 8]

/-- The bytes of an entry as they stand in the archive.  They begin behind a record of their own,
and those that would lie behind the end of the archive are missing. -/
def DirectoryRecord.raw (r : DirectoryRecord) (image : Image) :
    Except ArchiveProblem (List UInt8) := do
  if r.encrypted then throw .encrypted
  if (← image.number r.place 4) ≠ entryMark then throw .noEntryRecord
  let nameLength ← image.number (r.place + 26) 2
  let notesLength ← image.number (r.place + 28) 2
  if !knownMethods.contains r.method then throw .unknownMethod
  if r.hasCipher then throw .encrypted
  let start := r.place + 30 + nameLength + notesLength
  return (image.extract start (start + r.size)).toList

/-- The bytes of an entry, given as they stand in the archive.  Their checksum has to be right. -/
def DirectoryRecord.content (r : DirectoryRecord) (raw : List UInt8) :
    Except FileProblem (List UInt8) :=
  match if r.method = 0 then some raw else Deflate.expand? raw with
  | none => .error .notExpandable
  | some bytes => if Checksum.ofBytes bytes = r.checksum then .ok bytes else .error .wrongChecksum

end Zip

/-- An archive as bytes, and the records of its directory. -/
structure Zip where
  image : Zip.Image
  records : Array Zip.DirectoryRecord

namespace Zip

def ofBytes (bytes : List UInt8) : Except ArchiveProblem Zip := do
  let image : Image := bytes.toArray
  let layout ← Layout.read image
  return ⟨image, ← readRecords image layout.lead layout.count layout.start #[]⟩

/-- The names of the entries in the order of the directory. -/
def names (z : Zip) : List String := z.records.toList.map (·.name)

/-- An entry, which can be missing or not be available, and its bytes, which can be broken.  Of
several entries of one name the last one counts. -/
def entry (z : Zip) (name : String) : Except ArchiveProblem (Except FileProblem (List UInt8)) :=
  match z.records.toList.reverse.find? fun r => r.name == name with
  | none => .error .noSuchEntry
  | some r => (r.raw z.image).map r.content

end Zip

end ClassUniverse
