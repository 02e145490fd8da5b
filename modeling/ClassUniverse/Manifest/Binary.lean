import ClassUniverse.Manifest.Levels
import ClassUniverse.Text.Blank
import ClassUniverse.Text.Decimal
import ClassUniverse.Text.Utf8

/-!
# Manifests in binary form

A binary manifest is a chain of chunks.  Each chunk begins with its kind, the length of its header
and its own length.  A table of strings and a table of resource numbers give meaning to the indices
in the chunks of elements.  The chain ends with the last chunk that is wholly there.
-/

namespace ClassUniverse.Manifest

open Text

/-- The number of two bytes at an offset, least significant byte first. -/
def u16At? (bytes : List UInt8) (offset : Nat) : Option Nat :=
  match bytes.drop offset with
  | a :: b :: _ => some (a.toNat + b.toNat * 256)
  | _ => none

/-- The number of four bytes at an offset, least significant byte first. -/
def u32At? (bytes : List UInt8) (offset : Nat) : Option Nat :=
  match bytes.drop offset with
  | a :: b :: c :: d :: _ =>
      some (a.toNat + b.toNat * 256 + c.toNat * 65536 + d.toNat * 16777216)
  | _ => none

def slice? (bytes : List UInt8) (start length : Nat) : Option (List UInt8) :=
  let found := (bytes.drop start).take length
  if start ≤ bytes.length ∧ found.length = length then some found else none

/-- A chunk: its kind, the length of its header, and its bytes from the kind on. -/
structure Chunk where
  kind : Nat
  header : Nat
  bytes : List UInt8
  deriving DecidableEq, Repr

/-- The first chunk of a list of bytes, when it is wholly there. -/
def Chunk.read? (bytes : List UInt8) : Option Chunk :=
  match u16At? bytes 0, u16At? bytes 2, u32At? bytes 4 with
  | some kind, some header, some size =>
      if 8 ≤ size ∧ size ≤ bytes.length then some ⟨kind, header, bytes.take size⟩ else none
  | _, _, _ => none

theorem Chunk.length_pos_of_read? {bytes : List UInt8} {chunk : Chunk}
    (h : Chunk.read? bytes = some chunk) :
    0 < chunk.bytes.length ∧ chunk.bytes.length ≤ bytes.length := by
  unfold Chunk.read? at h
  split at h
  · rename_i size _ _ _
    split at h
    · simp only [Option.some.injEq] at h
      subst h
      simp only [List.length_take]
      omega
    · simp at h
  · simp at h

/-- The chunks at the front of a list of bytes, up to the first that is not wholly there. -/
def chunks (bytes : List UInt8) : List Chunk :=
  match _h : Chunk.read? bytes with
  | none => []
  | some chunk => chunk :: chunks (bytes.drop chunk.bytes.length)
  termination_by bytes.length
  decreasing_by
    have := Chunk.length_pos_of_read? (by assumption)
    simp only [List.length_drop]
    omega

/-- What has been read of a manifest: its strings, its resource numbers, its levels. -/
structure Progress where
  strings : Array String := #[]
  resources : Array Nat := #[]
  levels : ManifestLevels := {}

/-- A length of one or two bytes, and the offset behind it. -/
def shortLength? (bytes : List UInt8) (offset : Nat) : Option (Nat × Nat) :=
  match bytes.drop offset with
  | [] => none
  | first :: rest =>
      if first.toNat < 0x80 then some (first.toNat, offset + 1)
      else
        match rest with
        | [] => none
        | second :: _ => some ((first.toNat - 0x80) * 256 + second.toNat, offset + 2)

/-- The string in bytes at an offset: its length in characters, its length in bytes, the bytes. -/
def byteString? (bytes : List UInt8) (offset : Nat) : Option String := do
  let (_, next) ← shortLength? bytes offset
  let (length, start) ← shortLength? bytes next
  return String.ofList (decodeLossy (← slice? bytes start length))

/-- The units of two bytes in a list of bytes. -/
def units : List UInt8 → List Nat
  | a :: b :: rest => (a.toNat + b.toNat * 256) :: units rest
  | _ => []

/-- The string in units of two bytes at an offset: its length, then the units. -/
def unitString? (bytes : List UInt8) (offset : Nat) : Option String := do
  let first ← u16At? bytes offset
  let (length, start) ←
    if first < 0x8000 then pure (first, offset + 2)
    else do
      let second ← u16At? bytes (offset + 2)
      pure ((first - 0x8000) * 65536 + second, offset + 4)
  return String.ofList (decodeUnits (units (← slice? bytes start (length * 2))))

/-- The strings of a table from an index on, so many as remain; fails at the first that is not
there. -/
def stringsFrom? (chunk : Chunk) (isBytes : Bool) (start : Nat) :
    (remaining index : Nat) → Option (List String)
  | 0, _ => some []
  | remaining + 1, index => do
      let place ← u32At? chunk.bytes (chunk.header + index * 4)
      let first ←
        if isBytes then byteString? chunk.bytes (start + place)
        else unitString? chunk.bytes (start + place)
      let rest ← stringsFrom? chunk isBytes start remaining (index + 1)
      return first :: rest

/-- The strings of a chunk that is a table of strings. -/
def Chunk.strings? (chunk : Chunk) : Option (List String) := do
  let count ← u32At? chunk.bytes 8
  let flags ← u32At? chunk.bytes 16
  let start ← u32At? chunk.bytes 20
  stringsFrom? chunk (flags / 256 % 2 == 1) start count 0

/-- The numbers of four bytes in a list of bytes. -/
def words : List UInt8 → List Nat
  | a :: b :: c :: d :: rest =>
      (a.toNat + b.toNat * 256 + c.toNat * 65536 + d.toNat * 16777216) :: words rest
  | _ => []

/-- The resource numbers of a chunk that is a table of them. -/
def Chunk.resources? (chunk : Chunk) : Option (List Nat) :=
  if chunk.header ≤ chunk.bytes.length then some (words (chunk.bytes.drop chunk.header)) else none

/-- The resource number of the attribute for the target level. -/
def targetResource : Nat := 0x01010270

/-- The resource number of the attribute for the minimum level. -/
def minimumResource : Nat := 0x0101020C

/-- An attribute of an element: its name, its resource number, its value as a level. -/
structure ElementAttribute where
  name : String
  resource : Option Nat
  value : Option UInt32

/-- The level in an attribute: a number as such or as text. -/
def levelValue? (strings : Array String) (type : UInt8) (raw data : Nat) : Option UInt32 :=
  if type = 0x10 ∨ type = 0x11 then some (UInt32.ofNat data)
  else if type = 0x03 then (strings[raw]?).bind fun s => parseNumber? (trim s.toList)
  else none

def elementAttribute? (p : Progress) (bytes : List UInt8) (offset : Nat) :
    Option ElementAttribute := do
  let name ← u32At? bytes (offset + 4)
  let raw ← u32At? bytes (offset + 8)
  let type ← (bytes.drop (offset + 15)).head?
  let data ← u32At? bytes (offset + 16)
  return ⟨(p.strings[name]?).getD "", p.resources[name]?, levelValue? p.strings type raw data⟩

def ElementAttribute.apply (a : ElementAttribute) (element : String) (l : ManifestLevels) :
    ManifestLevels :=
  if element = "manifest" then
    if a.name = "platformBuildVersionCode" then { l with build := a.value } else l
  else if element = "uses-sdk" then
    if a.name = "targetSdkVersion" ∨ a.resource = some targetResource then
      { l with target := a.value }
    else if a.name = "minSdkVersion" ∨ a.resource = some minimumResource then
      { l with minimum := a.value }
    else l
  else l

/-- The levels after the attributes at an offset and those behind it, up to the first that is not
wholly there. -/
def attributesFrom (p : Progress) (chunk : Chunk) (element : String) (stride : Nat) :
    (remaining offset : Nat) → ManifestLevels → ManifestLevels
  | 0, _, l => l
  | remaining + 1, offset, l =>
      match elementAttribute? p chunk.bytes offset with
      | none => l
      | some a =>
          attributesFrom p chunk element stride remaining (offset + stride) (a.apply element l)

def Chunk.elementLevels (chunk : Chunk) (p : Progress) : ManifestLevels :=
  let header := do
    let name ← u32At? chunk.bytes (chunk.header + 4)
    let element ← p.strings[name]?
    let start ← u16At? chunk.bytes (chunk.header + 8)
    let stride ← u16At? chunk.bytes (chunk.header + 10)
    let count ← u16At? chunk.bytes (chunk.header + 12)
    return (element, start, stride, count)
  match header with
  | none => p.levels
  | some (element, start, stride, count) =>
      attributesFrom p chunk element stride count (chunk.header + start) p.levels

/-- What has been read after one more chunk; a broken table leaves nothing. -/
def Progress.step? (p : Progress) (chunk : Chunk) : Option Progress :=
  if chunk.kind = 0x0001 then
    chunk.strings?.map fun strings => { p with strings := strings.toArray }
  else if chunk.kind = 0x0180 then
    chunk.resources?.map fun resources => { p with resources := resources.toArray }
  else if chunk.kind = 0x0102 then some { p with levels := chunk.elementLevels p }
  else some p

def isBinary (bytes : List UInt8) : Bool := u16At? bytes 0 == some 0x0003

def binaryLevels? (bytes : List UInt8) : Option ManifestLevels := do
  let start ← u16At? bytes 2
  let last ← (chunks (bytes.drop start)).foldlM Progress.step? {}
  return last.levels

end ClassUniverse.Manifest
