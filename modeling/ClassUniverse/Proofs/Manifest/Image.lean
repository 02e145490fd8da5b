import ClassUniverse.Manifest.Binary
import ClassUniverse.Manifest.Levels
import Mathlib.Tactic.MkIffOfInductiveProp

/-!
# Binary manifests as they are laid out

An image is a binary manifest together with what its bytes hold: a table of strings, a table of
resource numbers, and elements with attributes.  An image is valid when the bytes hold at each place
what the format wants there; places that the format leaves open may hold anything.  An image carries
levels when they are the integer attributes of the elements that the format has for them.
-/

namespace ClassUniverse.Manifest

open Text

/-! ## Bytes -/

/-- The bytes of a number, least significant byte first. -/
def littleEndian : (width n : Nat) → List UInt8
  | 0, _ => []
  | width + 1, n => UInt8.ofNat n :: littleEndian width (n / 256)

/-- Two bytes of a number. -/
def half (n : UInt16) : List UInt8 := littleEndian 2 n.toNat

/-- Four bytes of a number. -/
def word (n : UInt32) : List UInt8 := littleEndian 4 n.toNat

/-- Whether bytes hold a part at an offset. -/
def Holds (bytes : List UInt8) (offset : Nat) (part : List UInt8) : Prop :=
  part <+: bytes.drop offset

instance (bytes : List UInt8) (offset : Nat) (part : List UInt8) :
    Decidable (Holds bytes offset part) :=
  inferInstanceAs (Decidable (_ <+: _))

namespace Image

/-! ## Stored strings -/

/-- A string in a table, in units of two bytes or in bytes, whole characters or not.  Its length in
units, or in characters and in bytes, stands before it, in the short or in the wide form. -/
inductive Stored
  | inUnits (units : List UInt16) (wide : Bool)
  | inBytes (characters : Nat) (charactersWide : Bool) (bytes : List UInt8) (wide : Bool)
  deriving DecidableEq

namespace Stored

/-- A length in two bytes, or in four with the first bit set. -/
def unitLength (wide : Bool) (n : Nat) : List UInt8 :=
  if wide then littleEndian 2 (0x8000 + n / 0x10000) ++ littleEndian 2 (n % 0x10000)
  else littleEndian 2 n

/-- A length in one byte, or in two with the first bit set. -/
def byteLength (wide : Bool) (n : Nat) : List UInt8 :=
  if wide then [UInt8.ofNat (0x80 + n / 0x100), UInt8.ofNat (n % 0x100)] else [UInt8.ofNat n]

def code : Stored → List UInt8
  | inUnits units wide => unitLength wide units.length ++ units.flatMap half
  | inBytes characters charactersWide bytes wide =>
      byteLength charactersWide characters ++ (byteLength wide bytes.length ++ bytes)

/-- Whether the lengths fit their forms. -/
def Fits : Stored → Prop
  | inUnits units wide => units.length < if wide then 0x80000000 else 0x8000
  | inBytes characters charactersWide bytes wide =>
      characters < (if charactersWide then 0x8000 else 0x80) ∧
        bytes.length < if wide then 0x8000 else 0x80

instance : (s : Stored) → Decidable s.Fits
  | inUnits _ _ => inferInstanceAs (Decidable (_ < _))
  | inBytes _ _ _ _ => inferInstanceAs (Decidable (_ ∧ _))

def isInBytes : Stored → Bool
  | inUnits _ _ => false
  | inBytes _ _ _ _ => true

/-- The numbers of the units or of the bytes. -/
def numbers : Stored → List Nat
  | inUnits units _ => units.map UInt16.toNat
  | inBytes _ _ bytes _ => bytes.map UInt8.toNat

/-- Whether a string is a text of ASCII characters. -/
def spells (s : Stored) (text : String) : Bool := s.numbers == text.toList.map Char.toNat

end Stored

/-! ## Chunks -/

/-- A chunk begins with its kind, the length of its header and its own length. -/
@[mk_iff]
structure IsFramed (c : Chunk) : Prop where
  front : Holds c.bytes 0 (littleEndian 2 c.kind ++ littleEndian 2 c.header ++
    littleEndian 4 c.bytes.length)
  kind_fits : c.kind < 0x10000
  header_fits : c.header < 0x10000
  length_fits : c.bytes.length < 0x100000000

instance (c : Chunk) : Decidable (IsFramed c) := decidable_of_iff' _ (isFramed_iff c)

/-- A chunk that is neither a table nor an element. -/
@[mk_iff]
structure IsOther (c : Chunk) : Prop where
  framed : IsFramed c
  kind : c.kind ≠ 0x0001 ∧ c.kind ≠ 0x0180 ∧ c.kind ≠ 0x0102

instance (c : Chunk) : Decidable (IsOther c) := decidable_of_iff' _ (isOther_iff c)

/-- A string and its place in its table, behind the start of the strings. -/
structure Placed where
  place : UInt32
  string : Stored
  deriving DecidableEq

/-- A table of strings. -/
structure Pool extends Chunk where
  flags : UInt32
  start : UInt32
  strings : List Placed
  deriving DecidableEq

/-- Whether the strings of a table are in bytes, which a flag says. -/
def Pool.isInBytes (p : Pool) : Bool := p.flags.toNat / 256 % 2 == 1

/-- A string of a table, at an index. -/
@[mk_iff]
structure Pool.HoldsString (p : Pool) (index : Nat) (s : Placed) : Prop where
  place : Holds p.bytes (p.header + index * 4) (word s.place)
  code : Holds p.bytes (p.start.toNat + s.place.toNat) s.string.code
  fits : s.string.Fits
  encoding : s.string.isInBytes = p.isInBytes

instance (p : Pool) (index : Nat) (s : Placed) : Decidable (p.HoldsString index s) :=
  decidable_of_iff' _ (Pool.holdsString_iff p index s)

@[mk_iff]
structure Pool.IsValid (p : Pool) : Prop where
  framed : IsFramed p.toChunk
  kind : p.kind = 0x0001
  count : Holds p.bytes 8 (littleEndian 4 p.strings.length)
  layout : Holds p.bytes 16 (word p.flags ++ word p.start)
  strings : ∀ entry ∈ p.strings.zipIdx, p.HoldsString entry.2 entry.1
  fits : p.strings.length < 0x100000000

instance (p : Pool) : Decidable p.IsValid := decidable_of_iff' _ (Pool.isValid_iff p)

/-- A table of the resource numbers of the first strings. -/
structure ResourceMap extends Chunk where
  numbers : List UInt32
  deriving DecidableEq

@[mk_iff]
structure ResourceMap.IsValid (r : ResourceMap) : Prop where
  framed : IsFramed r.toChunk
  kind : r.kind = 0x0180
  header_le : r.header ≤ r.bytes.length
  numbers : r.bytes.drop r.header = r.numbers.flatMap word

instance (r : ResourceMap) : Decidable r.IsValid := decidable_of_iff' _ (ResourceMap.isValid_iff r)

/-- An attribute of an element: the index of its name, the index of its text, the type of its value
and the value. -/
structure Attribute where
  name : UInt32
  raw : UInt32
  type : UInt8
  value : UInt32
  deriving DecidableEq

/-- The value of an attribute that is an integer, in decimal or in hexadecimal form. -/
def Attribute.integer? (a : Attribute) : Option UInt32 :=
  if a.type = 0x10 ∨ a.type = 0x11 then some a.value else none

/-- An element: the index of its name, and its attributes, at equal distances from a start behind
the header on. -/
structure Element extends Chunk where
  name : UInt32
  start : UInt16
  stride : UInt16
  attributes : List Attribute
  deriving DecidableEq

@[mk_iff]
structure Element.HoldsAttribute (e : Element) (offset : Nat) (a : Attribute) : Prop where
  names : Holds e.bytes (offset + 4) (word a.name ++ word a.raw)
  value : Holds e.bytes (offset + 15) (a.type :: word a.value)

instance (e : Element) (offset : Nat) (a : Attribute) : Decidable (e.HoldsAttribute offset a) :=
  decidable_of_iff' _ (Element.holdsAttribute_iff e offset a)

@[mk_iff]
structure Element.IsValid (e : Element) : Prop where
  framed : IsFramed e.toChunk
  kind : e.kind = 0x0102
  front : Holds e.bytes (e.header + 4) (word e.name ++ half e.start ++ half e.stride ++
    littleEndian 2 e.attributes.length)
  attributes : ∀ entry ∈ e.attributes.zipIdx,
    e.HoldsAttribute (e.header + e.start.toNat + entry.2 * e.stride.toNat) entry.1
  fits : e.attributes.length < 0x10000

instance (e : Element) : Decidable e.IsValid := decidable_of_iff' _ (Element.isValid_iff e)

/-- What may stand behind the tables. -/
inductive Node
  | element (e : Element)
  | other (c : Chunk)
  deriving DecidableEq

namespace Node

def chunk : Node → Chunk
  | element e => e.toChunk
  | other c => c

def element? : Node → Option Element
  | element e => some e
  | other _ => none

def IsValid : Node → Prop
  | element e => e.IsValid
  | other c => IsOther c

instance : (n : Node) → Decidable n.IsValid
  | element e => inferInstanceAs (Decidable e.IsValid)
  | other c => inferInstanceAs (Decidable (IsOther c))

end Node

end Image

/-- A binary manifest: its head, the table of strings, possibly that of resource numbers, the
elements, and other chunks before, between and behind them. -/
structure Image where
  head : List UInt8
  lead : List Chunk
  pool : Image.Pool
  gap : List Chunk
  resources : Option Image.ResourceMap
  body : List Image.Node
  tail : List UInt8
  deriving DecidableEq

namespace Image

def chunks (i : Image) : List Chunk :=
  i.lead ++ (i.pool.toChunk :: (i.gap ++ ((i.resources.map ResourceMap.toChunk).toList ++
    i.body.map Node.chunk)))

def bytes (i : Image) : List UInt8 := i.head ++ (i.chunks.flatMap Chunk.bytes ++ i.tail)

/-- The bytes hold what the format wants, with less than the front of a chunk left at the end. -/
@[mk_iff]
structure IsValid (i : Image) : Prop where
  head : Holds i.head 0 (half 0x0003 ++ littleEndian 2 i.head.length)
  head_fits : i.head.length < 0x10000
  lead : ∀ c ∈ i.lead, IsOther c
  pool : i.pool.IsValid
  gap : ∀ c ∈ i.gap, IsOther c
  resources : ∀ r ∈ i.resources, r.IsValid
  body : ∀ n ∈ i.body, n.IsValid
  tail : i.tail.length < 8

instance (i : Image) : Decidable i.IsValid := decidable_of_iff' _ (isValid_iff i)

/-! ## Levels -/

/-- The levels that a manifest can name. -/
inductive Role
  | target
  | minimum
  | build
  deriving DecidableEq

namespace Role

/-- The element that a level belongs to. -/
def element : Role → String
  | target | minimum => "uses-sdk"
  | build => "manifest"

/-- The name of the attribute for a level. -/
def key : Role → String
  | target => "targetSdkVersion"
  | minimum => "minSdkVersion"
  | build => "platformBuildVersionCode"

/-- The resource number of the attribute for a level, if it has one. -/
def resource? : Role → Option UInt32
  | target => some 0x01010270
  | minimum => some 0x0101020C
  | build => none

end Role

end Image

/-- The level for a role. -/
def level (l : ManifestLevels) : Image.Role → Option UInt32
  | .target => l.target
  | .minimum => l.minimum
  | .build => l.build

namespace Image

/-- Whether the string at an index is a text. -/
def spells (i : Image) (index : UInt32) (text : String) : Bool :=
  i.pool.strings[index.toNat]?.any fun s => s.string.spells text

/-- Whether the resource number at an index is the one for a role. -/
def marks (i : Image) (index : UInt32) (r : Role) : Bool :=
  i.resources.any fun map => map.numbers[index.toNat]?.any fun n => r.resource? == some n

/-- Whether an attribute is for a level, by its name or by its resource number. -/
def plays (i : Image) (a : Attribute) (r : Role) : Bool :=
  i.spells a.name r.key || i.marks a.name r

/-- The elements of a name. -/
def elements (i : Image) (name : String) : List Element :=
  (i.body.filterMap Node.element?).filter fun e => i.spells e.name name

/-- The attributes for a level in the elements that it belongs to. -/
def players (i : Image) (r : Role) : List Attribute :=
  (i.elements r.element).flatMap fun e => e.attributes.filter fun a => i.plays a r

/-- Whether no attribute is for the target and for the minimum at once. -/
def AreApart (i : Image) (attributes : List Attribute) : Prop :=
  ∀ a ∈ attributes, ¬ (i.plays a .target = true ∧ i.plays a .minimum = true)

instance (i : Image) (attributes : List Attribute) : Decidable (i.AreApart attributes) :=
  inferInstanceAs (Decidable (∀ a ∈ attributes, _))

/-- A manifest carries some levels: each that is there is the only attribute for it, an integer, and
there is no attribute for one that is not there; none is for the target and the minimum at once. -/
@[mk_iff]
structure Carries (i : Image) (l : ManifestLevels) : Prop where
  levels : ∀ r ∈ [Role.target, .minimum, .build],
    (i.players r).map Attribute.integer? = (level l r).toList.map some
  apart : ∀ e ∈ i.elements "uses-sdk", i.AreApart e.attributes

instance (i : Image) (l : ManifestLevels) : Decidable (i.Carries l) :=
  decidable_of_iff' _ (carries_iff i l)

end Image

end ClassUniverse.Manifest
