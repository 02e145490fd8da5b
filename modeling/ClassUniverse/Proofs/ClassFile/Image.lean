import ClassUniverse.Proofs.ClassFile.Reads
import ClassUniverse.Proofs.ClassFile.Types
import ClassUniverse.Proofs.Text.Utf8
import Mathlib.Tactic.MkIffOfInductiveProp

/-!
# Class files before they are bytes

An image is a class file in the terms of its format: a pool of constants, and a class whose parts
say what they mean beside the index of the constant that means it.  It has bytes, in the order and
with the widths of the format, and it has a definition, which is said of the meanings alone.  An
image is valid when its indices lead to constants with these meanings and its numbers fit their
fields.
-/

namespace ClassUniverse.ClassFile

open Text

/-- Whether a character lies between U+0001 and U+FFFF. -/
def isPlainChar (c : Char) : Bool := 1 ≤ c.toNat && c.toNat ≤ 0xFFFF

/-- A text of the pool, short enough for a length of two bytes. -/
structure PlainText where
  chars : List Char
  isPlain : chars.all isPlainChar = true
  fits : (chars.flatMap charBytes).length < 2 ^ 16
  deriving DecidableEq

namespace PlainText

/-- The text as a string. -/
def text (t : PlainText) : String := String.ofList t.chars

/-- A text is read back from its bytes. -/
theorem decodeLossy_chars (t : PlainText) : decodeLossy (t.chars.flatMap charBytes) = t.chars := by
  apply decodeLossy_flatMap_charBytes
  intro c hc
  have hplain := List.all_eq_true.1 t.isPlain c hc
  simp only [isPlainChar, Bool.and_eq_true, decide_eq_true_iff] at hplain
  exact hplain.2

end PlainText

/-- An index of the pool, and what the constant there means. -/
structure Ref (α : Type) where
  index : UInt16
  value : α
  deriving DecidableEq

/-- The two bytes of a number. -/
def short (n : UInt16) : List UInt8 := bigEndian 2 n.toNat

/-- The parts of a list behind their count. -/
def counted {α : Type} (code : α → List UInt8) (parts : List α) : List UInt8 :=
  bigEndian 2 parts.length ++ parts.flatMap code

namespace Image

/-- A constant of the pool.  Only texts and classes mean something to a definition; the indices in
the others may be any. -/
inductive Entry
  | utf8 (text : PlainText)
  | integer (bits : UInt32)
  | float (bits : UInt32)
  | long (bits : UInt64)
  | double (bits : UInt64)
  | classRef (name : Ref Mention)
  | string (text : UInt16)
  | fieldRef (owner nameAndType : UInt16)
  | methodRef (owner nameAndType : UInt16)
  | interfaceMethodRef (owner nameAndType : UInt16)
  | nameAndType (name descriptor : UInt16)
  | methodHandle (kind : UInt8) (reference : UInt16)
  | methodType (descriptor : UInt16)
  | dynamic (bootstrap nameAndType : UInt16)
  | invokeDynamic (bootstrap nameAndType : UInt16)
  | moduleRef (name : UInt16)
  | packageRef (name : UInt16)
  deriving DecidableEq

namespace Entry

def tag : Entry → UInt8
  | utf8 _ => 1
  | integer _ => 3
  | float _ => 4
  | long _ => 5
  | double _ => 6
  | classRef _ => 7
  | string _ => 8
  | fieldRef _ _ => 9
  | methodRef _ _ => 10
  | interfaceMethodRef _ _ => 11
  | nameAndType _ _ => 12
  | methodHandle _ _ => 15
  | methodType _ => 16
  | dynamic _ _ => 17
  | invokeDynamic _ _ => 18
  | moduleRef _ => 19
  | packageRef _ => 20

def payload : Entry → List UInt8
  | utf8 text =>
      let bytes := text.chars.flatMap charBytes
      bigEndian 2 bytes.length ++ bytes
  | integer bits | float bits => bigEndian 4 bits.toNat
  | long bits | double bits => bigEndian 8 bits.toNat
  | classRef name => short name.index
  | string index | methodType index | moduleRef index | packageRef index => short index
  | fieldRef a b | methodRef a b | interfaceMethodRef a b | nameAndType a b | dynamic a b
  | invokeDynamic a b => short a ++ short b
  | methodHandle kind reference => kind :: short reference

def bytes (e : Entry) : List UInt8 := e.tag :: e.payload

/-- How many indices a constant takes. -/
def width : Entry → Nat
  | long _ | double _ => 2
  | _ => 1

end Entry

/-- The constants of a pool with their indices, counted from a first one. -/
def numbered : Nat → List Entry → List (Nat × Entry)
  | _, [] => []
  | index, e :: rest => (index, e) :: numbered (index + e.width) rest

/-- The text at an index of a pool. -/
def textAt? (pool : List Entry) (index : Nat) : Option String :=
  match (numbered 1 pool).lookup index with
  | some (.utf8 t) => some t.text
  | _ => none

/-- What the class constant at an index of a pool names. -/
def mentionAt? (pool : List Entry) (index : Nat) : Option Mention :=
  match (numbered 1 pool).lookup index with
  | some (.classRef r) => some r.value
  | _ => none

/-- An attribute, whose bytes may be any. -/
structure Attribute where
  name : Ref PlainText
  body : List UInt8
  deriving DecidableEq

namespace Attribute

def bytes (a : Attribute) : List UInt8 :=
  [short a.name.index, bigEndian 4 a.body.length, a.body].flatten

/-- The text that the two bytes of an attribute lead to. -/
def target? (pool : List Entry) (a : Attribute) : Option String :=
  match a.body with
  | [high, low] => textAt? pool (high.toNat * 256 + low.toNat)
  | _ => none

/-- The tag of an attribute of a class; one that names the source file leads to its name. -/
def tag? (pool : List Entry) (a : Attribute) : Option Tag :=
  if a.name.value.text = "Deprecated" then some .deprecated
  else if a.name.value.text = "SourceFile" then (a.target? pool).map .sourceFile
  else none

end Attribute

/-- A field or a method, with a type of its kind. -/
structure Member (τ : Type) where
  access : UInt16
  name : Ref PlainText
  type : Ref τ
  attributes : List Attribute
  deriving DecidableEq

namespace Member

def bytes {τ : Type} (m : Member τ) : List UInt8 :=
  [short m.access, short m.name.index, short m.type.index,
    counted Attribute.bytes m.attributes].flatten

def field (m : Member FieldType) : FieldDefinition where
  name := m.name.value.text
  typeName := m.type.value.sourceName
  modifiers := ⟨m.access⟩

def method (m : Member MethodType) : MethodDefinition where
  name := m.name.value.text
  parameterTypes := m.type.value.parameters.map FieldType.sourceName
  returnType := m.type.value.resultName
  modifiers := ⟨m.access⟩
  hasBody := m.attributes.any fun a => a.name.value.text == "Code"

end Member

end Image

/-- A class file. -/
structure Image where
  minor : UInt16
  major : UInt16
  pool : List Image.Entry
  access : UInt16
  thisClass : Ref ClassName
  superclass : Option (Ref ClassName)
  interfaces : List (Ref ClassName)
  fields : List (Image.Member FieldType)
  methods : List (Image.Member MethodType)
  attributes : List Image.Attribute
  deriving DecidableEq

namespace Image

/-- How many indices a pool takes; index zero belongs to no constant. -/
def indices (pool : List Entry) : Nat := 1 + (pool.map Entry.width).sum

def bytes (c : Image) : List UInt8 :=
  [bigEndian 4 0xCAFEBABE, short c.minor ++ short c.major,
    bigEndian 2 (indices c.pool), c.pool.flatMap Entry.bytes,
    short c.access, short c.thisClass.index, short ((c.superclass.map Ref.index).getD 0),
    counted (fun i => short i.index) c.interfaces,
    counted Member.bytes c.fields, counted Member.bytes c.methods,
    counted Attribute.bytes c.attributes].flatten

def supertypes (c : Image) : List (Ref ClassName) := c.superclass.toList ++ c.interfaces

/-- The indices of the class and its supertypes. -/
def declared (c : Image) : List Nat := (c.thisClass :: c.supertypes).map fun r => r.index.toNat

/-- The class that a constant adds to those that bodies refer to, unless its index is declared. -/
def addition? (c : Image) (index : Nat) : Entry → Option ClassName
  | .classRef r => if index ∈ c.declared then none else r.value.className?
  | _ => none

/-- The classes that the constants add, in the order of the pool. -/
def additions (c : Image) : List ClassName :=
  (numbered 1 c.pool).filterMap fun (index, e) => c.addition? index e

/-- What the class file says of its class. -/
def definition (c : Image) : ClassDefinition where
  name := c.thisClass.value.dotted
  modifiers := ⟨c.access⟩
  superclass := c.superclass.map fun r => r.value.dotted
  interfaces := c.interfaces.map fun r => r.value.dotted
  fields := c.fields.map Member.field
  methods := c.methods.map Member.method
  bodyReferences :=
    ((c.additions.map ClassName.dotted).filter (· != c.thisClass.value.dotted)).eraseDups
  tags := c.attributes.filterMap (Attribute.tag? c.pool)

/-! ## Valid images -/

/-- The class constants of a pool. -/
def classRefs (pool : List Entry) : List (Ref Mention) :=
  pool.filterMap fun
    | .classRef r => some r
    | _ => none

/-- The constant at an index is this text. -/
def HasText (pool : List Entry) (index : UInt16) (s : List Char) : Prop :=
  textAt? pool index.toNat = some (String.ofList s)

instance (pool : List Entry) (index : UInt16) (s : List Char) : Decidable (HasText pool index s) :=
  inferInstanceAs (Decidable (_ = _))

/-- The constant at the index of a reference is the class that it means. -/
def HasClass (pool : List Entry) (r : Ref ClassName) : Prop :=
  mentionAt? pool r.index.toNat = some (.named r.value)

instance (pool : List Entry) (r : Ref ClassName) : Decidable (HasClass pool r) :=
  inferInstanceAs (Decidable (_ = _))

@[mk_iff]
structure Attribute.IsValid (pool : List Entry) (a : Attribute) : Prop where
  name : HasText pool a.name.index a.name.value.chars
  fits : a.body.length < 2 ^ 32

instance (pool : List Entry) (a : Attribute) : Decidable (a.IsValid pool) :=
  decidable_of_iff' _ (Attribute.isValid_iff pool a)

@[mk_iff]
structure Member.IsValid {τ : Type} (pool : List Entry) (descriptor : τ → List Char)
    (m : Member τ) : Prop where
  name : HasText pool m.name.index m.name.value.chars
  type : HasText pool m.type.index (descriptor m.type.value)
  attributes : ∀ a ∈ m.attributes, a.IsValid pool
  fits : m.attributes.length < 2 ^ 16

instance {τ : Type} (pool : List Entry) (descriptor : τ → List Char) (m : Member τ) :
    Decidable (m.IsValid pool descriptor) :=
  decidable_of_iff' _ (Member.isValid_iff pool descriptor m)

/-- Every index that a definition needs leads to a constant with the meaning beside it, and every
count and length fits its field. -/
@[mk_iff]
structure IsValid (c : Image) : Prop where
  pool : ∀ r ∈ classRefs c.pool, HasText c.pool r.index r.value.spelling
  thisClass : HasClass c.pool c.thisClass
  supertypes : ∀ r ∈ c.supertypes, HasClass c.pool r
  fields : ∀ m ∈ c.fields, m.IsValid c.pool FieldType.descriptor
  methods : ∀ m ∈ c.methods, m.IsValid c.pool MethodType.descriptor
  attributes : ∀ a ∈ c.attributes, a.IsValid c.pool
  pool_fits : indices c.pool < 2 ^ 16
  interfaces_fit : c.interfaces.length < 2 ^ 16
  fields_fit : c.fields.length < 2 ^ 16
  methods_fit : c.methods.length < 2 ^ 16
  attributes_fit : c.attributes.length < 2 ^ 16

instance (c : Image) : Decidable c.IsValid := decidable_of_iff' _ (isValid_iff c)

end Image

end ClassUniverse.ClassFile
