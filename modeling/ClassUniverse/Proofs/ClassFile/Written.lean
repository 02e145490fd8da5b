import ClassUniverse.ClassFile.Layout
import ClassUniverse.Proofs.ClassFile.Image

/-!
# Reading the bytes of an image

The reader takes the bytes of a valid image to their end and gives the layout of the image: the
same parts with indices in the place of their meanings.
-/

namespace ClassUniverse.ClassFile

theorem length_short (n : UInt16) : (short n).length = 2 := length_bigEndian 2 n.toNat

theorem Reads.short (n : UInt16) : Reads Reader.u16 (short n) n.toNat := Reads.u16 n.toNat_lt

namespace Image

/-! ## Constants -/

namespace Entry

/-- A constant as a reader keeps it. -/
def constant : Entry → Constant
  | utf8 text => .utf8 (text.chars.flatMap Text.charBytes)
  | classRef name => .classRef name.index.toNat
  | e@(long _) | e@(double _) => .wide e.tag e.payload
  | e => .plain e.tag e.payload

theorem width_constant (e : Entry) : e.constant.width = e.width := by
  cases e <;> rfl

theorem width_pos (e : Entry) : 0 < e.width := by
  rw [← e.width_constant]
  exact e.constant.width_pos

theorem reads_plain {tag : UInt8} {payload : List UInt8}
    (hlength : payloadLength? tag = some payload.length) :
    Reads Constant.read (tag :: payload) (.plain tag payload) := by
  have hutf8 : tag ≠ 1 := by rintro rfl; nomatch hlength
  have hclass : tag ≠ 7 := by rintro rfl; nomatch hlength
  have hwide : ¬(tag = 5 ∨ tag = 6) := by rintro (rfl | rfl) <;> nomatch hlength
  have hrest := (Reads.bytes payload).bind_pure (f := Constant.plain tag)
  refine (Reads.byte tag).bind ?_
  simp only [hutf8, hclass, hwide, if_false, hlength]
  exact hrest

theorem reads_wide {tag : UInt8} {payload : List UInt8} (htag : tag = 5 ∨ tag = 6)
    (hlength : payload.length = 8) :
    Reads Constant.read (tag :: payload) (.wide tag payload) := by
  have hrest := (Reads.bytes payload).bind_pure (f := Constant.wide tag)
  rw [hlength] at hrest
  have hother : tag ≠ 1 ∧ tag ≠ 7 := by
    rcases htag with rfl | rfl <;> decide
  refine (Reads.byte tag).bind ?_
  simp only [hother.1, hother.2, htag, if_false, if_true]
  exact hrest

theorem reads (e : Entry) : Reads Constant.read e.bytes e.constant := by
  cases e with
  | utf8 text =>
      refine (Reads.byte 1).bind ?_
      exact (Reads.u16 text.fits).bind (Reads.bytes _).bind_pure
  | classRef name =>
      refine (Reads.byte 7).bind ?_
      exact (Reads.short name.index).bind_pure
  | long bits => exact reads_wide (.inl rfl) (length_bigEndian 8 _)
  | double bits => exact reads_wide (.inr rfl) (length_bigEndian 8 _)
  | _ => exact reads_plain (by simp [payload, length_bigEndian, length_short]; rfl)

end Entry

theorem readTable_succ (indices : Nat) :
    Constant.readTable (indices + 1) = do
      let first ← Constant.read
      let rest ← Constant.readTable (indices + 1 - first.width)
      return first :: rest := by
  rw [Constant.readTable]

theorem reads_pool (pool : List Entry) :
    Reads (Constant.readTable (pool.map Entry.width).sum) (pool.flatMap Entry.bytes)
      (pool.map Entry.constant) := by
  induction pool with
  | nil =>
      rw [List.map_nil, List.sum_nil, Constant.readTable]
      exact Reads.pure []
  | cons e pool ih =>
      obtain ⟨indices, hindices⟩ : ∃ indices, e.width + (pool.map Entry.width).sum = indices + 1 :=
        Nat.exists_eq_add_one.2 (Nat.add_pos_left e.width_pos _)
      rw [List.map_cons, List.sum_cons, hindices, readTable_succ]
      have hrest : indices + 1 - e.constant.width = (pool.map Entry.width).sum := by
        rw [e.width_constant]
        omega
      refine e.reads.bind ?_
      rw [hrest]
      exact ih.bind_pure

/-! ## Members -/

def Attribute.layout (a : Attribute) : ClassFile.Attribute := ⟨a.name.index.toNat, a.body⟩

theorem Attribute.reads {a : Attribute} (fits : a.body.length < 2 ^ 32) :
    Reads ClassFile.Attribute.read a.bytes a.layout :=
  (Reads.short _).bind ((Reads.u32 fits).bind ((Reads.bytes a.body).bind (Reads.pure _)))

def Member.layout {τ : Type} (m : Member τ) : ClassFile.Member :=
  ⟨m.access.toNat, m.name.index.toNat, m.type.index.toNat, m.attributes.map Attribute.layout⟩

theorem reads_attributes {pool : List Entry} {attributes : List Attribute}
    (valid : ∀ a ∈ attributes, a.IsValid pool) (fit : attributes.length < 2 ^ 16) :
    Reads (Reader.counted ClassFile.Attribute.read) (counted Attribute.bytes attributes)
      (attributes.map Attribute.layout) :=
  Reads.counted fit fun a ha => Attribute.reads (valid a ha).fits

theorem Member.reads {τ : Type} {pool : List Entry} {descriptor : τ → List Char} {m : Member τ}
    (valid : m.IsValid pool descriptor) :
    Reads ClassFile.Member.read m.bytes m.layout :=
  have hattributes := reads_attributes valid.attributes valid.fits
  (Reads.short m.access).bind ((Reads.short m.name.index).bind ((Reads.short m.type.index).bind
    (hattributes.bind (Reads.pure _))))

/-! ## The whole image -/

def layout (c : Image) : Layout where
  version := short c.minor ++ short c.major
  constants := c.pool.map Entry.constant
  access := c.access.toNat
  thisClass := c.thisClass.index.toNat
  superclass := ((c.superclass.map Ref.index).getD 0).toNat
  interfaces := c.interfaces.map fun r => r.index.toNat
  fields := c.fields.map Member.layout
  methods := c.methods.map Member.layout
  attributes := c.attributes.map Attribute.layout

theorem reads_layout {c : Image} (valid : c.IsValid) : Reads Layout.read c.bytes c.layout := by
  have hmagic : Reads Reader.u32 (bigEndian 4 0xCAFEBABE) magic := Reads.u32 (by decide)
  have hlength : (short c.minor ++ short c.major).length = 4 := by
    simp [length_short]
  have hversion := Reads.bytes (short c.minor ++ short c.major)
  rw [hlength] at hversion
  have hcount := Reads.u16 valid.pool_fits
  have hpool := reads_pool c.pool
  have hinterfaces : Reads (Reader.counted Reader.u16)
      (counted (fun r => short r.index) c.interfaces) (c.interfaces.map fun r => r.index.toNat) :=
    Reads.counted valid.interfaces_fit fun r _ => Reads.short r.index
  have hfields : Reads (Reader.counted ClassFile.Member.read) (counted Member.bytes c.fields)
      (c.fields.map Member.layout) :=
    Reads.counted valid.fields_fit fun m hm => Member.reads (valid.fields m hm)
  have hmethods : Reads (Reader.counted ClassFile.Member.read) (counted Member.bytes c.methods)
      (c.methods.map Member.layout) :=
    Reads.counted valid.methods_fit fun m hm => Member.reads (valid.methods m hm)
  have hattributes := reads_attributes valid.attributes valid.attributes_fit
  refine hmagic.bind (hversion.bind (hcount.bind ?_))
  rw [indices, Nat.add_sub_cancel_left]
  exact hpool.bind ((Reads.short _).bind ((Reads.short _).bind ((Reads.short _).bind
    (hinterfaces.bind (hfields.bind (hmethods.bind (hattributes.bind (Reads.pure _))))))))

end Image

end ClassUniverse.ClassFile
