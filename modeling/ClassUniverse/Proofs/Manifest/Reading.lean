import ClassUniverse.Proofs.Manifest.Image
import ClassUniverse.Proofs.Text.Ascii

/-!
# Reading the parts of a binary manifest

Whatever else the bytes of a valid image hold, a reader finds each number, each string and each
attribute at its place.
-/

namespace ClassUniverse.Manifest

open Text

variable {bytes part more : List UInt8} {offset n : Nat}

/-! ## Numbers -/

theorem length_littleEndian (width n : Nat) : (littleEndian width n).length = width := by
  induction width generalizing n with
  | zero => rfl
  | succ width ih => rw [littleEndian, List.length_cons, ih]

theorem length_half (n : UInt16) : (half n).length = 2 := length_littleEndian 2 _

theorem length_word (n : UInt32) : (word n).length = 4 := length_littleEndian 4 _

theorem Holds.left (h : Holds bytes offset (part ++ more)) : Holds bytes offset part :=
  (List.prefix_append part more).trans h

theorem Holds.right (h : Holds bytes offset (part ++ more)) :
    Holds bytes (offset + part.length) more := by
  obtain ⟨rest, whole⟩ := h
  refine ⟨rest, ?_⟩
  rw [← List.drop_drop, ← whole, List.append_assoc, List.drop_left]

/-- What follows a part of a known length. -/
theorem Holds.behind {length : Nat} (h : Holds bytes offset (part ++ more))
    (known : part.length = length) : Holds bytes (offset + length) more := known ▸ h.right

theorem Holds.le_length (h : Holds bytes offset part) (some_part : part ≠ []) :
    offset + part.length ≤ bytes.length := by
  have le := h.length_le
  have pos := List.length_pos_iff.mpr some_part
  rw [List.length_drop] at le
  omega

theorem Holds.append_right (h : Holds bytes offset part) (inside : offset ≤ bytes.length)
    (more : List UInt8) : Holds (bytes ++ more) offset part := by
  unfold Holds
  rw [List.drop_append_of_le_length inside]
  exact h.trans (List.prefix_append _ _)

theorem u16At?_of_holds (h : Holds bytes offset (littleEndian 2 n)) (fits : n < 0x10000) :
    u16At? bytes offset = some n := by
  obtain ⟨rest, whole⟩ := h
  unfold u16At?
  rw [← whole]
  simp only [littleEndian, List.cons_append, List.nil_append, UInt8.toNat_ofNat']
  exact congrArg some (by omega)

theorem u32At?_of_holds (h : Holds bytes offset (littleEndian 4 n)) (fits : n < 0x100000000) :
    u32At? bytes offset = some n := by
  obtain ⟨rest, whole⟩ := h
  unfold u32At?
  rw [← whole]
  simp only [littleEndian, List.cons_append, List.nil_append, UInt8.toNat_ofNat']
  exact congrArg some (by omega)

theorem u16At?_of_half {n : UInt16} (h : Holds bytes offset (half n)) :
    u16At? bytes offset = some n.toNat :=
  u16At?_of_holds h n.toNat_lt

theorem u32At?_of_word {n : UInt32} (h : Holds bytes offset (word n)) :
    u32At? bytes offset = some n.toNat :=
  u32At?_of_holds h n.toNat_lt

theorem slice?_of_holds (h : Holds bytes offset part) (inside : offset ≤ bytes.length) :
    slice? bytes offset part.length = some part := by
  have found : (bytes.drop offset).take part.length = part := (List.prefix_iff_eq_take.mp h).symm
  unfold slice?
  rw [found]
  exact if_pos ⟨inside, rfl⟩

theorem words_flatMap_word (numbers : List UInt32) :
    words (numbers.flatMap word) = numbers.map UInt32.toNat := by
  induction numbers with
  | nil => rfl
  | cons n numbers ih =>
      have bound := n.toNat_lt
      rw [List.flatMap_cons, List.map_cons, ← ih]
      simp only [word, littleEndian, List.cons_append, List.nil_append, words,
        UInt8.toNat_ofNat']
      exact congrArg (· :: _) (by omega)

theorem units_flatMap_half (numbers : List UInt16) :
    units (numbers.flatMap half) = numbers.map UInt16.toNat := by
  induction numbers with
  | nil => rfl
  | cons n numbers ih =>
      have bound := n.toNat_lt
      rw [List.flatMap_cons, List.map_cons, ← ih]
      simp only [half, littleEndian, List.cons_append, List.nil_append, units,
        UInt8.toNat_ofNat']
      exact congrArg (· :: _) (by omega)

theorem length_flatMap_half (numbers : List UInt16) :
    (numbers.flatMap half).length = numbers.length * 2 := by
  induction numbers with
  | nil => rfl
  | cons n numbers ih =>
      rw [List.flatMap_cons, List.length_append, length_half, ih, List.length_cons]
      omega

/-! ## Strings -/

namespace Image

namespace Stored

variable {wide : Bool}

/-- What a string is read as. -/
def text : Stored → String
  | inUnits units _ => String.ofList (decodeUnits (units.map UInt16.toNat))
  | inBytes _ _ bytes _ => String.ofList (decodeLossy bytes)

theorem text_eq_iff (s : Stored) {text : String} (ascii : IsAscii text.toList) :
    s.text = text ↔ s.spells text = true := by
  have same (decoded : List Char) : String.ofList decoded = text ↔ decoded = text.toList := by
    rw [← String.toList_inj, String.toList_ofList]
  unfold spells
  rw [beq_iff_eq]
  cases s with
  | inUnits units wide =>
      have small : ∀ n ∈ units.map UInt16.toNat, n < 0x10000 := by
        intro n hn
        obtain ⟨unit, -, rfl⟩ := List.mem_map.mp hn
        exact unit.toNat_lt
      exact (same _).trans (decodeUnits_eq_iff small ascii)
  | inBytes characters charactersWide bytes wide =>
      exact (same _).trans (decodeLossy_eq_iff ascii)

theorem shortLength?_of_holds (h : Holds bytes offset (byteLength wide n))
    (fits : n < if wide then 0x8000 else 0x80) :
    shortLength? bytes offset = some (n, offset + (byteLength wide n).length) := by
  obtain ⟨rest, whole⟩ := h
  unfold shortLength?
  rw [← whole]
  unfold byteLength
  cases wide with
  | true =>
      rw [if_pos rfl] at fits
      have first : (UInt8.ofNat (0x80 + n / 0x100)).toNat = 0x80 + n / 0x100 := by
        rw [UInt8.toNat_ofNat']
        omega
      have second : (UInt8.ofNat (n % 0x100)).toNat = n % 0x100 := by
        rw [UInt8.toNat_ofNat']
        omega
      simp only [if_true, List.cons_append, List.nil_append, first, second]
      rw [if_neg (by omega)]
      exact congrArg (fun m => some (m, offset + 2)) (by omega)
  | false =>
      have narrow : n < 0x80 := fits
      have only : (UInt8.ofNat n).toNat = n := by
        rw [UInt8.toNat_ofNat']
        omega
      simp only [Bool.false_eq_true, if_false, List.cons_append, List.nil_append, only]
      exact if_pos narrow

theorem byteLength_ne_nil (wide : Bool) (n : Nat) : byteLength wide n ≠ [] := by
  cases wide <;> simp [byteLength]

theorem byteString?_of_holds {characters : Nat} {charactersWide : Bool} {content : List UInt8}
    (h : Holds bytes offset (inBytes characters charactersWide content wide).code)
    (fits : (inBytes characters charactersWide content wide).Fits) :
    byteString? bytes offset = some (inBytes characters charactersWide content wide).text := by
  have first := shortLength?_of_holds h.left fits.1
  have second := shortLength?_of_holds h.right.left fits.2
  have inside := h.right.left.le_length (byteLength_ne_nil wide _)
  have found := slice?_of_holds h.right.right inside
  unfold byteString?
  simp only [first, second, found, Option.bind_eq_bind, Option.bind_some]
  rfl

theorem unitString?_of_holds {content : List UInt16}
    (h : Holds bytes offset (inUnits content wide).code) (fits : (inUnits content wide).Fits) :
    unitString? bytes offset = some (inUnits content wide).text := by
  have small : content.length < if wide then 0x80000000 else 0x8000 := fits
  have measured : Holds bytes offset (unitLength wide content.length) := h.left
  have found : slice? bytes (offset + (unitLength wide content.length).length)
      (content.length * 2) = some (content.flatMap half) := by
    rw [← length_flatMap_half]
    refine slice?_of_holds h.right (measured.le_length ?_)
    cases wide <;> simp [unitLength, littleEndian]
  unfold unitString?
  cases wide with
  | true =>
      rw [if_pos rfl] at small
      have front := u16At?_of_holds measured.left (by omega)
      have back := u16At?_of_holds (measured.behind (length_littleEndian 2 _)) (by omega)
      have not_short : ¬ 0x8000 + content.length / 0x10000 < 0x8000 := by omega
      have length : (0x8000 + content.length / 0x10000 - 0x8000) * 0x10000 +
          content.length % 0x10000 = content.length := by omega
      have four : (unitLength true content.length).length = 4 := rfl
      rw [four] at found
      simp only [front, back, not_short, length, found, if_false, Option.bind_eq_bind,
        Option.bind_some, Option.pure_def, units_flatMap_half]
      rfl
  | false =>
      have narrow : content.length < 0x8000 := small
      have front := u16At?_of_holds measured (by omega)
      have two : (unitLength false content.length).length = 2 := rfl
      rw [two] at found
      simp only [front, narrow, found, if_true, Option.bind_eq_bind, Option.bind_some,
        Option.pure_def, units_flatMap_half]
      rfl

end Stored

/-! ## Tables -/

/-- The strings of a table from an index on. -/
theorem stringsFrom?_of_holds (p : Pool) (strings : List Placed) (index : Nat)
    (h : ∀ entry ∈ strings.zipIdx index, p.HoldsString entry.2 entry.1) :
    stringsFrom? p.toChunk p.isInBytes p.start.toNat strings.length index =
      some (strings.map fun s => s.string.text) := by
  induction strings generalizing index with
  | nil => rfl
  | cons s strings ih =>
      rw [List.zipIdx_cons, List.forall_mem_cons] at h
      have place := u32At?_of_word h.1.place
      have first : (if p.isInBytes then byteString? p.bytes (p.start.toNat + s.place.toNat)
          else unitString? p.bytes (p.start.toNat + s.place.toNat)) = some s.string.text := by
        obtain ⟨-, code, fits, encoding⟩ := h.1
        rw [← encoding]
        generalize s.string = string at code fits
        cases string with
        | inUnits content wide => exact Stored.unitString?_of_holds code fits
        | inBytes characters charactersWide content wide =>
            exact Stored.byteString?_of_holds code fits
      rw [List.length_cons, stringsFrom?, ih (index + 1) h.2, place]
      simp only [Option.bind_eq_bind, Option.bind_some]
      cases inBytes : p.isInBytes with
      | true =>
          rw [inBytes, if_pos rfl] at first
          rw [if_pos rfl, first]
          rfl
      | false =>
          rw [inBytes, if_neg Bool.false_ne_true] at first
          rw [if_neg Bool.false_ne_true, first]
          rfl

theorem strings?_of_valid {p : Pool} (valid : p.IsValid) :
    p.toChunk.strings? = some (p.strings.map fun s => s.string.text) := by
  have count := u32At?_of_holds valid.count valid.fits
  have flags := u32At?_of_word valid.layout.left
  have start := u32At?_of_word (valid.layout.behind (length_word _))
  unfold Chunk.strings?
  rw [count, flags, start]
  exact stringsFrom?_of_holds p p.strings 0 valid.strings

theorem resources?_of_valid {r : ResourceMap} (valid : r.IsValid) :
    r.toChunk.resources? = some (r.numbers.map UInt32.toNat) := by
  unfold Chunk.resources?
  rw [if_pos valid.header_le, valid.numbers, words_flatMap_word]

/-! ## Elements -/

/-- What a reader makes of an attribute, once it has read the tables. -/
def Attribute.reading (p : Progress) (a : Attribute) : ElementAttribute where
  name := (p.strings[a.name.toNat]?).getD ""
  resource := p.resources[a.name.toNat]?
  value := levelValue? p.strings a.type a.raw.toNat a.value.toNat

theorem elementAttribute?_of_holds {e : Element} {a : Attribute}
    (h : e.HoldsAttribute offset a) (p : Progress) :
    elementAttribute? p e.bytes offset = some (a.reading p) := by
  have name := u32At?_of_word h.names.left
  have raw := u32At?_of_word (h.names.behind (length_word _))
  have typed : Holds e.bytes (offset + 15) ([a.type] ++ word a.value) := h.value
  have value : u32At? e.bytes (offset + 16) = some a.value.toNat := u32At?_of_word typed.right
  have type : (e.bytes.drop (offset + 15)).head? = some a.type := by
    obtain ⟨rest, whole⟩ := h.value
    rw [← whole]
    rfl
  unfold elementAttribute?
  rw [name, raw, type, value]
  rfl

/-- The attributes of an element from an index on change the levels one after the other. -/
theorem attributesFrom_of_holds (e : Element) (p : Progress) (name : String)
    (attributes : List Attribute) (start index : Nat) (l : ManifestLevels)
    (h : ∀ entry ∈ attributes.zipIdx index,
      e.HoldsAttribute (start + entry.2 * e.stride.toNat) entry.1) :
    attributesFrom p e.toChunk name e.stride.toNat attributes.length
        (start + index * e.stride.toNat) l =
      attributes.foldl (fun l a => (a.reading p).apply name l) l := by
  induction attributes generalizing index l with
  | nil => rfl
  | cons a attributes ih =>
      rw [List.zipIdx_cons, List.forall_mem_cons] at h
      have next : start + index * e.stride.toNat + e.stride.toNat =
          start + (index + 1) * e.stride.toNat := by
        rw [Nat.add_mul, Nat.one_mul, Nat.add_assoc]
      rw [List.length_cons, attributesFrom, elementAttribute?_of_holds h.1 p]
      dsimp only
      rw [next, ih (index + 1) _ h.2]
      rfl

theorem elementLevels_of_valid {e : Element} (valid : e.IsValid) (p : Progress) :
    e.toChunk.elementLevels p = match p.strings[e.name.toNat]? with
      | none => p.levels
      | some name => e.attributes.foldl (fun l a => (a.reading p).apply name l) p.levels := by
  have front := valid.front
  simp only [List.append_assoc] at front
  have name := u32At?_of_word front.left
  have start := u16At?_of_half (front.behind (length_word _)).left
  have stride := u16At?_of_half ((front.behind (length_word _)).behind (length_half _)).left
  have count := u16At?_of_holds
    (((front.behind (length_word _)).behind (length_half _)).behind (length_half _)) valid.fits
  have read := attributesFrom_of_holds e p
  unfold Chunk.elementLevels
  simp only [name, start, stride, count, Option.bind_eq_bind, Option.bind_some]
  cases p.strings[e.name.toNat]? with
  | none => rfl
  | some element =>
      have levels := read element e.attributes (e.header + e.start.toNat) 0 p.levels
        valid.attributes
      rw [Nat.zero_mul, Nat.add_zero] at levels
      exact levels

/-! ## Chunks -/

theorem IsFramed.long {c : Chunk} (framed : IsFramed c) : 8 ≤ c.bytes.length := by
  have front := framed.front.le_length (by simp [littleEndian])
  simp only [List.length_append, length_littleEndian] at front
  omega

theorem read?_of_framed {c : Chunk} (framed : IsFramed c) (more : List UInt8) :
    Chunk.read? (c.bytes ++ more) = some c := by
  have front := framed.front.append_right (Nat.zero_le _) more
  simp only [List.append_assoc] at front
  have kind := u16At?_of_holds front.left framed.kind_fits
  have header := u16At?_of_holds (front.behind (length_littleEndian 2 _)).left framed.header_fits
  have size := u32At?_of_holds ((front.behind (length_littleEndian 2 _)).behind
    (length_littleEndian 2 _)) framed.length_fits
  have whole : 8 ≤ c.bytes.length ∧ c.bytes.length ≤ (c.bytes ++ more).length :=
    ⟨framed.long, by simp⟩
  unfold Chunk.read?
  rw [kind, header, size]
  dsimp only
  rw [if_pos whole, List.take_left]

theorem read?_of_short (short : bytes.length < 8) : Chunk.read? bytes = none := by
  unfold Chunk.read?
  split
  next size _ _ _ =>
    rw [if_neg]
    omega
  next => rfl

/-- A chain of chunks with less than the front of one behind it. -/
theorem chunks_of_framed {cs : List Chunk} {tail : List UInt8} (framed : ∀ c ∈ cs, IsFramed c)
    (short : tail.length < 8) : Manifest.chunks (cs.flatMap Chunk.bytes ++ tail) = cs := by
  induction cs with
  | nil =>
      rw [Manifest.chunks]
      split
      next => rfl
      next c found =>
        rw [List.flatMap_nil, List.nil_append, read?_of_short short] at found
        cases found
  | cons c cs ih =>
      rw [List.forall_mem_cons] at framed
      have first := read?_of_framed framed.1 (cs.flatMap Chunk.bytes ++ tail)
      rw [List.flatMap_cons, List.append_assoc, Manifest.chunks]
      split
      next missing =>
        rw [first] at missing
        cases missing
      next found =>
        rw [first] at found
        cases found
        rw [List.drop_left, ih framed.2]

theorem step?_of_isOther {c : Chunk} (h : IsOther c) (p : Progress) : p.step? c = some p := by
  unfold Progress.step?
  rw [if_neg h.kind.1, if_neg h.kind.2.1, if_neg h.kind.2.2]

theorem foldlM_of_isOther {cs : List Chunk} (h : ∀ c ∈ cs, IsOther c) (p : Progress)
    (more : List Chunk) :
    (cs ++ more).foldlM Progress.step? p = more.foldlM Progress.step? p := by
  induction cs with
  | nil => rfl
  | cons c cs ih =>
      rw [List.forall_mem_cons] at h
      rw [List.cons_append, List.foldlM_cons, step?_of_isOther h.1]
      exact ih h.2

variable {i : Image}

theorem framed_of_valid (valid : i.IsValid) : ∀ c ∈ i.chunks, IsFramed c := by
  intro c hc
  unfold chunks at hc
  simp only [List.mem_append, List.mem_cons, Option.mem_toList, List.mem_map,
    Option.map_eq_some_iff] at hc
  rcases hc with hc | rfl | hc | ⟨r, hr, rfl⟩ | ⟨n, hn, rfl⟩
  · exact (valid.lead c hc).framed
  · exact valid.pool.framed
  · exact (valid.gap c hc).framed
  · exact (valid.resources r hr).framed
  · have node := valid.body n hn
    cases n with
    | element e => exact Element.IsValid.framed node
    | other c => exact IsOther.framed node

/-- What a reader knows once it has read the tables. -/
def tables (i : Image) : Progress where
  strings := (i.pool.strings.map fun s => s.string.text).toArray
  resources := ((i.resources.map ResourceMap.numbers).getD []).map UInt32.toNat |>.toArray

/-- The levels after an element, whose name is the string at an index, if there is one. -/
def Element.after (p : Progress) (l : ManifestLevels) (e : Element) : ManifestLevels :=
  match p.strings[e.name.toNat]? with
  | none => l
  | some name => e.attributes.foldl (fun l a => (a.reading p).apply name l) l

/-- Elements change the levels one after the other, and other chunks do nothing. -/
theorem foldlM_body {body : List Node} (valid : ∀ n ∈ body, n.IsValid) (p : Progress) :
    (body.map Node.chunk).foldlM Progress.step? p = some
      { p with levels := (body.filterMap Node.element?).foldl (Element.after p) p.levels } := by
  induction body generalizing p with
  | nil => rfl
  | cons n body ih =>
      rw [List.forall_mem_cons] at valid
      rw [List.map_cons, List.foldlM_cons]
      cases n with
      | other c =>
          rw [Node.chunk, step?_of_isOther valid.1]
          exact ih valid.2 p
      | element e =>
          have element : e.IsValid := valid.1
          have kind : e.toChunk.kind = 0x0102 := element.kind
          have step : p.step? e.toChunk = some { p with levels := Element.after p p.levels e } := by
            unfold Progress.step?
            rw [if_neg (by rw [kind]; decide), if_neg (by rw [kind]; decide), if_pos kind,
              elementLevels_of_valid element]
            rfl
          rw [Node.chunk, step]
          exact ih valid.2 _

/-- A reader takes the tables and then goes through what stands behind them. -/
theorem foldlM_chunks (valid : i.IsValid) : i.chunks.foldlM Progress.step? {} = some
    { i.tables with
      levels := (i.body.filterMap Node.element?).foldl (Element.after i.tables) {} } := by
  have pool (p : Progress) :
      p.step? i.pool.toChunk = some { p with strings := i.tables.strings } := by
    unfold Progress.step?
    rw [if_pos valid.pool.kind, strings?_of_valid valid.pool]
    rfl
  unfold chunks
  rw [foldlM_of_isOther valid.lead, List.foldlM_cons, pool]
  dsimp only [Option.bind_eq_bind, Option.bind_some]
  rw [foldlM_of_isOther valid.gap]
  have body := foldlM_body valid.body
  unfold tables at body ⊢
  cases found : i.resources with
  | none => exact body _
  | some r =>
      have table : r.IsValid := valid.resources r found
      have kind : r.toChunk.kind = 0x0180 := table.kind
      have resources (p : Progress) : p.step? r.toChunk =
          some { p with resources := (r.numbers.map UInt32.toNat).toArray } := by
        unfold Progress.step?
        rw [if_neg (by rw [kind]; decide), if_pos kind, resources?_of_valid table]
        rfl
      change (r.toChunk :: i.body.map Node.chunk).foldlM Progress.step? _ = _
      rw [List.foldlM_cons, resources]
      exact body _

theorem isBinary_bytes (valid : i.IsValid) : isBinary i.bytes = true := by
  have front := valid.head.append_right (Nat.zero_le _) (i.chunks.flatMap Chunk.bytes ++ i.tail)
  have kind := u16At?_of_half front.left
  unfold isBinary bytes
  rw [kind]
  rfl

/-- A reader of binary manifests goes through the elements of a valid image with its tables. -/
theorem binaryLevels?_bytes (valid : i.IsValid) : binaryLevels? i.bytes =
    some ((i.body.filterMap Node.element?).foldl (Element.after i.tables) {}) := by
  have front := valid.head.append_right (Nat.zero_le _) (i.chunks.flatMap Chunk.bytes ++ i.tail)
  have length := u16At?_of_holds (front.behind (length_half _)) valid.head_fits
  rw [Nat.zero_add] at length
  unfold binaryLevels? bytes
  simp only [length, List.drop_left, chunks_of_framed (framed_of_valid valid) valid.tail,
    foldlM_chunks valid, Option.bind_eq_bind, Option.bind_some, Option.pure_def]

end Image

end ClassUniverse.Manifest
