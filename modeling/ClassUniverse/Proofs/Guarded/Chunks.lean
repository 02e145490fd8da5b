import ClassUniverse.Proofs.Guarded.Strings

/-!
# Reading a binary manifest at places

The chunks of a binary manifest are walked by offsets, and the tables and elements in them are read
at places that come from numbers of the file.  A chunk is cut out only when it is wholly there, and
moves the offset on by its length, so the walk ends.
-/

namespace ClassUniverse.Manifest

open Text Guarded

variable {bytes : List UInt8} {place : Nat}

/-! ## Tables -/

/-- So many strings of a table from an index on, each at the place that its row gives. -/
def stringsFrom (bytes : List UInt8) (header : Nat) (isBytes : Bool) (start : Nat) :
    (remaining index : Nat) → Guarded (List String)
  | 0, _ => pure []
  | remaining + 1, index => do
      let row ← times index 4
      let place ← plus header row
      let offset ← u32At bytes place
      let place ← plus start offset
      let first ← if isBytes then byteString bytes place else unitString bytes place
      let rest ← stringsFrom bytes header isBytes start remaining (index + 1)
      return first :: rest

/-- The strings of a chunk that is a table of strings, whose header is read again. -/
def Chunk.strings (chunk : Chunk) : Guarded (List String) := do
  let header ← u16At chunk.bytes 2
  let count ← u32At chunk.bytes 8
  let flags ← u32At chunk.bytes 16
  let start ← u32At chunk.bytes 20
  stringsFrom chunk.bytes header (flags / 256 % 2 == 1) start count 0

def Chunk.resources (chunk : Chunk) : Guarded (List Nat) := do
  let rows ← ofOption (between? chunk.bytes chunk.header chunk.bytes.length)
  return words rows

/-- A chunk with the header that its bytes name. -/
def Chunk.IsHeaded (chunk : Chunk) : Prop := u16At? chunk.bytes 2 = some chunk.header

variable {chunk : Chunk}

theorem stringsFrom_eq {isBytes : Bool} {start remaining index : Nat}
    (few : index + remaining < 2 ^ 32) (low : start < 2 ^ 32) (narrow : chunk.header < 2 ^ 16) :
    stringsFrom chunk.bytes chunk.header isBytes start remaining index =
      ofOption (stringsFrom? chunk isBytes start remaining index) := by
  induction remaining generalizing index with
  | zero => rfl
  | succ remaining ih =>
      rw [stringsFrom, stringsFrom?, times_eq (by omega), pure_bind, plus_eq (by omega), pure_bind,
        u32At_eq (by omega)]
      refine bind_eq fun place found => ?_
      have bound := (u32At?_bounds found).2
      have small : start + place < 2 ^ 63 := by omega
      rw [plus_eq (by omega), pure_bind, byteString_eq small, unitString_eq small, ih (by omega)]
      cases isBytes with
      | true => exact bind_eq fun first _ => bind_eq fun rest _ => rfl
      | false => exact bind_eq fun first _ => bind_eq fun rest _ => rfl

theorem strings_eq (headed : chunk.IsHeaded) : chunk.strings = ofOption chunk.strings? := by
  rw [Chunk.strings, u16At_eq (by decide), headed, some_bind, u32At_eq (by decide)]
  refine bind_eq fun count found => ?_
  have few := (u32At?_bounds found).2
  rw [u32At_eq (by decide)]
  refine bind_eq fun flags _ => ?_
  rw [u32At_eq (by decide)]
  refine bind_eq fun start found => ?_
  exact stringsFrom_eq (by omega) ((u32At?_bounds found).2) ((u16At?_bounds headed).2)

theorem resources_eq (chunk : Chunk) : chunk.resources = ofOption chunk.resources? := by
  rw [Chunk.resources, Chunk.resources?]
  by_cases inside : chunk.header ≤ chunk.bytes.length
  · have whole : (chunk.bytes.drop chunk.header).take (chunk.bytes.length - chunk.header) =
        chunk.bytes.drop chunk.header := List.take_of_length_le (Nat.le_of_eq List.length_drop)
    rw [if_pos inside, between?_eq inside (Nat.le_refl _), whole]
    rfl
  · have beyond : between? chunk.bytes chunk.header chunk.bytes.length = none :=
      if_neg fun h => inside h.1
    rw [if_neg inside, beyond]
    rfl

/-! ## Elements -/

def elementAttribute (p : Progress) (bytes : List UInt8) (place : Nat) :
    Guarded ElementAttribute := do
  let name ← u32At bytes (← plus place 4)
  let raw ← u32At bytes (← plus place 8)
  let type ← ofOption bytes[← plus place 15]?
  let data ← u32At bytes (← plus place 16)
  return ⟨(p.strings[name]?).getD "", p.resources[name]?, levelValue? p.strings type raw data⟩

/-- The levels after so many attributes from an index on, up to the first that is not wholly
there. -/
def attributesAt (p : Progress) (chunk : Chunk) (element : String) (start stride : Nat) :
    (remaining index : Nat) → ManifestLevels → Guarded ManifestLevels
  | 0, _, l => pure l
  | remaining + 1, index, l => do
      let first ← plus chunk.header start
      let row ← times index stride
      let place ← plus first row
      match ← attempt (elementAttribute p chunk.bytes place) with
      | none => return l
      | some a =>
          attributesAt p chunk element start stride remaining (index + 1) (a.apply element l)

/-- The element of a chunk and the measures of its attributes. -/
def Chunk.element (chunk : Chunk) (p : Progress) : Guarded (String × Nat × Nat × Nat) := do
  let name ← u32At chunk.bytes (← plus chunk.header 4)
  let element ← ofOption p.strings[name]?
  let start ← u16At chunk.bytes (← plus chunk.header 8)
  let stride ← u16At chunk.bytes (← plus chunk.header 10)
  let count ← u16At chunk.bytes (← plus chunk.header 12)
  return (element, start, stride, count)

/-- The levels after the element of a chunk; without an element they stay. -/
def Chunk.levels (chunk : Chunk) (p : Progress) : Guarded ManifestLevels := do
  match ← attempt (chunk.element p) with
  | none => return p.levels
  | some (element, start, stride, count) =>
      attributesAt p chunk element start stride count 0 p.levels

variable {p : Progress}

theorem elementAttribute_eq (small : place < 2 ^ 63) :
    elementAttribute p bytes place = ofOption (elementAttribute? p bytes place) := by
  have type : bytes[place + 15]? = (bytes.drop (place + 15)).head? := List.head?_drop.symm
  rw [elementAttribute, plus_eq (by omega), pure_bind, u32At_eq (by omega)]
  refine bind_eq fun name _ => ?_
  rw [plus_eq (by omega), pure_bind, u32At_eq (by omega)]
  refine bind_eq fun raw _ => ?_
  rw [plus_eq (by omega), pure_bind, type]
  refine bind_eq fun type _ => ?_
  rw [plus_eq (by omega), pure_bind, u32At_eq (by omega)]
  exact bind_eq fun _ _ => rfl

theorem attributesAt_eq {element : String} {start stride remaining index : Nat}
    (few : index + remaining ≤ 2 ^ 16) (near : start < 2 ^ 16) (narrow : stride < 2 ^ 16)
    (headed : chunk.header < 2 ^ 16) (l : ManifestLevels) :
    attributesAt p chunk element start stride remaining index l =
      pure (attributesFrom p chunk element stride remaining (chunk.header + start + index * stride)
        l) := by
  induction remaining generalizing index l with
  | zero => rfl
  | succ remaining ih =>
      have product : index * stride ≤ 2 ^ 16 * 2 ^ 16 := Nat.mul_le_mul (by omega) (by omega)
      have next : chunk.header + start + (index + 1) * stride =
          chunk.header + start + index * stride + stride := by
        rw [Nat.succ_mul, Nat.add_assoc _ _ stride]
      rw [attributesAt, attributesFrom, plus_eq (by omega), pure_bind, times_eq (by omega),
        pure_bind, plus_eq (by omega), pure_bind, elementAttribute_eq (by omega), attempt_ofOption,
        pure_bind]
      cases elementAttribute? p chunk.bytes (chunk.header + start + index * stride) with
      | none => rfl
      | some a =>
          dsimp only
          rw [ih (by omega), next]

/-- The element of a chunk and the measures of its attributes, when they are there. -/
def Chunk.element? (chunk : Chunk) (p : Progress) : Option (String × Nat × Nat × Nat) := do
  let name ← u32At? chunk.bytes (chunk.header + 4)
  let element ← p.strings[name]?
  let start ← u16At? chunk.bytes (chunk.header + 8)
  let stride ← u16At? chunk.bytes (chunk.header + 10)
  let count ← u16At? chunk.bytes (chunk.header + 12)
  return (element, start, stride, count)

theorem element_eq (headed : chunk.header < 2 ^ 16) :
    chunk.element p = ofOption (chunk.element? p) := by
  rw [Chunk.element, plus_eq (by omega), pure_bind, u32At_eq (by omega)]
  refine bind_eq fun name _ => bind_eq fun element _ => ?_
  rw [plus_eq (by omega), pure_bind, u16At_eq (by omega)]
  refine bind_eq fun start _ => ?_
  rw [plus_eq (by omega), pure_bind, u16At_eq (by omega)]
  refine bind_eq fun stride _ => ?_
  rw [plus_eq (by omega), pure_bind, u16At_eq (by omega)]
  exact bind_eq fun _ _ => rfl

theorem element?_bounds {element : String} {start stride count : Nat}
    (h : chunk.element? p = some (element, start, stride, count)) :
    start < 2 ^ 16 ∧ stride < 2 ^ 16 ∧ count < 2 ^ 16 := by
  obtain ⟨name, -, h⟩ := Option.bind_eq_some_iff.mp h
  obtain ⟨element, -, h⟩ := Option.bind_eq_some_iff.mp h
  obtain ⟨start, near, h⟩ := Option.bind_eq_some_iff.mp h
  obtain ⟨stride, narrow, h⟩ := Option.bind_eq_some_iff.mp h
  obtain ⟨count, few, h⟩ := Option.bind_eq_some_iff.mp h
  cases Option.some.inj h
  exact ⟨(u16At?_bounds near).2, (u16At?_bounds narrow).2, (u16At?_bounds few).2⟩

theorem levels_eq (headed : chunk.header < 2 ^ 16) :
    chunk.levels p = pure (chunk.elementLevels p) := by
  have whole : chunk.elementLevels p = match chunk.element? p with
      | none => p.levels
      | some (element, start, stride, count) =>
          attributesFrom p chunk element stride count (chunk.header + start) p.levels := rfl
  rw [Chunk.levels, element_eq headed, attempt_ofOption, pure_bind, whole]
  cases found : chunk.element? p with
  | none => rfl
  | some parts =>
      obtain ⟨element, start, stride, count⟩ := parts
      obtain ⟨near, narrow, few⟩ := element?_bounds found
      have all : attributesAt p chunk element start stride count 0 p.levels = pure _ :=
        attributesAt_eq (by omega) near narrow headed p.levels
      rw [Nat.zero_mul, Nat.add_zero] at all
      exact all

/-! ## The walk along the chunks -/

/-- What has been read after one more chunk. -/
def Progress.step (p : Progress) (chunk : Chunk) : Guarded Progress :=
  if chunk.kind = 0x0001 then do
    let strings ← chunk.strings
    return { p with strings := strings.toArray }
  else if chunk.kind = 0x0180 then do
    let resources ← chunk.resources
    return { p with resources := resources.toArray }
  else if chunk.kind = 0x0102 then do
    let levels ← chunk.levels p
    return { p with levels := levels }
  else return p

/-- Reads the chunk at an offset and moves behind it, or ends where no chunk is wholly there. -/
def advance (bytes : List UInt8) :
    Nat × Progress → Guarded ((Nat × Progress) ⊕ ManifestLevels)
  | (offset, p) => do
      let front ← plus offset 8
      if bytes.length < front then return .inr p.levels
      let kind ← u16At bytes offset
      let header ← u16At bytes (← plus offset 2)
      let size ← u32At bytes (← plus offset 4)
      if size < 8 then return .inr p.levels
      let stop ← plus offset size
      if bytes.length < stop then return .inr p.levels
      let found ← between bytes offset stop
      let p ← p.step ⟨kind, header, found⟩
      let next ← plus offset size
      return .inl (next, p)

/-- The levels in a binary manifest. -/
def binaryLevels (bytes : List UInt8) : Guarded ManifestLevels := do
  let start ← u16At bytes 2
  loop (fun state => bytes.length - state.1) (advance bytes) (start, {})

theorem step_eq (headed : chunk.IsHeaded) (p : Progress) :
    p.step chunk = ofOption (p.step? chunk) := by
  unfold Progress.step Progress.step?
  split
  · rw [strings_eq headed, map_ofOption]
  split
  · rw [resources_eq, map_ofOption]
  split
  · rw [levels_eq ((u16At?_bounds headed).2), pure_bind]
    rfl
  · rfl

/-- What the chunks of some bytes leave. -/
def levelsOf (bytes : List UInt8) (p : Progress) : Option ManifestLevels :=
  ((chunks bytes).foldlM Progress.step? p).map Progress.levels

theorem levelsOf_of_none (missing : Chunk.read? bytes = none) :
    levelsOf bytes p = some p.levels := by
  rw [levelsOf, chunks]
  split
  · rfl
  · rename_i found
    rw [missing] at found
    cases found

theorem levelsOf_of_some (found : Chunk.read? bytes = some chunk) :
    levelsOf bytes p = (p.step? chunk).bind fun next =>
      levelsOf (bytes.drop chunk.bytes.length) next := by
  rw [levelsOf, chunks]
  split
  · rename_i missing
    rw [missing] at found
    cases found
  · rename_i first
    cases first.symm.trans found
    rw [List.foldlM_cons]
    change ((p.step? chunk).bind fun next => _).map _ = _
    rw [Option.map_bind]
    rfl

/-- The first chunk from an offset on, by numbers of the whole file. -/
theorem read?_drop (bytes : List UInt8) (offset : Nat) : Chunk.read? (bytes.drop offset) =
    (u16At? bytes offset).bind fun kind => (u16At? bytes (offset + 2)).bind fun header =>
      (u32At? bytes (offset + 4)).bind fun size =>
        if 8 ≤ size ∧ offset + size ≤ bytes.length then
          some ⟨kind, header, (bytes.drop offset).take size⟩
        else none := by
  have u16 (place : Nat) : u16At? (bytes.drop offset) place = u16At? bytes (offset + place) := by
    rw [u16At?, u16At?, List.drop_drop]
  have u32 (place : Nat) : u32At? (bytes.drop offset) place = u32At? bytes (offset + place) := by
    rw [u32At?, u32At?, List.drop_drop]
  rw [Chunk.read?, u16, u16, u32, Nat.add_zero]
  cases u16At? bytes offset with
  | none => rfl
  | some kind =>
      cases u16At? bytes (offset + 2) with
      | none => rfl
      | some header =>
          cases u32At? bytes (offset + 4) with
          | none => rfl
          | some size =>
              have same : 8 ≤ size ∧ size ≤ bytes.length - offset ↔
                  8 ≤ size ∧ offset + size ≤ bytes.length := by omega
              simp only [Option.bind_some, List.length_drop, same]

theorem advance_eq (few : bytes.length < 2 ^ 63) {offset : Nat}
    (near : offset ≤ bytes.length + 2 ^ 16) (p : Progress) :
    advance bytes (offset, p) = ofOption ((levelsOf (bytes.drop offset) p).map .inr) ∨
      ∃ next, advance bytes (offset, p) = pure (.inl next) ∧
        bytes.length - next.1 < bytes.length - offset ∧ next.1 ≤ bytes.length + 2 ^ 16 ∧
        levelsOf (bytes.drop next.1) next.2 = levelsOf (bytes.drop offset) p := by
  have chunk := read?_drop bytes offset
  have front : plus offset 8 = pure (offset + 8) := plus_eq (by omega)
  rw [advance, front, pure_bind]
  by_cases short : bytes.length < offset + 8
  · have missing : Chunk.read? (bytes.drop offset) = none := by
      cases size : u32At? bytes (offset + 4) with
      | none =>
          rw [chunk, size]
          cases u16At? bytes offset <;> cases u16At? bytes (offset + 2) <;> rfl
      | some n =>
          have inside := (u32At?_bounds size).1
          omega
    rw [if_pos short, levelsOf_of_none missing]
    exact .inl rfl
  obtain ⟨kind, hk⟩ : ∃ n, u16At? bytes offset = some n := exists_u16At? (by omega)
  obtain ⟨header, hh⟩ : ∃ n, u16At? bytes (offset + 2) = some n := exists_u16At? (by omega)
  obtain ⟨size, hs⟩ : ∃ n, u32At? bytes (offset + 4) = some n := exists_u32At? (by omega)
  have low := (u32At?_bounds hs).2
  rw [hk, hh, hs, Option.bind_some, Option.bind_some, Option.bind_some] at chunk
  rw [if_neg short, u16At_eq (by omega), hk, some_bind, plus_eq (by omega), pure_bind,
    u16At_eq (by omega), hh, some_bind, plus_eq (by omega), pure_bind, u32At_eq (by omega), hs,
    some_bind]
  by_cases small : size < 8
  · rw [if_neg (by omega)] at chunk
    rw [if_pos small, levelsOf_of_none chunk]
    exact .inl rfl
  rw [if_neg small, plus_eq (by omega), pure_bind]
  by_cases beyond : bytes.length < offset + size
  · rw [if_neg (by omega)] at chunk
    rw [if_pos beyond, levelsOf_of_none chunk]
    exact .inl rfl
  rw [if_pos (by omega)] at chunk
  have headed : Chunk.IsHeaded ⟨kind, header, (bytes.drop offset).take size⟩ := by
    rw [Chunk.IsHeaded, u16At?_eq, numberAt?_part (by omega) (by omega), ← u16At?_eq, hh]
  have length : ((bytes.drop offset).take size).length = size := by
    rw [List.length_take, List.length_drop]
    omega
  have later := levelsOf_of_some (p := p) chunk
  rw [if_neg beyond, between_eq (Nat.le_add_right _ _) (by omega), pure_bind,
    Nat.add_sub_cancel_left, step_eq headed, later]
  cases Progress.step? p ⟨kind, header, (bytes.drop offset).take size⟩ with
  | none => exact .inl rfl
  | some next =>
      refine .inr ⟨(offset + size, next), rfl, ?_, ?_, ?_⟩
      · dsimp only
        omega
      · dsimp only
        omega
      · rw [Option.bind_some, List.drop_drop, length]

theorem binaryLevels_eq (few : bytes.length < 2 ^ 63) :
    binaryLevels bytes = ofOption (binaryLevels? bytes) := by
  rw [binaryLevels, u16At_eq (by decide)]
  refine bind_eq fun start found => ?_
  have near := (u16At?_bounds found).2
  refine (loop_eq (fun state : Nat × Progress => state.1 ≤ bytes.length + 2 ^ 16)
    (fun state => levelsOf (bytes.drop state.1) state.2)
    (fun state inv => advance_eq few inv state.2) (s := (start, {})) ?_).trans ?_
  · exact Nat.le_trans (Nat.le_of_lt near) (Nat.le_add_left _ _)
  rw [levelsOf]
  cases (chunks (bytes.drop start)).foldlM Progress.step? {} <;> rfl

end ClassUniverse.Manifest
