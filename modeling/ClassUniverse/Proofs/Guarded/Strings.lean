import ClassUniverse.Manifest.Binary
import ClassUniverse.Proofs.Guarded.Basic

/-!
# Numbers and strings at places

A binary manifest has numbers of two and four bytes at places, and strings of bytes and of 16-bit
units that begin with their lengths.  A place at which something is read comes from numbers of at
most 32 bits, so the places in a string do not go beyond 64 bits.
-/

namespace ClassUniverse.Manifest

open Text Guarded

variable {bytes : List UInt8} {place width n : Nat}

/-! ## Numbers -/

/-- The number of some bytes, the least significant first. -/
def ofLittleEndian (bytes : List UInt8) : Nat := bytes.foldr (fun b rest => b.toNat + rest * 256) 0

/-- The number of so many bytes at a place, when they are there. -/
def numberAt? (width : Nat) (bytes : List UInt8) (place : Nat) : Option Nat :=
  (between? bytes place (place + width)).map ofLittleEndian

def numberAt (width : Nat) (bytes : List UInt8) (place : Nat) : Guarded Nat := do
  let stop ← plus place width
  let found ← ofOption (between? bytes place stop)
  return ofLittleEndian found

def u16At (bytes : List UInt8) (place : Nat) : Guarded Nat := numberAt 2 bytes place

def u32At (bytes : List UInt8) (place : Nat) : Guarded Nat := numberAt 4 bytes place

theorem ofLittleEndian_lt (bytes : List UInt8) : ofLittleEndian bytes < 256 ^ bytes.length := by
  induction bytes with
  | nil => decide
  | cons b rest ih =>
      have small : b.toNat < 256 := b.toNat_lt
      have sum : ofLittleEndian (b :: rest) = b.toNat + ofLittleEndian rest * 256 := rfl
      rw [sum, List.length_cons, Nat.pow_succ]
      omega

theorem numberAt_eq (small : place + width < 2 ^ 64) :
    numberAt width bytes place = ofOption (numberAt? width bytes place) := by
  rw [numberAt, plus_eq small, pure_bind, map_ofOption]
  rfl

theorem numberAt?_inside (h : numberAt? width bytes place = some n) :
    place + width ≤ bytes.length ∧ n < 256 ^ width := by
  obtain ⟨found, hf, rfl⟩ := Option.map_eq_some_iff.mp h
  obtain ⟨inside, length⟩ := bounds_of_between? hf
  rw [Nat.add_sub_cancel_left] at length
  exact ⟨inside, length ▸ ofLittleEndian_lt found⟩

theorem exists_numberAt? (inside : place + width ≤ bytes.length) :
    ∃ n, numberAt? width bytes place = some n := by
  rw [numberAt?, between?_eq (Nat.le_add_right _ _) inside]
  exact ⟨_, rfl⟩

/-- A number that lies in a part of some bytes can be read in the part. -/
theorem numberAt?_part {start size : Nat} (inside : place + width ≤ size)
    (whole : start + size ≤ bytes.length) :
    numberAt? width ((bytes.drop start).take size) place =
      numberAt? width bytes (start + place) := by
  have length : ((bytes.drop start).take size).length = size := by
    rw [List.length_take, List.length_drop]
    omega
  have same : (((bytes.drop start).take size).drop place).take width =
      (bytes.drop (start + place)).take width := by
    rw [List.drop_take, List.take_take, List.drop_drop, Nat.min_eq_left (by omega)]
  rw [numberAt?, numberAt?, between?_eq (Nat.le_add_right _ _) (by omega),
    between?_eq (Nat.le_add_right _ _) (by omega), Nat.add_sub_cancel_left, Nat.add_sub_cancel_left,
    same]

theorem u16At?_eq (bytes : List UInt8) (place : Nat) :
    u16At? bytes place = numberAt? 2 bytes place := by
  have length : (bytes.drop place).length = bytes.length - place := List.length_drop
  rw [u16At?, numberAt?, between?, Nat.add_sub_cancel_left]
  generalize bytes.drop place = rest at length
  match rest with
  | [] | [_] =>
      rw [if_neg (by simp only [List.length_cons, List.length_nil] at length; omega)]
      rfl
  | a :: b :: rest =>
      rw [if_pos (by simp only [List.length_cons] at length; omega)]
      simp [ofLittleEndian]

theorem u32At?_eq (bytes : List UInt8) (place : Nat) :
    u32At? bytes place = numberAt? 4 bytes place := by
  have length : (bytes.drop place).length = bytes.length - place := List.length_drop
  rw [u32At?, numberAt?, between?, Nat.add_sub_cancel_left]
  generalize bytes.drop place = rest at length
  match rest with
  | [] | [_] | [_, _] | [_, _, _] =>
      rw [if_neg (by simp only [List.length_cons, List.length_nil] at length; omega)]
      rfl
  | a :: b :: c :: d :: rest =>
      rw [if_pos (by simp only [List.length_cons] at length; omega)]
      simp [ofLittleEndian]
      omega

theorem u16At_eq (small : place + 2 < 2 ^ 64) :
    u16At bytes place = ofOption (u16At? bytes place) := by
  rw [u16At, numberAt_eq small, u16At?_eq]

theorem u32At_eq (small : place + 4 < 2 ^ 64) :
    u32At bytes place = ofOption (u32At? bytes place) := by
  rw [u32At, numberAt_eq small, u32At?_eq]

theorem u16At?_bounds (h : u16At? bytes place = some n) : place + 2 ≤ bytes.length ∧ n < 2 ^ 16 :=
  numberAt?_inside (u16At?_eq bytes place ▸ h)

theorem u32At?_bounds (h : u32At? bytes place = some n) : place + 4 ≤ bytes.length ∧ n < 2 ^ 32 :=
  numberAt?_inside (u32At?_eq bytes place ▸ h)

theorem exists_u16At? (inside : place + 2 ≤ bytes.length) : ∃ n, u16At? bytes place = some n :=
  u16At?_eq bytes place ▸ exists_numberAt? inside

theorem exists_u32At? (inside : place + 4 ≤ bytes.length) : ∃ n, u32At? bytes place = some n :=
  u32At?_eq bytes place ▸ exists_numberAt? inside

theorem slice?_eq (bytes : List UInt8) (start length : Nat) :
    slice? bytes start length = between? bytes start (start + length) := by
  simp only [slice?, between?, Nat.add_sub_cancel_left, List.length_take, List.length_drop]
  by_cases inside : start + length ≤ bytes.length
  · rw [if_pos (by omega), if_pos (by omega)]
  · rw [if_neg (by omega), if_neg (by omega)]

/-! ## Strings of bytes -/

/-- A length of one or two bytes, and the place behind it. -/
def shortLength (bytes : List UInt8) (place : Nat) : Guarded (Nat × Nat) := do
  let first ← ofOption bytes[place]?
  if first.toNat < 0x80 then
    let next ← plus place 1
    return (first.toNat, next)
  else
    let behind ← plus place 1
    let second ← ofOption bytes[behind]?
    let next ← plus place 2
    return ((first.toNat - 0x80) * 256 + second.toNat, next)

def byteString (bytes : List UInt8) (place : Nat) : Guarded String := do
  let (_, next) ← shortLength bytes place
  let (length, start) ← shortLength bytes next
  let stop ← plus start length
  let found ← ofOption (between? bytes start stop)
  return String.ofList (decodeLossy found)

theorem shortLength_eq (small : place + 2 < 2 ^ 64) :
    shortLength bytes place = ofOption (shortLength? bytes place) := by
  have first : bytes[place]? = (bytes.drop place)[0]? := by rw [List.getElem?_drop, Nat.add_zero]
  have second : bytes[place + 1]? = (bytes.drop place)[1]? := by rw [List.getElem?_drop]
  have one : plus place 1 = pure (place + 1) := plus_eq (by omega)
  unfold shortLength shortLength?
  rw [first]
  cases rest : bytes.drop place with
  | nil => rfl
  | cons a rest' =>
      rw [List.getElem?_cons_zero, some_bind, one, pure_bind, pure_bind, second, rest]
      dsimp only
      split
      · rfl
      · rw [plus_eq small]
        cases rest' <;> rfl

theorem shortLength?_bounds {length next : Nat}
    (h : shortLength? bytes place = some (length, next)) : length < 2 ^ 16 ∧ next ≤ place + 2 := by
  unfold shortLength? at h
  split at h
  · cases h
  · rename_i first rest _
    have hf := first.toNat_lt
    split at h
    · obtain ⟨rfl, rfl⟩ := Prod.mk.inj (Option.some.inj h)
      omega
    · split at h
      · cases h
      · rename_i second _ _
        have hs := second.toNat_lt
        obtain ⟨rfl, rfl⟩ := Prod.mk.inj (Option.some.inj h)
        omega

theorem byteString_eq (small : place < 2 ^ 63) :
    byteString bytes place = ofOption (byteString? bytes place) := by
  rw [byteString, shortLength_eq (by omega)]
  refine bind_eq fun ⟨_, next⟩ found => ?_
  have near := (shortLength?_bounds found).2
  dsimp only
  rw [shortLength_eq (by omega)]
  refine bind_eq fun ⟨length, start⟩ found => ?_
  have bounds := shortLength?_bounds found
  dsimp only
  rw [plus_eq (by omega), pure_bind, slice?_eq]
  cases between? bytes start (start + length) <;> rfl

/-! ## Strings of units -/

/-- So many units from an index on, each at its own place. -/
def unitsFrom (bytes : List UInt8) (start : Nat) : (remaining index : Nat) → Guarded (List Nat)
  | 0, _ => pure []
  | remaining + 1, index => do
      let row ← times index 2
      let place ← plus start row
      let unit ← u16At bytes place
      let rest ← unitsFrom bytes start remaining (index + 1)
      return unit :: rest

def unitString (bytes : List UInt8) (place : Nat) : Guarded String := do
  let first ← u16At bytes place
  let next ← plus place 2
  let (length, start) ←
    if first < 0x8000 then pure (first, next)
    else do
      let second ← u16At bytes next
      let start ← plus next 2
      pure ((first - 0x8000) * 65536 + second, start)
  let found ← unitsFrom bytes start length 0
  return String.ofList (decodeUnits found)

/-- A slice of units begins with the unit at its place. -/
theorem map_units_slice? (bytes : List UInt8) (start length : Nat) :
    (slice? bytes start ((length + 1) * 2)).map units =
      (u16At? bytes start).bind fun unit =>
        (slice? bytes (start + 2) (length * 2)).map fun rest => unit :: units rest := by
  rw [slice?_eq, slice?_eq]
  by_cases inside : start + (length + 1) * 2 ≤ bytes.length
  · obtain ⟨a, b, rest, parts⟩ : ∃ a b rest, bytes.drop start = a :: b :: rest := by
      have long : 2 ≤ (bytes.drop start).length := by
        rw [List.length_drop]
        omega
      match bytes.drop start, long with
      | a :: b :: rest, _ => exact ⟨a, b, rest, rfl⟩
    have later : bytes.drop (start + 2) = rest := by
      rw [← List.drop_drop, parts]
      rfl
    rw [between?_eq (Nat.le_add_right _ _) inside, between?_eq (by omega) (by omega), parts, later,
      u16At?, parts, Nat.add_sub_cancel_left, Nat.add_sub_cancel_left, Nat.succ_mul]
    rfl
  · have beyond : between? bytes start (start + (length + 1) * 2) = none :=
      if_neg fun h => inside h.2
    have beyond' : between? bytes (start + 2) (start + 2 + length * 2) = none :=
      if_neg fun h => inside (by omega)
    rw [beyond, beyond']
    cases u16At? bytes start <;> rfl

theorem unitsFrom_eq {start remaining index : Nat}
    (small : start + (index + remaining) * 2 < 2 ^ 64) (inside : start + index * 2 ≤ bytes.length) :
    unitsFrom bytes start remaining index =
      ofOption ((slice? bytes (start + index * 2) (remaining * 2)).map units) := by
  induction remaining generalizing index with
  | zero =>
      rw [unitsFrom, slice?_eq, Nat.zero_mul, Nat.add_zero, between?_eq (Nat.le_refl _) inside,
        Nat.sub_self]
      rfl
  | succ remaining ih =>
      rw [unitsFrom, times_eq (by omega), pure_bind, plus_eq (by omega), pure_bind,
        u16At_eq (by omega), map_units_slice?]
      refine bind_eq fun unit found => ?_
      have there := (u16At?_bounds found).1
      have next : start + (index + 1) * 2 = start + index * 2 + 2 := by omega
      rw [ih (by omega) (by omega), next, map_ofOption, Option.map_map]
      rfl

theorem unitString_eq (small : place < 2 ^ 63) :
    unitString bytes place = ofOption (unitString? bytes place) := by
  rw [unitString, u16At_eq (by omega)]
  refine bind_eq fun first found => ?_
  have inside := (u16At?_bounds found).1
  have narrow := (u16At?_bounds found).2
  have units (length start : Nat) (few : length < 2 ^ 32) (near : start ≤ place + 4)
      (within : start ≤ bytes.length) :
      (unitsFrom bytes start length 0 >>= fun found => pure (String.ofList (decodeUnits found))) =
        ofOption ((slice? bytes start (length * 2)).bind fun found =>
          some (String.ofList (decodeUnits (units found)))) := by
    rw [unitsFrom_eq (by omega) (by omega), Nat.zero_mul, Nat.add_zero, map_ofOption]
    cases slice? bytes start (length * 2) <;> rfl
  rw [plus_eq (by omega), pure_bind]
  split
  · exact units first (place + 2) (by omega) (by omega) inside
  · rw [u16At_eq (by omega)]
    cases more : u16At? bytes (place + 2) with
    | none => rfl
    | some second =>
        have inside' := (u16At?_bounds more).1
        have narrow' := (u16At?_bounds more).2
        have few : (first - 0x8000) * 65536 + second < 2 ^ 32 := by omega
        rw [some_bind, plus_eq (by omega), pure_bind, pure_bind]
        simp only [Option.bind_eq_bind, Option.bind_some, Option.pure_def]
        -- The kernel would compute the difference step by step.
        generalize (first - 0x8000) * 65536 + second = length at few ⊢
        exact units length (place + 4) few (Nat.le_refl _) inside'

end ClassUniverse.Manifest
