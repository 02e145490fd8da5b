import ClassUniverse.Manifest.Parse
import ClassUniverse.Proofs.Guarded.Chunks
import ClassUniverse.Proofs.Manifest.Reading
import ClassUniverse.Proofs.Manifest.RoundTrip
import Mathlib.Logic.Relation
import Mathlib.Order.Bounds.Basic

/-!
# Broken-off binary manifests

The chunks of a binary manifest follow each other from the end of its head on, each as long as it
says.  A manifest that is broken off somewhere is read as far as its chunks are wholly there: the
same levels are found as if it had been broken off at the last boundary between chunks.
-/

namespace ClassUniverse.Manifest

variable {bytes : List UInt8} {place stop n : Nat} {c : Chunk} {cs front : List Chunk}

/-! ## Chunks at the front -/

theorem chunks_of_none (missing : Chunk.read? bytes = none) : chunks bytes = [] := by
  rw [chunks]
  split
  · rfl
  · rename_i found
    cases missing.symm.trans found

theorem chunks_of_some (found : Chunk.read? bytes = some c) :
    chunks bytes = c :: chunks (bytes.drop c.bytes.length) := by
  rw [chunks]
  split
  · rename_i missing
    cases missing.symm.trans found
  · rename_i first
    cases first.symm.trans found
    rfl

/-- The chunks at the front of a list of chunks that have room in so many bytes. -/
def fitting : (room : Nat) → List Chunk → List Chunk
  | _, [] => []
  | room, c :: rest =>
      if c.bytes.length ≤ room then c :: fitting (room - c.bytes.length) rest else []

theorem fitting_of_fits {room : Nat} (fits : c.bytes.length ≤ room) (cs : List Chunk) :
    fitting room (c :: cs) = c :: fitting (room - c.bytes.length) cs := by
  rw [fitting, if_pos fits]

theorem fitting_of_cut {room : Nat} (cut : room < c.bytes.length) (cs : List Chunk) :
    fitting room (c :: cs) = [] := by
  rw [fitting, if_neg (Nat.not_le.mpr cut)]

theorem fitting_prefix (room : Nat) (cs : List Chunk) : fitting room cs <+: cs := by
  induction cs generalizing room with
  | nil => exact List.prefix_refl []
  | cons c cs ih =>
      rw [fitting]
      split
      · exact List.cons_prefix_cons.mpr ⟨rfl, ih _⟩
      · exact List.nil_prefix

/-- The number of bytes in some chunks. -/
def extent (cs : List Chunk) : Nat := (cs.map fun c => c.bytes.length).sum

theorem extent_cons (c : Chunk) (cs : List Chunk) :
    extent (c :: cs) = c.bytes.length + extent cs := rfl

theorem extent_fitting_le (room : Nat) (cs : List Chunk) : extent (fitting room cs) ≤ room := by
  induction cs generalizing room with
  | nil => exact Nat.zero_le room
  | cons c cs ih =>
      rw [fitting]
      split
      · have rest := ih (room - c.bytes.length)
        rw [extent_cons]
        omega
      · exact Nat.zero_le room

/-- What has room has room in just the bytes that it takes. -/
theorem fitting_extent (room : Nat) (cs : List Chunk) :
    fitting (extent (fitting room cs)) cs = fitting room cs := by
  induction cs generalizing room with
  | nil => rfl
  | cons c cs ih =>
      by_cases fits : c.bytes.length ≤ room
      · rw [fitting_of_fits fits, extent_cons, fitting_of_fits (Nat.le_add_right _ _),
          Nat.add_sub_cancel_left, ih]
      · have cut : 0 < c.bytes.length := by omega
        rw [fitting_of_cut (Nat.not_le.mp fits)]
        exact fitting_of_cut cut cs

/-- No front of the chunks that has room is longer than what has room. -/
theorem extent_le_of_prefix {room : Nat} (isFront : front <+: cs) (fits : extent front ≤ room) :
    extent front ≤ extent (fitting room cs) := by
  induction front generalizing cs room with
  | nil => exact Nat.zero_le _
  | cons c front ih =>
      obtain ⟨rest, rfl⟩ := isFront
      rw [extent_cons] at fits
      have left : extent front ≤ room - c.bytes.length := by omega
      have later := ih (List.prefix_append front rest) left
      rw [List.cons_append, fitting_of_fits (by omega), extent_cons, extent_cons]
      omega

/-! ## Broken-off chains -/

theorem length_of_read? (found : Chunk.read? bytes = some c) :
    8 ≤ c.bytes.length ∧ c.bytes.length ≤ bytes.length := by
  unfold Chunk.read? at found
  split at found
  next size _ _ _ =>
    split at found
    next sized =>
      cases found
      rw [List.length_take]
      omega
    next => cases found
  next => cases found

theorem u16At?_take (inside : place + 2 ≤ n) (within : n ≤ bytes.length) :
    u16At? (bytes.take n) place = u16At? bytes place := by
  have whole : 0 + n ≤ bytes.length := by omega
  have same := numberAt?_part inside whole
  rwa [List.drop_zero, Nat.zero_add, ← u16At?_eq, ← u16At?_eq] at same

theorem u32At?_take (inside : place + 4 ≤ n) (within : n ≤ bytes.length) :
    u32At? (bytes.take n) place = u32At? bytes place := by
  have whole : 0 + n ≤ bytes.length := by omega
  have same := numberAt?_part inside whole
  rwa [List.drop_zero, Nat.zero_add, ← u32At?_eq, ← u32At?_eq] at same

theorem filter_of_fits (fits : c.bytes.length ≤ n) :
    (some c).filter (fun c => c.bytes.length ≤ n) = some c :=
  if_pos (decide_eq_true fits)

theorem filter_of_cut (cut : n < c.bytes.length) :
    (some c).filter (fun c => c.bytes.length ≤ n) = none :=
  if_neg fun fits => Nat.not_le.mpr cut (of_decide_eq_true fits)

/-- The first chunk of what is left of some bytes is their first chunk, if that is still whole. -/
theorem read?_take (bytes : List UInt8) (n : Nat) :
    Chunk.read? (bytes.take n) = (Chunk.read? bytes).filter fun c => c.bytes.length ≤ n := by
  by_cases within : n ≤ bytes.length
  · by_cases front : 8 ≤ n
    · have length : (bytes.take n).length = n := List.length_take_of_le within
      unfold Chunk.read?
      rw [u16At?_take (by omega) within, u16At?_take (by omega) within,
        u32At?_take (by omega) within, length]
      split
      next kind header size _ _ _ =>
        by_cases sized : 8 ≤ size ∧ size ≤ bytes.length
        · have whole : (bytes.take size).length = size := List.length_take_of_le sized.2
          rw [if_pos sized]
          by_cases fits : size ≤ n
          · rw [if_pos ⟨sized.1, fits⟩, List.take_take, Nat.min_eq_left fits]
            exact (filter_of_fits (whole.trans_le fits)).symm
          · rw [if_neg fun h => fits h.2]
            exact (filter_of_cut ((Nat.not_le.mp fits).trans_eq whole.symm)).symm
        · rw [if_neg sized, if_neg fun h => sized ⟨h.1, by omega⟩]
          rfl
      next => rfl
    · have short : (bytes.take n).length < 8 := by
        rw [List.length_take]
        omega
      rw [Image.read?_of_short short]
      cases found : Chunk.read? bytes with
      | none => rfl
      | some c =>
          have long := (length_of_read? found).1
          exact (filter_of_cut (by omega)).symm
  · rw [List.take_of_length_le (by omega)]
    cases found : Chunk.read? bytes with
    | none => rfl
    | some c =>
        have inside := (length_of_read? found).2
        exact (filter_of_fits (by omega)).symm

theorem chunks_take (bytes : List UInt8) (n : Nat) :
    chunks (bytes.take n) = fitting n (chunks bytes) := by
  induction bytes using chunks.induct generalizing n with
  | case1 bytes missing =>
      have missing' : Chunk.read? (bytes.take n) = none := by
        rw [read?_take, missing]
        rfl
      rw [chunks_of_none missing, chunks_of_none missing']
      rfl
  | case2 bytes c found ih =>
      have left := read?_take bytes n
      rw [found] at left
      rw [chunks_of_some found]
      by_cases fits : c.bytes.length ≤ n
      · rw [filter_of_fits fits] at left
        rw [chunks_of_some left, fitting_of_fits fits, List.drop_take, ih]
      · rw [filter_of_cut (Nat.not_le.mp fits)] at left
        rw [chunks_of_none left, fitting_of_cut (Nat.not_le.mp fits)]

/-! ## Boundaries -/

/-- Whether a chunk that is well sized leads from one place in some bytes to another. -/
def Spans (bytes : List UInt8) (place stop : Nat) : Prop :=
  ∃ size, u32At? bytes (place + 4) = some size ∧ 8 ≤ size ∧ stop = place + size ∧
    stop ≤ bytes.length

/-- Whether a place in a binary manifest is reached from the end of its head by well-sized chunks.
-/
def IsBoundary (bytes : List UInt8) (place : Nat) : Prop :=
  ∃ start, u16At? bytes 2 = some start ∧ Relation.ReflTransGen (Spans bytes) start place

theorem spans_iff : Spans bytes place stop ↔
    ∃ c, Chunk.read? (bytes.drop place) = some c ∧ stop = place + c.bytes.length := by
  constructor
  · rintro ⟨size, sized, long, rfl, inside⟩
    obtain ⟨kind, hk⟩ : ∃ n, u16At? bytes place = some n := exists_u16At? (by omega)
    obtain ⟨header, hh⟩ : ∃ n, u16At? bytes (place + 2) = some n := exists_u16At? (by omega)
    refine ⟨⟨kind, header, (bytes.drop place).take size⟩, ?_, ?_⟩
    · rw [read?_drop, hk, hh, sized]
      exact if_pos ⟨long, inside⟩
    · rw [List.length_take, List.length_drop]
      omega
  · rintro ⟨c, found, rfl⟩
    rw [read?_drop] at found
    obtain ⟨kind, -, found⟩ := Option.bind_eq_some_iff.mp found
    obtain ⟨header, -, found⟩ := Option.bind_eq_some_iff.mp found
    obtain ⟨size, sized, found⟩ := Option.bind_eq_some_iff.mp found
    split at found
    next fits =>
      cases found
      have length : ((bytes.drop place).take size).length = size := by
        rw [List.length_take, List.length_drop]
        omega
      rw [length]
      exact ⟨size, sized, fits.1, rfl, fits.2⟩
    next => cases found

/-- The places that chunks lead to are the ends of the fronts of the chain. -/
theorem reaches_iff : Relation.ReflTransGen (Spans bytes) place stop ↔
    ∃ front, front <+: chunks (bytes.drop place) ∧ stop = place + extent front := by
  constructor
  · intro h
    induction h using Relation.ReflTransGen.head_induction_on with
    | refl => exact ⟨[], List.nil_prefix, rfl⟩
    | head first _ ih =>
        obtain ⟨c, found, rfl⟩ := spans_iff.mp first
        obtain ⟨front, isFront, rfl⟩ := ih
        refine ⟨c :: front, ?_, by rw [extent_cons, Nat.add_assoc]⟩
        rw [chunks_of_some found, List.drop_drop]
        exact List.cons_prefix_cons.mpr ⟨rfl, isFront⟩
  · rintro ⟨front, isFront, rfl⟩
    induction front generalizing place with
    | nil => exact .refl
    | cons c front ih =>
        cases found : Chunk.read? (bytes.drop place) with
        | none =>
            rw [chunks_of_none found] at isFront
            cases List.prefix_nil.mp isFront
        | some first =>
            rw [chunks_of_some found, List.drop_drop] at isFront
            obtain ⟨rfl, isFront⟩ := List.cons_prefix_cons.mp isFront
            rw [extent_cons, ← Nat.add_assoc]
            exact .head (spans_iff.mpr ⟨c, found, rfl⟩) (ih isFront)

/-- The last boundary that is not behind a place stands behind the chunks that have room before the
place. -/
theorem isGreatest_boundary {start : Nat} (head : u16At? bytes 2 = some start)
    (behind : start ≤ n) :
    IsGreatest {m | IsBoundary bytes m ∧ m ≤ n}
      (start + extent (fitting (n - start) (chunks (bytes.drop start)))) := by
  have le := extent_fitting_le (n - start) (chunks (bytes.drop start))
  refine ⟨⟨⟨start, head, reaches_iff.mpr ⟨_, fitting_prefix _ _, rfl⟩⟩, by omega⟩, ?_⟩
  rintro m ⟨⟨start', head', reached⟩, before⟩
  cases head.symm.trans head'
  obtain ⟨front, isFront, rfl⟩ := reaches_iff.mp reached
  have fits : extent front ≤ n - start := by omega
  have longest := extent_le_of_prefix isFront fits
  omega

/-! ## Broken-off manifests -/

/-- The levels that some chunks leave; a broken table leaves none. -/
def levelsAfter (cs : List Chunk) : ManifestLevels :=
  ((cs.foldlM Progress.step? {}).map Progress.levels).getD {}

theorem parse_take_of_long {start : Nat} (binary : isBinary bytes = true)
    (head : u16At? bytes 2 = some start) (long : 4 ≤ n) (within : n ≤ bytes.length) :
    ManifestLevels.parse (bytes.take n) =
      levelsAfter (fitting (n - start) (chunks (bytes.drop start))) := by
  have mark : isBinary (bytes.take n) = true := by
    unfold isBinary at binary ⊢
    rwa [u16At?_take (by omega) within]
  have head' : u16At? (bytes.take n) 2 = some start := (u16At?_take long within).trans head
  unfold ManifestLevels.parse
  rw [if_pos mark]
  unfold binaryLevels? levelsAfter
  rw [head', ← chunks_take, ← List.drop_take, Option.bind_eq_bind, Option.bind_some]
  cases (chunks ((bytes.take n).drop start)).foldlM Progress.step? {} <;> rfl

theorem first_of_isBinary (binary : isBinary bytes = true) : ∃ rest, bytes = 0x03 :: rest := by
  unfold isBinary u16At? at binary
  match bytes with
  | [] | [_] => cases binary
  | a :: b :: rest =>
      have sum : a.toNat + b.toNat * 256 = 3 := Option.some.inj (eq_of_beq binary)
      have first : a = 0x03 := UInt8.toNat_inj.mp (by omega : a.toNat = 3)
      exact ⟨b :: rest, by rw [first]⟩

/-- Less than a head names no levels, be it a broken binary manifest or a plain one. -/
theorem parse_take_of_short (binary : isBinary bytes = true) (within : n ≤ bytes.length)
    (short : n < 4) : ManifestLevels.parse (bytes.take n) = {} := by
  unfold ManifestLevels.parse
  by_cases mark : isBinary (bytes.take n) = true
  · have headless : u16At? (bytes.take n) 2 = none := by
      cases found : u16At? (bytes.take n) 2 with
      | none => rfl
      | some start =>
          have inside := (u16At?_bounds found).1
          rw [List.length_take] at inside
          omega
    rw [if_pos mark, binaryLevels?, headless]
    rfl
  · have few : n < 2 := by
      by_contra enough
      unfold isBinary at binary mark
      rw [u16At?_take (by omega) within] at mark
      exact mark binary
    obtain ⟨rest, rfl⟩ := first_of_isBinary binary
    rw [if_neg mark]
    match n with
    | 0 => rfl
    | 1 =>
        rw [List.take_succ_cons, List.take_zero]
        decide

/-- A binary manifest that is broken off behind its head is read as if it had been broken off at the
last boundary before.  Before the end of the first chunk it names no levels; else it names those that
the chunks leave which are wholly there. -/
theorem parse_broken_off (binary : isBinary bytes = true) (long : 4 ≤ n)
    (within : n ≤ bytes.length) :
    ∃ start, u16At? bytes 2 = some start ∧
      (start ≤ n → ∃ place, IsGreatest {m | IsBoundary bytes m ∧ m ≤ n} place ∧
        ManifestLevels.parse (bytes.take n) = ManifestLevels.parse (bytes.take place)) ∧
      ((∀ stop, Spans bytes start stop → n < stop) →
        ManifestLevels.parse (bytes.take n) = {}) ∧
      ManifestLevels.parse (bytes.take n) =
        levelsAfter (fitting (n - start) (chunks (bytes.drop start))) := by
  have room : 2 + 2 ≤ bytes.length := by omega
  obtain ⟨start, head⟩ := exists_u16At? room
  have cut := parse_take_of_long binary head long within
  have empty (early : ∀ stop, Spans bytes start stop → n < stop) :
      ManifestLevels.parse (bytes.take n) = {} := by
    rw [cut]
    cases found : Chunk.read? (bytes.drop start) with
    | none =>
        rw [chunks_of_none found]
        rfl
    | some c =>
        have beyond := early _ (spans_iff.mpr ⟨c, found, rfl⟩)
        have length := (length_of_read? found).1
        rw [chunks_of_some found, fitting_of_cut (by omega)]
        rfl
  refine ⟨start, head, fun behind => ⟨_, isGreatest_boundary head behind, ?_⟩, empty, cut⟩
  have last := isGreatest_boundary head behind
  generalize place : start + extent (fitting (n - start) (chunks (bytes.drop start))) = m at last
  by_cases far : 4 ≤ m
  · have room : m - start = extent (fitting (n - start) (chunks (bytes.drop start))) := by
      rw [← place, Nat.add_sub_cancel_left]
    rw [cut, parse_take_of_long binary head far (last.1.2.trans within), room, fitting_extent]
  · rw [parse_take_of_short binary (last.1.2.trans within) (by omega)]
    -- A boundary within the head can only be the start, so no chunk ends before the place.
    refine empty fun stop spans => ?_
    by_contra early
    have le := last.2 ⟨⟨start, head, .single spans⟩, Nat.not_lt.mp early⟩
    obtain ⟨size, -, big, rfl, -⟩ := spans
    omega

/-- An image that is broken off in its last element. -/
theorem parse_broken_off_smallImage :
    (isBinary smallImage.bytes = true ∧ 4 ≤ 200 ∧ 200 ≤ smallImage.bytes.length) ∧
    (∃ start, u16At? smallImage.bytes 2 = some start ∧
      (start ≤ 200 → ∃ place, IsGreatest {m | IsBoundary smallImage.bytes m ∧ m ≤ 200} place ∧
        ManifestLevels.parse (smallImage.bytes.take 200) =
          ManifestLevels.parse (smallImage.bytes.take place)) ∧
      ((∀ stop, Spans smallImage.bytes start stop → 200 < stop) →
        ManifestLevels.parse (smallImage.bytes.take 200) = {}) ∧
      ManifestLevels.parse (smallImage.bytes.take 200) =
        levelsAfter (fitting (200 - start) (chunks (smallImage.bytes.drop start)))) ∧
    ManifestLevels.parse (smallImage.bytes.take 200) = ⟨none, none, some 35⟩ := by
  have binary : isBinary smallImage.bytes = true := by decide +kernel
  have within : 200 ≤ smallImage.bytes.length := by decide +kernel
  exact ⟨⟨binary, by decide, within⟩, parse_broken_off binary (by decide) within, by decide +kernel⟩

end ClassUniverse.Manifest
