import ClassUniverse.Text.Utf8
import Mathlib.Algebra.Ring.Nat
import Mathlib.Tactic.SplitIfs

/-!
# Texts of ASCII characters

The characters of a text may be broken, and are then read as replacement characters.  No broken
character and no character of several bytes or units is read as one of ASCII, so bytes and units
are read as a text of ASCII characters exactly where they are the numbers of these.
-/

namespace ClassUniverse

namespace Text

/-! ## Broken characters -/

variable {p q : Pending} {b : UInt8} {c : Char} {bytes : List UInt8} {units : List Nat}
  {s : List Char}

theorem toNat_ofNat_of_valid {n : Nat} (h : n < 0xD800 ∨ 0xDFFF < n ∧ n < 0x110000) :
    (Char.ofNat n).toNat = n := by
  have valid : n.isValidChar := h
  rw [Char.ofNat, dif_pos valid]
  rfl

/-- The value of a character whose owed bytes are all as small as can be. -/
def Pending.least (p : Pending) : Nat := (p.value * 64 + (p.low.toNat - 0x80)) * 64 ^ (p.owed - 1)

/-- The value of a character whose owed bytes are all as great as can be. -/
def Pending.greatest (p : Pending) : Nat :=
  (p.value * 64 + (p.high.toNat - 0x80) + 1) * 64 ^ (p.owed - 1) - 1

/-- A character that is not in ASCII and not in the gap of the halves, whatever bytes follow. -/
structure Pending.IsHigh (p : Pending) : Prop where
  owed : 1 ≤ p.owed
  low : 0x80 ≤ p.low.toNat
  high : p.high.toNat ≤ 0xBF
  least : 0x80 ≤ p.least
  greatest : p.greatest < 0xD800 ∨ 0xDFFF < p.least ∧ p.greatest < 0x110000

theorem isHigh_of_firstByte (h : firstByte b = .pending p) : p.IsHigh := by
  have bound := b.toNat_lt
  unfold firstByte at h
  simp only at h
  split_ifs at h with h1 h2 h3 h4 h5 h6 h7 h8 h9 <;> cases h <;>
    refine ⟨by simp, by simp, by simp, ?_, ?_⟩ <;>
    simp [Pending.least, Pending.greatest] <;> omega

/-- A further byte that is not the last narrows down what the character can be. -/
theorem Pending.IsHigh.narrow (h : p.IsHigh) (more : 1 < p.owed) (above : p.low ≤ b)
    (below : b ≤ p.high) :
    (Pending.mk (p.owed - 1) (p.value * 64 + (b.toNat - 0x80)) 0x80 0xBF).IsHigh := by
  have low : p.low.toNat ≤ b.toNat := UInt8.le_iff_toNat_le.mp above
  have high : b.toNat ≤ p.high.toNat := UInt8.le_iff_toNat_le.mp below
  have unit : 64 ^ (p.owed - 1) = 64 * 64 ^ (p.owed - 1 - 1) := by
    rw [← Nat.pow_succ', Nat.succ_eq_add_one, Nat.sub_add_cancel (by omega)]
  have least : p.least ≤
      (Pending.mk (p.owed - 1) (p.value * 64 + (b.toNat - 0x80)) 0x80 0xBF).least := by
    unfold Pending.least
    rw [unit, ← Nat.mul_assoc]
    refine Nat.mul_le_mul_right _ ?_
    simp only [UInt8.reduceToNat]
    omega
  have greatest :
      (Pending.mk (p.owed - 1) (p.value * 64 + (b.toNat - 0x80)) 0x80 0xBF).greatest ≤
        p.greatest := by
    unfold Pending.greatest
    rw [unit, ← Nat.mul_assoc]
    refine Nat.sub_le_sub_right (Nat.mul_le_mul_right _ ?_) 1
    simp only [UInt8.reduceToNat]
    omega
  have bounds := h.greatest
  refine ⟨Nat.le_sub_of_add_le more, by simp, by simp, Nat.le_trans h.least least, ?_⟩
  omega

/-- What a further byte does to such a character: it ends above ASCII or stays such a one. -/
theorem Pending.IsHigh.next (h : p.IsHigh) (r : Char ⊕ Pending) (hr : p.next b = some r) :
    match r with
    | .inl c => 0x7F < c.toNat
    | .inr q => q.IsHigh := by
  unfold Pending.next at hr
  split at hr
  next inside =>
    split at hr
    next last =>
      cases hr
      have owed : p.owed = 1 := Nat.le_antisymm last h.owed
      have low : p.low.toNat ≤ b.toNat := UInt8.le_iff_toNat_le.mp inside.1
      have high : b.toNat ≤ p.high.toNat := UInt8.le_iff_toNat_le.mp inside.2
      obtain ⟨-, hlow, hhigh, hleast, hgreatest⟩ := h
      unfold Pending.least at hleast hgreatest
      unfold Pending.greatest at hgreatest
      rw [owed, Nat.sub_self, Nat.pow_zero, Nat.mul_one] at hleast hgreatest
      rw [Nat.mul_one] at hgreatest
      have valid : p.value * 64 + (b.toNat - 0x80) < 0xD800 ∨
          0xDFFF < p.value * 64 + (b.toNat - 0x80) ∧
            p.value * 64 + (b.toNat - 0x80) < 0x110000 := by omega
      dsimp only
      rw [toNat_ofNat_of_valid valid]
      omega
    next more =>
      cases hr
      exact h.narrow (Nat.not_le.mp more) inside.1 inside.2
  next => cases hr

theorem replacement_high : 0x7F < replacement.toNat := by decide

theorem decodeFrom_isHigh (h : p.IsHigh) (bytes : List UInt8) :
    ∃ c rest, decodeFrom (some p) bytes = c :: rest ∧ 0x7F < c.toNat := by
  induction bytes generalizing p with
  | nil => exact ⟨replacement, [], rfl, replacement_high⟩
  | cons b bytes ih =>
      rw [decodeFrom]
      cases hr : p.next b with
      | none => exact ⟨replacement, _, rfl, replacement_high⟩
      | some r =>
          have next := h.next r hr
          cases r with
          | inl c => exact ⟨c, _, rfl, next⟩
          | inr q => exact ih next

/-! ## Texts of ASCII characters -/

/-- Whether a text is nothing but ASCII characters. -/
def IsAscii (s : List Char) : Prop := ∀ c ∈ s, c.toNat ≤ 0x7F

instance (s : List Char) : Decidable (IsAscii s) :=
  List.decidableBAll _ _

theorem not_isAscii_cons (h : 0x7F < c.toNat) : ¬ IsAscii (c :: s) :=
  fun ascii => absurd (ascii c List.mem_cons_self) (Nat.not_le.mpr h)

theorem IsAscii.tail (h : IsAscii (c :: s)) : IsAscii s :=
  fun d hd => h d (List.mem_cons_of_mem c hd)

theorem IsAscii.append {t : List Char} (hs : IsAscii s) (ht : IsAscii t) : IsAscii (s ++ t) :=
  List.forall_mem_append.mpr ⟨hs, ht⟩

theorem broken_iff {rest : List Char} {n : Nat} {ns : List Nat} (ascii : IsAscii s)
    (character : 0x7F < c.toNat) (unit : 0x7F < n) :
    c :: rest = s ↔ n :: ns = s.map Char.toNat := by
  constructor
  · rintro rfl
    exact absurd ascii (not_isAscii_cons character)
  · intro same
    cases s with
    | nil => cases same
    | cons d s =>
        rw [List.map_cons, List.cons.injEq] at same
        exact absurd (ascii d List.mem_cons_self) (Nat.not_le.mpr (same.1 ▸ unit))

theorem whole_iff {rest : List Char} {n : Nat} {ns : List Nat} (ascii : IsAscii s)
    (valid : n < 0xD800 ∨ 0xDFFF < n ∧ n < 0x110000)
    (rests : ∀ s, IsAscii s → (rest = s ↔ ns = s.map Char.toNat)) :
    Char.ofNat n :: rest = s ↔ n :: ns = s.map Char.toNat := by
  cases s with
  | nil => simp
  | cons c s =>
      rw [List.map_cons, List.cons.injEq, List.cons.injEq, rests s ascii.tail, ← Char.toNat_inj,
        toNat_ofNat_of_valid valid]

theorem not_single (h : ∀ c, firstByte b ≠ .character c) : 0x7F < b.toNat := by
  refine Nat.lt_of_not_le fun single => h (Char.ofNat b.toNat) ?_
  unfold firstByte
  exact if_pos single

/-- Bytes are read as ASCII characters exactly where they are the numbers of these. -/
theorem decodeLossy_eq_iff (ascii : IsAscii s) :
    decodeLossy bytes = s ↔ bytes.map UInt8.toNat = s.map Char.toNat := by
  unfold decodeLossy
  induction bytes generalizing s with
  | nil => simp [decodeFrom, eq_comm]
  | cons b bytes ih =>
      rw [List.map_cons, decodeFrom]
      cases first : firstByte b with
      | character c =>
          have single : b.toNat ≤ 0x7F ∧ c = Char.ofNat b.toNat := by
            unfold firstByte at first
            simp only at first
            split_ifs at first with small
            exact ⟨small, (FirstByte.character.inj first).symm⟩
          rw [single.2]
          exact whole_iff ascii (.inl (by omega)) fun s ascii => ih ascii
      | pending p =>
          obtain ⟨c, rest, decoded, high⟩ := decodeFrom_isHigh (isHigh_of_firstByte first) bytes
          dsimp only
          rw [decoded]
          exact broken_iff ascii high (not_single fun c => by simp [first])
      | invalid => exact broken_iff ascii replacement_high (not_single fun c => by simp [first])

theorem high_of_half {n : Nat} (h : (isHighHalf n || isLowHalf n) = true) : 0x7F < n := by
  simp only [isHighHalf, isLowHalf, Bool.or_eq_true, Bool.and_eq_true, decide_eq_true_iff] at h
  omega

theorem valid_of_whole {n : Nat} (small : n < 0x10000)
    (h : ¬ (isHighHalf n || isLowHalf n) = true) : n < 0xD800 ∨ 0xDFFF < n ∧ n < 0x110000 := by
  simp only [isHighHalf, isLowHalf, Bool.or_eq_true, Bool.and_eq_true, decide_eq_true_iff] at h
  omega

/-- Units are read as ASCII characters exactly where they are the numbers of these. -/
theorem decodeUnits_eq_iff (small : ∀ n ∈ units, n < 0x10000) (ascii : IsAscii s) :
    decodeUnits units = s ↔ units = s.map Char.toNat := by
  induction units using decodeUnits.induct generalizing s with
  | case1 => simp [decodeUnits, eq_comm]
  | case2 unit half =>
      rw [decodeUnits, if_pos half]
      exact broken_iff ascii replacement_high (high_of_half half)
  | case3 unit whole =>
      rw [decodeUnits, if_neg whole]
      have rests (s : List Char) (_ : IsAscii s) : [] = s ↔ [] = s.map Char.toNat := by
        simp [eq_comm]
      exact whole_iff ascii (valid_of_whole (small unit List.mem_cons_self) whole) rests
  | case4 unit next rest high low ih =>
      rw [decodeUnits, if_pos high, if_pos low]
      refine broken_iff ascii ?_ (high_of_half (by simp [high]))
      simp only [isHighHalf, isLowHalf, Bool.and_eq_true, decide_eq_true_iff] at high low
      rw [toNat_ofNat_of_valid (.inr (by omega))]
      omega
  | case5 unit next rest high low ih =>
      rw [decodeUnits, if_pos high, if_neg low]
      exact broken_iff ascii replacement_high (high_of_half (by simp [high]))
  | case6 unit next rest high low ih =>
      rw [decodeUnits, if_neg high, if_pos low]
      exact broken_iff ascii replacement_high (high_of_half (by simp [low]))
  | case7 unit next rest high low ih =>
      rw [decodeUnits, if_neg high, if_neg low]
      have valid := valid_of_whole (small unit List.mem_cons_self) (by simp [high, low])
      have small' : ∀ n ∈ next :: rest, n < 0x10000 :=
        fun n hn => small n (List.mem_cons_of_mem unit hn)
      exact whole_iff ascii valid fun s ascii => ih small' ascii

end Text

end ClassUniverse
