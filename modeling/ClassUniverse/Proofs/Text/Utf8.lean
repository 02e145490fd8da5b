import ClassUniverse.Text.Utf8

/-!
# Characters of the basic plane in one, two or three bytes

The bytes of a character up to U+FFFF, seven bits in one byte or six bits in each byte after the
first.  The reader of UTF-8 gives back the text that was written.
-/

namespace ClassUniverse.Text

def charBytes (c : Char) : List UInt8 :=
  let n := c.toNat
  if n ≤ 0x7F then [UInt8.ofNat n]
  else if n ≤ 0x7FF then [UInt8.ofNat (0xC0 + n / 64), UInt8.ofNat (0x80 + n % 64)]
  else
    [UInt8.ofNat (0xE0 + n / 4096), UInt8.ofNat (0x80 + n / 64 % 64), UInt8.ofNat (0x80 + n % 64)]

theorem toNat_ofNat_of_le {n : Nat} (h : n ≤ 0xFF) : (UInt8.ofNat n).toNat = n := by
  rw [UInt8.toNat_ofNat']
  omega

theorem ofNat_le_ofNat {m n : Nat} (hm : m ≤ 0xFF) (hn : n ≤ 0xFF) (h : m ≤ n) :
    UInt8.ofNat m ≤ UInt8.ofNat n := by
  rw [UInt8.le_iff_toNat_le, toNat_ofNat_of_le hm, toNat_ofNat_of_le hn]
  exact h

theorem firstByte_of_le {n : Nat} (h : n ≤ 0x7F) :
    firstByte (UInt8.ofNat n) = .character (Char.ofNat n) := by
  simp [firstByte, toNat_ofNat_of_le (show n ≤ 0xFF by omega), h]

theorem firstByte_of_two {n : Nat} (hlow : 0x80 ≤ n) (hhigh : n ≤ 0x7FF) :
    firstByte (UInt8.ofNat (0xC0 + n / 64)) = .pending ⟨1, n / 64, 0x80, 0xBF⟩ := by
  simp only [firstByte, toNat_ofNat_of_le (show 0xC0 + n / 64 ≤ 0xFF by omega)]
  rw [if_neg (by omega), if_neg (by omega), if_pos (by omega), Nat.add_sub_cancel_left]

/-- The first of three bytes leaves a range for the second that holds it: the range is smaller where
fewer bytes would do and where the halves of pairs lie. -/
theorem firstByte_of_three {n : Nat} (hlow : 0x800 ≤ n) (hhigh : n ≤ 0xFFFF)
    (hpairs : n < 0xD800 ∨ 0xDFFF < n) :
    ∃ low high, firstByte (UInt8.ofNat (0xE0 + n / 4096)) = .pending ⟨2, n / 4096, low, high⟩ ∧
      low ≤ UInt8.ofNat (0x80 + n / 64 % 64) ∧ UInt8.ofNat (0x80 + n / 64 % 64) ≤ high := by
  have hbyte : (UInt8.ofNat (0xE0 + n / 4096)).toNat = 0xE0 + n / 4096 :=
    toNat_ofNat_of_le (by omega)
  simp only [firstByte, hbyte]
  rw [if_neg (by omega), if_neg (by omega), if_neg (by omega)]
  by_cases hfirst : n / 4096 = 0
  · refine ⟨0xA0, 0xBF, by simp [hfirst], ?_, ?_⟩
    · exact ofNat_le_ofNat (m := 0xA0) (by omega) (by omega) (by omega)
    · exact ofNat_le_ofNat (n := 0xBF) (by omega) (by omega) (by omega)
  rw [if_neg (by omega)]
  by_cases hpair : n / 4096 = 13
  · refine ⟨0x80, 0x9F, by simp [hpair], ?_, ?_⟩
    · exact ofNat_le_ofNat (m := 0x80) (by omega) (by omega) (by omega)
    · exact ofNat_le_ofNat (n := 0x9F) (by omega) (by omega) (by omega)
  · rw [if_neg (by omega), if_pos (by omega), Nat.add_sub_cancel_left]
    refine ⟨0x80, 0xBF, rfl, ?_, ?_⟩
    · exact ofNat_le_ofNat (m := 0x80) (by omega) (by omega) (by omega)
    · exact ofNat_le_ofNat (n := 0xBF) (by omega) (by omega) (by omega)

/-- A further byte adds its six bits; the last one that is owed ends the character. -/
theorem next_of_range {p : Pending} {bits : Nat} (hbits : bits < 64)
    (hlow : p.low ≤ UInt8.ofNat (0x80 + bits)) (hhigh : UInt8.ofNat (0x80 + bits) ≤ p.high) :
    p.next (UInt8.ofNat (0x80 + bits)) =
      some (if p.owed ≤ 1 then .inl (Char.ofNat (p.value * 64 + bits))
        else .inr ⟨p.owed - 1, p.value * 64 + bits, 0x80, 0xBF⟩) := by
  have hbyte : (UInt8.ofNat (0x80 + bits)).toNat = 0x80 + bits := toNat_ofNat_of_le (by omega)
  simp only [Pending.next, hbyte, hlow, hhigh, and_self, if_true, Nat.add_sub_cancel_left]
  split <;> rfl

theorem next_of_bits {owed value bits : Nat} (hbits : bits < 64) :
    (Pending.mk owed value 0x80 0xBF).next (UInt8.ofNat (0x80 + bits)) =
      some (if owed ≤ 1 then .inl (Char.ofNat (value * 64 + bits))
        else .inr ⟨owed - 1, value * 64 + bits, 0x80, 0xBF⟩) :=
  next_of_range hbits (ofNat_le_ofNat (m := 0x80) (by omega) (by omega) (by omega))
    (ofNat_le_ofNat (n := 0xBF) (by omega) (by omega) (by omega))

/-- No character lies among the halves of pairs. -/
theorem toNat_not_pair (c : Char) : c.toNat < 0xD800 ∨ 0xDFFF < c.toNat := by
  have h := c.valid
  simp only [UInt32.isValidChar, Nat.isValidChar] at h
  change c.val.toNat < 0xD800 ∨ 0xDFFF < c.val.toNat
  omega

theorem decodeFrom_charBytes {c : Char} (hc : c.toNat ≤ 0xFFFF) (rest : List UInt8) :
    decodeFrom none (charBytes c ++ rest) = c :: decodeFrom none rest := by
  have hlast : c.toNat % 64 < 64 := Nat.mod_lt _ (by decide)
  unfold charBytes
  by_cases hone : c.toNat ≤ 0x7F
  · simp only [hone, if_true, List.cons_append, List.nil_append, decodeFrom, firstByte_of_le hone,
      Char.ofNat_toNat]
  by_cases htwo : c.toNat ≤ 0x7FF
  · have hvalue : c.toNat / 64 * 64 + c.toNat % 64 = c.toNat := by omega
    simp only [hone, htwo, if_true, if_false, List.cons_append, List.nil_append, decodeFrom,
      firstByte_of_two (show 0x80 ≤ c.toNat by omega) htwo, next_of_bits hlast, hvalue, Nat.le_refl,
      Char.ofNat_toNat]
  · obtain ⟨low, high, hfirst, hlow, hhigh⟩ :=
      firstByte_of_three (show 0x800 ≤ c.toNat by omega) hc (toNat_not_pair c)
    have hmiddle : c.toNat / 64 % 64 < 64 := Nat.mod_lt _ (by decide)
    have hsecond : (Pending.mk 2 (c.toNat / 4096) low high).next _ = _ :=
      next_of_range hmiddle hlow hhigh
    have hvalue : (c.toNat / 4096 * 64 + c.toNat / 64 % 64) * 64 + c.toNat % 64 = c.toNat := by
      omega
    simp only [hone, htwo, if_false, List.cons_append, List.nil_append, decodeFrom, hfirst,
      hsecond, Nat.reduceLeDiff, Nat.reduceSub, next_of_bits hlast, hvalue, Nat.le_refl, if_true,
      Char.ofNat_toNat]

/-- A text of the basic plane is read back from its bytes. -/
theorem decodeLossy_flatMap_charBytes {s : List Char} (h : ∀ c ∈ s, c.toNat ≤ 0xFFFF) :
    decodeLossy (s.flatMap charBytes) = s := by
  unfold decodeLossy
  induction s with
  | nil => rfl
  | cons c s ih =>
      rw [List.flatMap_cons, decodeFrom_charBytes (h c List.mem_cons_self),
        ih fun d hd => h d (List.mem_cons_of_mem c hd)]

end ClassUniverse.Text
