import ClassUniverse.Proofs.Manifest.Plain
import Mathlib.Data.List.Induction

/-!
# How numbers are spelled

A number is written in decimal digits without zeros in front.  A reader takes any number of zeros
before the digits, and a plus sign before these, so a number has one written form and many spellings.
-/

namespace ClassUniverse.Text

variable {digits s : List Char} {n : UInt32}

/-- Whether a text is the decimal form of a number, behind some zeros and possibly a plus sign. -/
def Spells (s : List Char) (n : UInt32) : Prop :=
  ∃ zeros, s = List.replicate zeros '0' ++ (decimal n).toList ∨
    s = '+' :: (List.replicate zeros '0' ++ (decimal n).toList)

theorem spells_decimal (n : UInt32) : Spells (decimal n).toList n := ⟨0, .inl rfl⟩

theorem toList_decimal (n : UInt32) : (decimal n).toList = Nat.toDigits 10 n.toNat :=
  Nat.toList_repr

theorem digitsValue_snoc (digits : List Char) (c : Char) :
    digitsValue (digits ++ [c]) = 10 * digitsValue digits + (c.toNat - '0'.toNat) := by
  rw [digitsValue, List.foldl_append, List.foldl_cons, List.foldl_nil, Nat.mul_comm]
  rfl

theorem digitsValue_zeros (zeros : Nat) (digits : List Char) :
    digitsValue (List.replicate zeros '0' ++ digits) = digitsValue digits := by
  induction zeros with
  | zero => rfl
  | succ zeros ih =>
      rw [List.replicate_succ, List.cons_append]
      exact ih

/-- A digit is the one-digit form of its value. -/
theorem toDigits_of_isDigit {c : Char} (h : isDigit c = true) :
    c.toNat - '0'.toNat < 10 ∧ Nat.toDigits 10 (c.toNat - '0'.toNat) = [c] := by
  have both := of_isDigit (p := fun c => decide (c.toNat - '0'.toNat < 10 ∧
    Nat.toDigits 10 (c.toNat - '0'.toNat) = [c])) h (by decide)
  exact of_decide_eq_true both

/-- Digits are the decimal form of their value behind some zeros. -/
theorem exists_zeros (some_digit : digits ≠ []) (all : ∀ c ∈ digits, isDigit c = true) :
    ∃ zeros, digits = List.replicate zeros '0' ++ Nat.toDigits 10 (digitsValue digits) := by
  induction digits using List.reverseRecOn with
  | nil => exact absurd rfl some_digit
  | append_singleton init c ih =>
      obtain ⟨low, last⟩ := toDigits_of_isDigit (all c (by simp))
      rw [digitsValue_snoc]
      by_cases first : init = []
      · subst first
        exact ⟨0, last.symm.trans (congrArg _ (Nat.zero_add _).symm)⟩
      obtain ⟨zeros, form⟩ := ih first fun d hd => all d (List.mem_append_left _ hd)
      by_cases none : digitsValue init = 0
      · -- The digits before are zeros alone; the last of them is their decimal form.
        refine ⟨zeros + 1, ?_⟩
        rw [none] at form ⊢
        rw [form, Nat.mul_zero, Nat.zero_add, last, List.replicate_succ']
        rfl
      · refine ⟨zeros, ?_⟩
        rw [← Nat.toDigits_append_toDigits (by decide) (Nat.pos_of_ne_zero none) low, last,
          ← List.append_assoc, ← form]

/-- What a run of digits is read as. -/
theorem ofDigits?_eq_some_iff : ofDigits? digits = some n ↔
    digits ≠ [] ∧ (∀ c ∈ digits, isDigit c = true) ∧ digitsValue digits = n.toNat := by
  have shape : (digits.isEmpty || !digits.all isDigit) = false ↔
      digits ≠ [] ∧ ∀ c ∈ digits, isDigit c = true := by
    simp
  unfold ofDigits? naturalBelow?
  constructor
  · intro h
    obtain ⟨value, found, rfl⟩ := Option.map_eq_some_iff.mp h
    split at found
    next => cases found
    next digits_only =>
      obtain ⟨some_digit, all⟩ := shape.mp (Bool.eq_false_iff.mpr digits_only)
      split at found
      next small =>
        cases found
        exact ⟨some_digit, all, (UInt32.toNat_ofNat_of_lt' small).symm⟩
      next => cases found
  · rintro ⟨some_digit, all, value⟩
    have small : n.toNat < UInt32.size := n.toNat_lt
    rw [shape.mpr ⟨some_digit, all⟩, value, if_neg Bool.false_ne_true, if_pos small]
    exact congrArg some UInt32.ofNat_toNat

theorem ofDigits?_eq_some_iff_zeros : ofDigits? digits = some n ↔
    ∃ zeros, digits = List.replicate zeros '0' ++ (decimal n).toList := by
  constructor
  · intro h
    obtain ⟨some_digit, all, value⟩ := ofDigits?_eq_some_iff.mp h
    obtain ⟨zeros, form⟩ := exists_zeros some_digit all
    rw [value, ← toList_decimal] at form
    exact ⟨zeros, form⟩
  · rintro ⟨zeros, rfl⟩
    obtain ⟨some_digit, all, value⟩ := ofDigits?_eq_some_iff.mp (ofDigits?_decimal n)
    refine ofDigits?_eq_some_iff.mpr ⟨?_, fun c hc => ?_, ?_⟩
    · exact List.append_ne_nil_of_right_ne_nil _ some_digit
    · rcases List.mem_append.mp hc with zero | digit
      · rw [List.eq_of_mem_replicate zero]
        decide
      · exact all c digit
    · rw [digitsValue_zeros, value]

theorem spells_iff : Spells s n ↔
    ofDigits? s = some n ∨ ∃ digits, s = '+' :: digits ∧ ofDigits? digits = some n := by
  unfold Spells
  rw [exists_or, ← ofDigits?_eq_some_iff_zeros]
  refine or_congr_right ⟨?_, ?_⟩
  · rintro ⟨zeros, rfl⟩
    exact ⟨_, rfl, ofDigits?_eq_some_iff_zeros.mpr ⟨zeros, rfl⟩⟩
  · rintro ⟨digits, rfl, read⟩
    obtain ⟨zeros, rfl⟩ := ofDigits?_eq_some_iff_zeros.mp read
    exact ⟨zeros, rfl⟩

/-- The spellings of a number are the texts that are read as it. -/
theorem parseNumber?_eq_some_iff : parseNumber? s = some n ↔ Spells s n := by
  rw [spells_iff, parseNumber?]
  by_cases signed : ∃ digits, s = '+' :: digits
  · obtain ⟨digits, rfl⟩ := signed
    have unread : ¬ ofDigits? ('+' :: digits) = some n := fun h =>
      absurd ((ofDigits?_eq_some_iff.mp h).2.1 '+' List.mem_cons_self) (by decide)
    simp only [withoutPlus, unread, false_or, List.cons.injEq, true_and]
    exact ⟨fun read => ⟨digits, rfl, read⟩, fun ⟨_, same, read⟩ => same ▸ read⟩
  · have unsigned : withoutPlus s = s := by
      unfold withoutPlus
      split
      · exact absurd ⟨_, rfl⟩ signed
      · rfl
    rw [unsigned]
    exact ⟨.inl, fun h => h.resolve_right fun ⟨digits, same, _⟩ => signed ⟨digits, same⟩⟩

end ClassUniverse.Text
