import ClassUniverse.Proofs.Guarded.Basic
import ClassUniverse.Text.Split
import ClassUniverse.Text.Utf8
import Mathlib.Data.List.Infix
import Mathlib.Data.String.Basic

/-!
# Places in a text

A place in a text is counted in the bytes of its characters.  A text is cut at a place between two
characters; a place within a character or behind the end is a fault.
-/

namespace ClassUniverse

open String (utf8Len utf8Len_nil utf8Len_cons utf8Len_append)

namespace Text

theorem utf8Len_exchange {old new : Char} (same : new.utf8Size = old.utf8Size) (s : List Char) :
    utf8Len (s.map fun c => if c = old then new else c) = utf8Len s := by
  induction s with
  | nil => rfl
  | cons c s ih =>
      rw [List.map_cons, utf8Len_cons, utf8Len_cons, ih]
      split
      · rename_i h
        rw [same, h]
      · rfl

/-! ## The size of decoded bytes -/

/-- No byte makes more text than four bytes do, and a broken character no more than one does. -/
theorem utf8Len_decodeFrom (pending : Option Pending) (bytes : List UInt8) :
    utf8Len (decodeFrom pending bytes) ≤ 4 * bytes.length + if pending.isSome then 4 else 0 := by
  have single : replacement.utf8Size = 3 := by decide
  induction bytes generalizing pending with
  | nil =>
      cases pending with
      | none => simp [decodeFrom]
      | some p => simp [decodeFrom, single]
  | cons b rest ih =>
      have whole := ih none
      have broken (p : Pending) := ih (some p)
      simp only [Option.isSome_none, Option.isSome_some, if_true, Bool.false_eq_true, if_false]
        at whole broken
      have start : utf8Len (decodeFrom none (b :: rest)) ≤ 4 * rest.length + 4 := by
        rw [decodeFrom]
        cases firstByte b with
        | character c =>
            have width := c.utf8Size_le_four
            rw [utf8Len_cons]
            omega
        | pending p => exact broken p
        | invalid =>
            rw [utf8Len_cons, single]
            omega
      cases pending with
      | none =>
          rw [List.length_cons]
          simp only [Option.isSome_none, Bool.false_eq_true, if_false]
          omega
      | some p =>
          rw [List.length_cons]
          simp only [Option.isSome_some, if_true]
          rw [decodeFrom] at start
          rw [decodeFrom]
          cases p.next b with
          | none =>
              dsimp only
              rw [utf8Len_cons, single]
              omega
          | some next =>
              cases next with
              | inl c =>
                  have width := c.utf8Size_le_four
                  dsimp only
                  rw [utf8Len_cons]
                  omega
              | inr p' =>
                  have later := broken p'
                  dsimp only
                  omega

theorem utf8Len_decodeLossy (bytes : List UInt8) : utf8Len (decodeLossy bytes) ≤ 4 * bytes.length :=
  utf8Len_decodeFrom none bytes

/-! ## Searches -/

/-- The place of the first character of a kind. -/
def place? (c : Char) : List Char → Option Nat
  | [] => none
  | d :: rest => if d = c then some 0 else (place? c rest).map (· + d.utf8Size)

theorem place?_eq (c : Char) (s : List Char) :
    place? c s = (splitFirst c s).map fun (before, _) => utf8Len before := by
  induction s with
  | nil => rfl
  | cons d rest ih =>
      rw [place?, splitFirst]
      split
      · rfl
      · rw [ih, Option.map_map, Option.map_map]
        rfl

/-- The places of a key word in a text from a place on, one behind the end of the other; so many
characters of the text belong to an occurrence before. -/
def placesOf (key : List Char) : (skip start : Nat) → List Char → List Nat
  | _, _, [] => []
  | skip + 1, start, c :: rest => placesOf key skip (start + c.utf8Size) rest
  | 0, start, c :: rest =>
      if key.isPrefixOf (c :: rest) then
        start :: placesOf key (key.length - 1) (start + c.utf8Size) rest
      else placesOf key 0 (start + c.utf8Size) rest

/-- Whether no end of a word, apart from the word itself, is a beginning of the word. -/
def IsUnbordered (word : List Char) : Prop :=
  ∀ i < word.length, 0 < i → ¬ word.drop i <+: word

instance (word : List Char) : Decidable (IsUnbordered word) :=
  decidable_of_iff (∀ i < word.length, 0 < i → ¬ (word.drop i).isPrefixOf word = true)
    (by simp only [IsUnbordered, List.isPrefixOf_iff_prefix])

/-- An unbordered word does not occur again within an occurrence. -/
theorem IsUnbordered.not_prefix {key s : List Char} (h : IsUnbordered key) (occurs : key <+: s)
    {i : Nat} (positive : 0 < i) (inside : i < key.length) : ¬ key <+: s.drop i := by
  intro again
  obtain ⟨more, rfl⟩ := occurs
  rw [List.drop_append_of_le_length (Nat.le_of_lt inside)] at again
  have ending : key.drop i <+: key.drop i ++ more := List.prefix_append _ _
  have shorter : (key.drop i).length ≤ key.length := by
    rw [List.length_drop]
    omega
  exact h i inside positive (List.prefix_of_prefix_length_le ending again shorter)

end Text

namespace Guarded

open Text

/-- The text from a place on. -/
def textFrom : (s : List Char) → (place : Nat) → Guarded (List Char)
  | s, 0 => pure s
  | [], _ + 1 => fault .outOfRange
  | c :: rest, place + 1 =>
      if c.utf8Size ≤ place + 1 then textFrom rest (place + 1 - c.utf8Size) else fault .offBoundary

/-- The text up to a place. -/
def textUpTo : (s : List Char) → (place : Nat) → Guarded (List Char)
  | _, 0 => pure []
  | [], _ + 1 => fault .outOfRange
  | c :: rest, place + 1 =>
      if c.utf8Size ≤ place + 1 then
        textUpTo rest (place + 1 - c.utf8Size) >>= fun before => pure (c :: before)
      else fault .offBoundary

/-- The text from one place up to another. -/
def textBetween (s : List Char) (start stop : Nat) : Guarded (List Char) :=
  if start ≤ stop then textFrom s start >>= fun rest => textUpTo rest (stop - start)
  else fault .outOfRange

/-- A text so many times. -/
def repeated (s : String) (count : Nat) : Guarded String := do
  let length ← times (utf8Len s.toList) count
  room length
  return String.join (List.replicate count s)

/-- A text that begins with a character goes on at a place behind its bytes. -/
theorem exists_place_of_cons (c : Char) (rest : List Char) :
    ∃ place, utf8Len (c :: rest) = place + 1 ∧ c.utf8Size ≤ place + 1 ∧
      place + 1 - c.utf8Size = utf8Len rest := by
  have positive := c.utf8Size_pos
  refine ⟨c.utf8Size - 1 + utf8Len rest, ?_, ?_, ?_⟩
  · rw [utf8Len_cons]
    omega
  · omega
  · omega

theorem textFrom_append (before after : List Char) :
    textFrom (before ++ after) (utf8Len before) = pure after := by
  induction before with
  | nil =>
      rw [List.nil_append, utf8Len_nil]
      unfold textFrom
      cases after <;> rfl
  | cons c before ih =>
      obtain ⟨place, length, reached, left⟩ := exists_place_of_cons c before
      rw [List.cons_append, length, textFrom, if_pos reached, left, ih]

example : textFrom ['é', ';'] 1 = fault .offBoundary := rfl

theorem textUpTo_append (before after : List Char) :
    textUpTo (before ++ after) (utf8Len before) = pure before := by
  induction before with
  | nil =>
      rw [List.nil_append, utf8Len_nil]
      unfold textUpTo
      cases after <;> rfl
  | cons c before ih =>
      obtain ⟨place, length, reached, left⟩ := exists_place_of_cons c before
      rw [List.cons_append, length, textUpTo, if_pos reached, left, ih, pure_bind]

theorem textBetween_append (before middle after : List Char) :
    textBetween (before ++ (middle ++ after)) (utf8Len before) (utf8Len (before ++ middle)) =
      pure middle := by
  rw [textBetween, utf8Len_append, if_pos (Nat.le_add_right _ _), textFrom_append, pure_bind,
    Nat.add_sub_cancel_left, textUpTo_append]

theorem repeated_eq {s : String} {count : Nat} (h : utf8Len s.toList * count < 2 ^ 63) :
    repeated s count = pure (String.join (List.replicate count s)) := by
  rw [repeated, times_eq (by omega), pure_bind, room_eq h, pure_bind]

end Guarded

end ClassUniverse
