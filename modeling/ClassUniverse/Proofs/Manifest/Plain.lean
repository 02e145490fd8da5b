import ClassUniverse.Manifest.Parse
import ClassUniverse.Proofs.Text.Ascii
import ClassUniverse.Proofs.Text.Utf8
import Mathlib.Data.List.Infix
import Mathlib.Tactic.IntervalCases

/-!
# Manifests written as plain text

A plain manifest shows each level that it names as an attribute, in decimal digits.  The reader
finds it there: no key word begins in what stands before it, because a key word is made of letters
and hyphens and each of the other parts either ends or is followed by something else.
-/

namespace ClassUniverse

namespace Text

/-! ## Digits and bytes -/

theorem digitsValue_toDigits (n : Nat) : digitsValue (Nat.toDigits 10 n) = n := by
  have value (digits : List Char) (start : Nat) :
      digits.foldl (fun value c => value * 10 + (c.toNat - '0'.toNat)) start =
        Nat.ofDigitChars 10 digits start := by
    unfold Nat.ofDigitChars
    simp only [Nat.mul_comm]
  exact (value _ 0).trans (Nat.ofDigitChars_toDigits (by decide) (by decide))

/-- What holds of ten characters holds of every digit. -/
theorem of_isDigit {p : Char → Bool} {c : Char} (h : isDigit c = true)
    (each : ['0', '1', '2', '3', '4', '5', '6', '7', '8', '9'].all p = true) : p c = true := by
  unfold isDigit at h
  rw [Bool.and_eq_true, decide_eq_true_iff, decide_eq_true_iff] at h
  have low : 48 ≤ c.toNat := UInt32.le_iff_toNat_le.mp h.1
  have high : c.toNat ≤ 57 := UInt32.le_iff_toNat_le.mp h.2
  refine List.all_eq_true.mp each c ?_
  rw [← Char.ofNat_toNat c]
  generalize c.toNat = n at low high ⊢
  interval_cases n <;> decide

theorem isDigit_of_mem_decimal {n : UInt32} {c : Char} (h : c ∈ (decimal n).toList) :
    isDigit c = true := by
  have digit : c.isDigit = true := by
    change c ∈ (Nat.repr n.toNat).toList at h
    rw [Nat.toList_repr] at h
    exact Nat.isDigit_of_mem_toDigits (by decide) (by decide) h
  unfold Char.isDigit at digit
  exact digit

theorem ofDigits?_decimal (n : UInt32) : ofDigits? (decimal n).toList = some n := by
  have digits : (decimal n).toList = Nat.toDigits 10 n.toNat := Nat.toList_repr
  have all : (decimal n).toList.all isDigit = true :=
    List.all_eq_true.mpr fun _ h => isDigit_of_mem_decimal h
  have some_digit : (decimal n).toList.isEmpty = false := by
    rw [digits, List.isEmpty_eq_false_iff]
    exact Nat.toDigits_ne_nil
  have small : n.toNat < UInt32.size := n.toNat_lt
  have value : digitsValue (decimal n).toList = n.toNat := by
    rw [digits, digitsValue_toDigits]
  simp [ofDigits?, naturalBelow?, all, some_digit, value, small]

theorem utf8_of_ascii {s : String} (ascii : IsAscii s.toList) :
    s.toUTF8.data.toList = s.toList.flatMap charBytes := by
  have bytes : s.toUTF8.data.toList = s.toList.flatMap String.utf8EncodeChar := by
    change s.toByteArray.data.toList = _
    rw [← String.utf8Encode_toList]
    exact List.toList_data_toByteArray
  rw [bytes]
  refine List.flatMap_congr fun c hc => ?_
  simp [String.utf8EncodeChar, charBytes, ascii c hc]

end Text

namespace Manifest

open Text

/-! ## Looking for a key word -/

/-- A character of which key words are made. -/
def isKeyChar (c : Char) : Bool := c.isAlpha || c == '-'

/-- A word of letters and hyphens. -/
structure IsKey (key : List Char) : Prop where
  ne_nil : key ≠ []
  chars : key.all isKeyChar = true

instance (key : List Char) : Decidable (IsKey key) :=
  decidable_of_iff (key ≠ [] ∧ key.all isKeyChar = true) ⟨fun h => ⟨h.1, h.2⟩, fun h => ⟨h.1, h.2⟩⟩

variable {key word rest : List Char} {name : String} {level : Option UInt32} {n : UInt32}

theorem IsKey.not_mem (h : IsKey key) {c : Char} (other : isKeyChar c = false) : c ∉ key := by
  intro hm
  have isKey := List.all_eq_true.mp h.chars c hm
  rw [other] at isKey
  cases isKey

/-- Whether a character, if there is one, stands in no key word. -/
def Breaks (c : Option Char) : Prop := ∀ d ∈ c, isKeyChar d = false

instance : (c : Option Char) → Decidable (Breaks c)
  | none => isTrue nofun
  | some c => decidable_of_iff (isKeyChar c = false) (by simp [Breaks])

/-- Whether a key word that begins in a part of a text ends in it, because the part ends with
another character or what follows begins with one. -/
def Parts (word rest : List Char) : Prop := Breaks word.getLast? ∨ Breaks rest.head?

/-- A part of a text without the key word is passed over. -/
theorem numberAfter?_append (isKey : IsKey key) (free : ¬ key <:+: word) (parts : Parts word rest) :
    numberAfter? key (word ++ rest) = numberAfter? key rest := by
  induction word with
  | nil => rfl
  | cons c word ih =>
      have free' : ¬ key <:+: word := fun h => free (h.trans (List.suffix_cons c word).isInfix)
      have parts' : Parts word rest := by
        refine parts.imp_left fun last d hd => last d ?_
        cases word with
        | nil => cases hd
        | cons e word => exact hd
      have later : key.isPrefixOf (c :: (word ++ rest)) = false := by
        rw [← Bool.not_eq_true, List.isPrefixOf_iff_prefix]
        intro starts
        rcases List.prefix_or_prefix_of_prefix starts (List.prefix_append (c :: word) rest) with
          inside | across
        · exact free inside.isInfix
        · obtain ⟨after, whole⟩ := across
          rcases parts with last | next
          · obtain ⟨d, hd⟩ : ∃ d, (c :: word).getLast? = some d := ⟨_, List.getLast?_cons⟩
            have inKey : d ∈ key := by
              rw [← whole]
              exact List.mem_append_left _ (List.mem_of_getLast? hd)
            exact isKey.not_mem (last d hd) inKey
          · cases after with
            | nil =>
                rw [List.append_nil] at whole
                exact free (whole ▸ List.infix_rfl)
            | cons d after =>
                rw [← whole] at starts
                have follows : d :: after <+: rest :=
                  (List.prefix_append_right_inj (c :: word)).mp starts
                obtain ⟨more, rfl⟩ := follows
                have inKey : d ∈ key := by
                  rw [← whole]
                  exact List.mem_append_right _ List.mem_cons_self
                exact isKey.not_mem (next d rfl) inKey
      rw [List.cons_append, numberAfter?, later]
      exact ih free' parts'

theorem numberAfter?_of_ahead (isKey : IsKey key) (ahead : numberAhead? rest = some n) :
    numberAfter? key (key ++ rest) = some n := by
  cases key with
  | nil => exact absurd rfl isKey.ne_nil
  | cons c key =>
      have starts : (c :: key).isPrefixOf (c :: (key ++ rest)) = true :=
        List.isPrefixOf_iff_prefix.mpr (List.prefix_append (c :: key) rest)
      have behind : (c :: key ++ rest).drop (c :: key).length = rest := List.drop_left
      rw [List.cons_append] at behind ⊢
      rw [numberAfter?, starts, behind, ahead]
      rfl

/-! ## The attributes of a plain manifest -/

/-- A level as an attribute, if there is one. -/
def shown (name : String) : Option UInt32 → String
  | none => ""
  | some n => " " ++ name ++ "=\"" ++ decimal n ++ "\""

/-- What stands before the digits of an attribute. -/
def opening (name : String) : List Char := ' ' :: name.toList ++ ['=', '"']

theorem toList_shown (name : String) (n : UInt32) :
    (shown name (some n)).toList = opening name ++ ((decimal n).toList ++ ['"']) := by
  simp [shown, opening]

theorem digit_not_isKeyChar {c : Char} (h : isDigit c = true) : isKeyChar c = false := by
  simpa using of_isDigit (p := fun c => !isKeyChar c) h (by decide)

theorem digit_not_isGap {c : Char} (h : isDigit c = true) : isGap c = false := by
  simpa using of_isDigit (p := fun c => !isGap c) h (by decide)

theorem not_infix_digits (isKey : IsKey key) (n : UInt32) : ¬ key <:+: (decimal n).toList := by
  intro inside
  obtain ⟨c, hc⟩ := List.exists_mem_of_ne_nil key isKey.ne_nil
  exact isKey.not_mem (digit_not_isKeyChar (isDigit_of_mem_decimal (inside.subset hc))) hc

/-- The number of an attribute, from the equals sign on. -/
theorem numberAhead?_value (n : UInt32) (rest : List Char) :
    numberAhead? (['=', '"'] ++ ((decimal n).toList ++ (['"'] ++ rest))) = some n := by
  have digits : ∀ c ∈ (decimal n).toList, isDigit c = true := fun _ h => isDigit_of_mem_decimal h
  have gaps : (['=', '"'] ++ ((decimal n).toList ++ (['"'] ++ rest))).dropWhile isGap =
      (decimal n).toList ++ (['"'] ++ rest) := by
    rw [List.dropWhile_append_of_pos (List.all_eq_true.mp (by decide))]
    cases found : (decimal n).toList with
    | nil =>
        have read := ofDigits?_decimal n
        rw [found] at read
        cases read
    | cons c more =>
        have first : isGap c = false := digit_not_isGap (digits c (by simp [found]))
        simp [first]
  have taken : ((decimal n).toList ++ (['"'] ++ rest)).takeWhile isDigit =
      (decimal n).toList := by
    rw [List.takeWhile_append_of_pos digits]
    simp [isDigit]
  unfold numberAhead?
  rw [gaps, taken, ofDigits?_decimal]

/-- Where a key word occurs before the digits of an attribute: as the end of its name, behind what
may be no part of the word, or nowhere. -/
def Occurs (key : List Char) (name : String) : (own : Bool) → Prop
  | true => ∃ lead, name.toList = lead ++ key ∧ ¬ key <:+: ' ' :: lead ∧
      Breaks (' ' :: lead).getLast?
  | false => ¬ key <:+: opening name

instance (key : List Char) (name : String) : Decidable (Occurs key name false) :=
  inferInstanceAs (Decidable (¬ _))

/-- What is behind the opening of an attribute holds no key word. -/
theorem numberAfter?_value (isKey : IsKey key) (n : UInt32) (rest : List Char) :
    numberAfter? key ((decimal n).toList ++ (['"'] ++ rest)) = numberAfter? key rest := by
  have quote : ¬ key <:+: ['"'] := by
    intro inside
    obtain ⟨c, hc⟩ := List.exists_mem_of_ne_nil key isKey.ne_nil
    have same := List.mem_singleton.mp (inside.subset hc)
    exact isKey.not_mem (by decide) (same ▸ hc)
  rw [numberAfter?_append isKey (not_infix_digits isKey n) (.inr fun c hc => ?_),
    numberAfter?_append isKey quote (.inl (by decide))]
  cases hc
  rfl

theorem numberAfter?_shown (isKey : IsKey key) {own : Bool} (occurs : Occurs key name own)
    (level : Option UInt32) (rest : List Char) :
    numberAfter? key ((shown name level).toList ++ rest) =
      (if own then level else none).or (numberAfter? key rest) := by
  cases level with
  | none =>
      rw [ite_self]
      rfl
  | some n =>
      rw [toList_shown, List.append_assoc, List.append_assoc]
      cases own with
      | false =>
          have last : Breaks (opening name).getLast? := by
            have split : opening name = (' ' :: name.toList ++ ['=']) ++ ['"'] := by simp [opening]
            rw [split, List.getLast?_concat]
            decide
          rw [numberAfter?_append isKey occurs (.inl last), numberAfter?_value isKey]
          rfl
      | true =>
          obtain ⟨lead, named, free, last⟩ := occurs
          have split : opening name = (' ' :: lead) ++ (key ++ ['=', '"']) := by
            simp [opening, named]
          rw [split, List.append_assoc, numberAfter?_append isKey free (.inl last),
            List.append_assoc, numberAfter?_of_ahead isKey (numberAhead?_value n rest)]
          rfl

end Manifest

namespace ManifestLevels

open Manifest Text

/-- A plain manifest that names some levels. -/
def render (l : ManifestLevels) : String :=
  "<manifest" ++ shown "platformBuildVersionCode" l.build ++ "><uses-sdk" ++
    shown "android:minSdkVersion" l.minimum ++ shown "android:targetSdkVersion" l.target ++
    "/></manifest>"

example : render ⟨some 29, some 21, some 30⟩ = "<manifest platformBuildVersionCode=\"30\">" ++
    "<uses-sdk android:minSdkVersion=\"21\" android:targetSdkVersion=\"29\"/></manifest>" := by
  decide +kernel

/-- Its bytes in UTF-8. -/
def plainBytes (l : ManifestLevels) : List UInt8 := l.render.toUTF8.data.toList

theorem toList_render (l : ManifestLevels) : l.render.toList =
    "<manifest".toList ++ ((shown "platformBuildVersionCode" l.build).toList ++
      ("><uses-sdk".toList ++ ((shown "android:minSdkVersion" l.minimum).toList ++
        ((shown "android:targetSdkVersion" l.target).toList ++
          ("/></manifest>".toList ++ []))))) := by
  simp only [render, String.toList_append, List.append_assoc, List.append_nil]

/-- What follows a part of a manifest that is no attribute begins with a blank or another sign. -/
theorem shown_head {name : String} {level : Option UInt32} {rest : List Char}
    (next : Breaks rest.head?) : Breaks ((shown name level).toList ++ rest).head? := by
  cases level with
  | none => exact next
  | some n =>
      rw [toList_shown]
      rintro c ⟨⟩
      rfl

/-- Looking for a key word in a plain manifest gives the first level in whose name it occurs. -/
theorem numberAfter?_render {key : List Char} (isKey : IsKey key)
    (literals : ∀ s ∈ ["<manifest", "><uses-sdk", "/></manifest>"], ¬ key <:+: s.toList)
    {b m t : Bool} (build : Occurs key "platformBuildVersionCode" b)
    (minimum : Occurs key "android:minSdkVersion" m)
    (target : Occurs key "android:targetSdkVersion" t) (l : ManifestLevels) :
    numberAfter? key l.render.toList = (if b then l.build else none).or
      ((if m then l.minimum else none).or ((if t then l.target else none).or none)) := by
  have first := literals "<manifest" (by simp)
  have second := literals "><uses-sdk" (by simp)
  have third := literals "/></manifest>" (by simp)
  have close : Breaks ("/></manifest>".toList ++ []).head? := by decide
  have between (rest : List Char) : Breaks ("><uses-sdk".toList ++ rest).head? := by
    rintro c ⟨⟩
    rfl
  rw [toList_render, numberAfter?_append isKey first (.inr (shown_head (between _))),
    numberAfter?_shown isKey build,
    numberAfter?_append isKey second (.inr (shown_head (shown_head close))),
    numberAfter?_shown isKey minimum, numberAfter?_shown isKey target,
    numberAfter?_append isKey third (.inl (by decide))]
  rfl

theorem plainLevels_render (l : ManifestLevels) : plainLevels l.render.toList = l := by
  have build : numberAfter? "platformBuildVersionCode".toList l.render.toList = l.build := by
    have own : Occurs "platformBuildVersionCode".toList "platformBuildVersionCode" true :=
      ⟨[], by decide, by decide, by decide⟩
    rw [numberAfter?_render (m := false) (t := false) (by decide) (by decide) own (by decide)
      (by decide)]
    simp
  have minimum : numberAfter? "minSdkVersion".toList l.render.toList = l.minimum := by
    have own : Occurs "minSdkVersion".toList "android:minSdkVersion" true :=
      ⟨"android:".toList, by decide, by decide, by decide⟩
    rw [numberAfter?_render (b := false) (t := false) (by decide) (by decide) (by decide) own
      (by decide)]
    simp
  have target : numberAfter? "targetSdkVersion".toList l.render.toList = l.target := by
    have own : Occurs "targetSdkVersion".toList "android:targetSdkVersion" true :=
      ⟨"android:".toList, by decide, by decide, by decide⟩
    rw [numberAfter?_render (b := false) (m := false) (by decide) (by decide) (by decide)
      (by decide) own]
    simp
  have absent (key : List Char) (isKey : IsKey key)
      (literals : ∀ s ∈ ["<manifest", "><uses-sdk", "/></manifest>"], ¬ key <:+: s.toList)
      (build : Occurs key "platformBuildVersionCode" false)
      (minimum : Occurs key "android:minSdkVersion" false)
      (target : Occurs key "android:targetSdkVersion" false) :
      numberAfter? key l.render.toList = none := by
    rw [numberAfter?_render isKey literals build minimum target]
    rfl
  have targets : numberAfterAny? ["targetSdkVersion", "target-version"] l.render.toList =
      l.target := by
    have other := absent "target-version".toList (by decide) (by decide) (by decide) (by decide)
      (by decide)
    unfold numberAfterAny?
    rw [List.findSome?_cons, target, List.findSome?_cons, other]
    cases l.target <;> rfl
  have minima : numberAfterAny? ["minSdkVersion", "min-version"] l.render.toList =
      l.minimum := by
    have other := absent "min-version".toList (by decide) (by decide) (by decide) (by decide)
      (by decide)
    unfold numberAfterAny?
    rw [List.findSome?_cons, minimum, List.findSome?_cons, other]
    cases l.minimum <;> rfl
  have builds : numberAfterAny? ["platformBuildVersionCode"] l.render.toList = l.build := by
    unfold numberAfterAny?
    rw [List.findSome?_cons, build]
    cases l.build <;> rfl
  unfold plainLevels
  rw [targets, minima, builds]

/-! ## Reading -/

theorem ascii_shown {name : String} (named : IsAscii name.toList) (level : Option UInt32) :
    IsAscii (shown name level).toList := by
  cases level with
  | none => exact fun c hc => nomatch hc
  | some n =>
      have digits : IsAscii (decimal n).toList := by
        intro c hc
        have digit := isDigit_of_mem_decimal hc
        exact of_decide_eq_true (of_isDigit (p := fun c => c.toNat ≤ 0x7F) digit (by decide))
      rw [toList_shown]
      have blank : IsAscii [' '] := by decide
      have equals : IsAscii ['=', '"'] := by decide
      have quote : IsAscii ['"'] := by decide
      exact ((blank.append named).append equals).append (digits.append quote)

theorem ascii_render (l : ManifestLevels) : IsAscii l.render.toList := by
  have front : IsAscii "<manifest".toList := by decide
  have middle : IsAscii "><uses-sdk".toList := by decide
  have back : IsAscii ("/></manifest>".toList ++ []) := by decide
  rw [toList_render]
  exact front.append ((ascii_shown (by decide) _).append (middle.append
    ((ascii_shown (by decide) _).append ((ascii_shown (by decide) _).append back))))

theorem isBinary_plainBytes (l : ManifestLevels) : isBinary l.plainBytes = false := by
  have bytes : l.plainBytes = l.render.toList.flatMap charBytes := utf8_of_ascii l.ascii_render
  obtain ⟨rest, starts⟩ : ∃ rest, l.render.toList = '<' :: 'm' :: rest := ⟨_, l.toList_render⟩
  rw [bytes, starts]
  simp [isBinary, u16At?, charBytes]

/-- A plain manifest is read as the levels that it names. -/
theorem parse_plainBytes (l : ManifestLevels) : parse l.plainBytes = l := by
  have bytes : l.plainBytes = l.render.toList.flatMap charBytes := utf8_of_ascii l.ascii_render
  have decoded : decodeLossy l.plainBytes = l.render.toList := by
    rw [bytes]
    exact decodeLossy_flatMap_charBytes fun c hc => Nat.le_trans (l.ascii_render c hc) (by decide)
  unfold parse
  rw [isBinary_plainBytes, decoded]
  exact l.plainLevels_render

end ManifestLevels

end ClassUniverse
