/-!
# Cutting text at a separator

Texts are cut as lists of characters, and bytes in the same way.  Cutting at every separator and
joining again is the identity, and a list of pieces without separators is what the joined text is
cut into.
-/

namespace ClassUniverse.Text

variable {α : Type}

def joinWith (sep : α) : List (List α) → List α
  | [] => []
  | [piece] => piece
  | piece :: next :: rest => piece ++ sep :: joinWith sep (next :: rest)

theorem joinWith_cons_head (sep c : α) (piece : List α) (pieces : List (List α)) :
    joinWith sep ((c :: piece) :: pieces) = c :: joinWith sep (piece :: pieces) := by
  cases pieces <;> simp [joinWith]

variable [DecidableEq α]

/-- The pieces between the separators; a text without separator is one piece. -/
def splitOn (sep : α) : List α → List (List α)
  | [] => [[]]
  | c :: rest =>
      if c = sep then [] :: splitOn sep rest
      else
        match splitOn sep rest with
        | [] => [[c]]
        | piece :: pieces => (c :: piece) :: pieces

theorem splitOn_ne_nil (sep : α) (s : List α) : splitOn sep s ≠ [] := by
  cases s with
  | nil => simp [splitOn]
  | cons c rest =>
      unfold splitOn
      by_cases h : c = sep
      · simp [h]
      · simp only [h, if_false]
        split <;> simp

theorem joinWith_splitOn (sep : α) (s : List α) : joinWith sep (splitOn sep s) = s := by
  induction s with
  | nil => rfl
  | cons c rest ih =>
      unfold splitOn
      by_cases h : c = sep
      · simp only [h, if_true]
        match hs : splitOn sep rest with
        | [] => exact absurd hs (splitOn_ne_nil sep rest)
        | piece :: pieces => rw [← ih, hs]; rfl
      · simp only [h, if_false]
        match hs : splitOn sep rest with
        | [] => exact absurd hs (splitOn_ne_nil sep rest)
        | piece :: pieces => rw [← ih, hs]; exact joinWith_cons_head sep c piece pieces

theorem splitOn_of_not_mem {sep : α} {s : List α} (h : sep ∉ s) : splitOn sep s = [s] := by
  induction s with
  | nil => rfl
  | cons c rest ih =>
      have hc : c ≠ sep := fun hc => h (by simp [hc])
      have hr : sep ∉ rest := fun hr => h (by simp [hr])
      simp [splitOn, hc, ih hr]

theorem splitOn_append_sep {sep : α} {s : List α} (h : sep ∉ s) (rest : List α) :
    splitOn sep (s ++ sep :: rest) = s :: splitOn sep rest := by
  induction s with
  | nil => simp [splitOn]
  | cons c s ih =>
      have hc : c ≠ sep := fun hc => h (by simp [hc])
      have hs : sep ∉ s := fun hs => h (by simp [hs])
      simp [splitOn, hc, ih hs]

/-- A list of pieces without separators is recovered from the joined text. -/
theorem splitOn_joinWith {sep : α} {pieces : List (List α)} (hne : pieces ≠ [])
    (h : ∀ piece ∈ pieces, sep ∉ piece) : splitOn sep (joinWith sep pieces) = pieces := by
  induction pieces with
  | nil => exact absurd rfl hne
  | cons piece rest ih =>
      have hp : sep ∉ piece := h piece (by simp)
      cases rest with
      | nil => exact splitOn_of_not_mem hp
      | cons next rest =>
          have hr := ih (by simp) (fun q hq => h q (by simp [hq]))
          simp [joinWith, splitOn_append_sep hp, hr]

theorem not_mem_of_mem_splitOn {sep : α} {s piece : List α} (h : piece ∈ splitOn sep s) :
    sep ∉ piece := by
  induction s generalizing piece with
  | nil =>
      have : piece = [] := by simpa [splitOn] using h
      simp [this]
  | cons c rest ih =>
      unfold splitOn at h
      by_cases hc : c = sep
      · simp only [hc, if_true, List.mem_cons] at h
        rcases h with rfl | h
        · simp
        · exact ih h
      · simp only [hc, if_false] at h
        split at h
        · have : piece = [c] := by simpa using h
          simp [this, Ne.symm hc]
        · rename_i head pieces hs
          rcases List.mem_cons.1 h with rfl | h
          · have hhead : sep ∉ head := ih (by simp [hs])
            simp [Ne.symm hc, hhead]
          · exact ih (by simp [hs, h])

/-- The text before the first separator and the text after it. -/
def splitFirst (sep : Char) : List Char → Option (List Char × List Char)
  | [] => none
  | c :: rest =>
      if c = sep then some ([], rest)
      else (splitFirst sep rest).map fun (before, after) => (c :: before, after)

/-- Cutting at the first separator succeeds exactly on a text that is a piece without separator, a
separator and a rest, and gives these two. -/
theorem splitFirst_eq_some_iff {sep : Char} {s before after : List Char} :
    splitFirst sep s = some (before, after) ↔ s = before ++ sep :: after ∧ sep ∉ before := by
  induction s generalizing before with
  | nil => simp [splitFirst]
  | cons c rest ih =>
      unfold splitFirst
      by_cases hc : c = sep
      · subst hc
        constructor
        · intro h
          simp only [if_true, Option.some.injEq, Prod.mk.injEq] at h
          simp [← h.1, h.2]
        · rintro ⟨h, hn⟩
          cases before with
          | nil => simpa using h
          | cons b before =>
              simp only [List.cons_append, List.cons.injEq] at h
              exact absurd (by simp [h.1]) hn
      · simp only [hc, if_false, Option.map_eq_some_iff, Prod.exists, Prod.mk.injEq]
        constructor
        · rintro ⟨b, a, h, rfl, rfl⟩
          obtain ⟨h, hn⟩ := ih.1 h
          exact ⟨by simp [h], by simp [hn, Ne.symm hc]⟩
        · rintro ⟨h, hn⟩
          cases before with
          | nil =>
              simp only [List.nil_append, List.cons.injEq] at h
              exact absurd h.1 hc
          | cons b before =>
              simp only [List.cons_append, List.cons.injEq] at h
              refine ⟨before, after, ih.2 ⟨h.2, fun hm => hn (by simp [hm])⟩, by simp [h.1], rfl⟩

/-- A text is cut at its first separator in one way. -/
theorem append_sep_inj {sep : Char} {before after first rest : List Char} (h : sep ∉ before)
    (h' : sep ∉ first) :
    before ++ sep :: after = first ++ sep :: rest ↔ before = first ∧ after = rest := by
  constructor
  · intro same
    have cut := splitFirst_eq_some_iff.mpr ⟨same, h'⟩
    rw [splitFirst_eq_some_iff.mpr ⟨rfl, h⟩] at cut
    exact Prod.mk.inj (Option.some.inj cut)
  · rintro ⟨rfl, rfl⟩
    rfl

/-- The text before the last separator and the text after it. -/
def splitLast (sep : Char) (s : List Char) : Option (List Char × List Char) :=
  (splitFirst sep s.reverse).map fun (after, before) => (before.reverse, after.reverse)

def pieces (sep : Char) (s : String) : List String := (splitOn sep s.toList).map String.ofList

/-- The text before the last dot, for a text that has one. -/
def beforeLastDot? (s : String) : Option String :=
  (splitLast '.' s.toList).map fun (before, _) => String.ofList before

def occursIn (needle : List Char) : List Char → Bool
  | [] => needle.isEmpty
  | c :: rest => needle.isPrefixOf (c :: rest) || occursIn needle rest

end ClassUniverse.Text
