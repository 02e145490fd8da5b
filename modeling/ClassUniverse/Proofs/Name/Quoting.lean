import ClassUniverse.Name.Quoting

/-!
# Quoting loses nothing

A name is recovered from its written form, and the shortcut for names in which nothing can need
quotes is one in time only.  The texts that are written forms are those whose segments are: a
segment is between quotes exactly if what stands there needs them.
-/

namespace ClassUniverse

namespace Text

variable {α : Type} [DecidableEq α] {sep : α} {s piece : List α}

theorem isInfix_of_mem_splitOn (h : piece ∈ splitOn sep s) : piece <:+: s := by
  induction s generalizing piece with
  | nil =>
      have empty : piece = [] := by simpa [splitOn] using h
      exact empty ▸ List.nil_infix
  | cons c rest ih =>
      unfold splitOn at h
      by_cases hc : c = sep
      · rw [if_pos hc] at h
        cases List.mem_cons.mp h with
        | inl first => exact first ▸ List.nil_infix
        | inr later => exact (ih later).trans (List.suffix_cons c rest).isInfix
      · rw [if_neg hc] at h
        cases hs : splitOn sep rest with
        | nil => exact absurd hs (splitOn_ne_nil sep rest)
        | cons head pieces =>
            rw [hs] at h
            cases List.mem_cons.mp h with
            | inl first =>
                -- the first piece begins where the text begins
                have joined : joinWith sep (splitOn sep rest) = rest := joinWith_splitOn sep rest
                have begins : head <+: rest := by
                  rw [← joined, hs]
                  cases pieces with
                  | nil => exact List.prefix_refl head
                  | cons next pieces => exact List.prefix_append head _
                rw [first]
                exact ((List.prefix_cons_inj c).mpr begins).isInfix
            | inr later =>
                have later := ih (hs ▸ List.mem_cons_of_mem head later)
                exact later.trans (List.suffix_cons c rest).isInfix

/-- Pieces that are changed one by one are the pieces of the changed text, unless a change brings in
a separator. -/
theorem splitOn_mapPieces {change : List α → List α}
    (keeps : ∀ piece, sep ∉ piece → sep ∉ change piece) (s : List α) :
    splitOn sep (joinWith sep ((splitOn sep s).map change)) = (splitOn sep s).map change := by
  apply splitOn_joinWith
  · simpa using splitOn_ne_nil sep s
  · intro piece hp
    obtain ⟨old, ho, rfl⟩ := List.mem_map.mp hp
    exact keeps old (not_mem_of_mem_splitOn ho)

/-- A text stays the same as its pieces are changed exactly if each piece does. -/
theorem joinWith_mapPieces_eq_self_iff {change : List α → List α}
    (keeps : ∀ piece, sep ∉ piece → sep ∉ change piece) (s : List α) :
    joinWith sep ((splitOn sep s).map change) = s ↔
      ∀ piece ∈ splitOn sep s, change piece = piece := by
  constructor
  · intro same
    have pieces := splitOn_mapPieces keeps s
    rw [same] at pieces
    exact List.map_inj_left.mp (pieces.symm.trans (List.map_id _).symm)
  · intro same
    rw [List.map_congr_left same, List.map_id', joinWith_splitOn]

theorem occursIn_iff {needle text : List Char} :
    occursIn needle text = true ↔ needle <:+: text := by
  induction text with
  | nil => simp [occursIn]
  | cons c rest ih =>
      rw [occursIn, Bool.or_eq_true, List.isPrefixOf_iff_prefix, ih, List.infix_cons_iff]

end Text

namespace Name

open Text

variable {segment inner : List Char} {name : String}

/-! ## Segments -/

theorem looksQuoted_iff :
    looksQuoted segment = true ↔ ∃ inner, segment = '\'' :: inner ++ ['\''] := by
  unfold looksQuoted
  simp only [Bool.and_eq_true, decide_eq_true_eq, beq_iff_eq]
  constructor
  · rintro ⟨⟨long, first⟩, last⟩
    obtain ⟨before, rfl⟩ := List.getLast?_eq_some_iff.mp last
    cases before with
    | nil => simp at long
    | cons c inner =>
        have opening : c = '\'' := by simpa using first
        exact ⟨inner, by rw [opening]⟩
  · rintro ⟨inner, rfl⟩
    exact ⟨⟨by simp, rfl⟩, List.getLast?_concat⟩

theorem looksQuoted_quoted (inner : List Char) : looksQuoted ('\'' :: inner ++ ['\'']) = true :=
  looksQuoted_iff.mpr ⟨inner, rfl⟩

/-- A text is shorter than the same text between quotes. -/
theorem ne_quoted (inner : List Char) : inner ≠ '\'' :: inner ++ ['\''] := by
  intro same
  have lengths := congrArg List.length same
  rw [List.length_append, List.length_cons, List.length_singleton] at lengths
  omega

theorem unquoteSegment_quoted (inner : List Char) :
    unquoteSegment ('\'' :: inner ++ ['\'']) = inner := by
  unfold unquoteSegment
  rw [if_pos (looksQuoted_quoted inner)]
  simp

theorem unquoteSegment_of_unquoted (h : looksQuoted segment = false) :
    unquoteSegment segment = segment := by
  simp [unquoteSegment, h]

theorem quoteSegment_of_needs (h : needsQuoting segment = true) :
    quoteSegment segment = '\'' :: segment ++ ['\''] := by
  simp [quoteSegment, h]

theorem quoteSegment_of_plain (h : needsQuoting segment = false) :
    quoteSegment segment = segment := by
  simp [quoteSegment, h]

theorem looksQuoted_of_plain (h : needsQuoting segment = false) : looksQuoted segment = false := by
  unfold needsQuoting at h
  exact (Bool.or_eq_false_iff.mp h).2

theorem unquoteSegment_quoteSegment (segment : List Char) :
    unquoteSegment (quoteSegment segment) = segment := by
  cases h : needsQuoting segment with
  | true => rw [quoteSegment_of_needs h, unquoteSegment_quoted]
  | false => rw [quoteSegment_of_plain h, unquoteSegment_of_unquoted (looksQuoted_of_plain h)]

/-- Whether a segment is the written form of one: between quotes if what stands there needs them,
and else as it is. -/
def IsWritten (segment : List Char) : Prop :=
  (∃ inner, segment = '\'' :: inner ++ ['\''] ∧ needsQuoting inner = true) ∨
    (looksQuoted segment = false ∧ needsQuoting segment = false)

theorem quoteSegment_unquoteSegment_eq_self_iff :
    quoteSegment (unquoteSegment segment) = segment ↔ IsWritten segment := by
  unfold IsWritten
  cases quoted : looksQuoted segment with
  | true =>
      obtain ⟨inner, rfl⟩ := looksQuoted_iff.mp quoted
      rw [unquoteSegment_quoted]
      constructor
      · intro same
        cases needs : needsQuoting inner with
        | true => exact .inl ⟨inner, rfl, needs⟩
        | false =>
            rw [quoteSegment_of_plain needs] at same
            exact absurd same (ne_quoted inner)
      · rintro (⟨other, same, needs⟩ | ⟨unquoted, -⟩)
        · have he : inner = other := by simpa using same
          rw [he, quoteSegment_of_needs needs]
        · cases unquoted
  | false =>
      rw [unquoteSegment_of_unquoted quoted]
      constructor
      · intro same
        cases needs : needsQuoting segment with
        | false => exact .inr ⟨rfl, rfl⟩
        | true =>
            rw [quoteSegment_of_needs needs] at same
            exact absurd same.symm (ne_quoted segment)
      · rintro (⟨inner, rfl, -⟩ | ⟨-, plain⟩)
        · rw [looksQuoted_quoted] at quoted
          cases quoted
        · exact quoteSegment_of_plain plain

theorem dot_not_mem_quoteSegment (segment : List Char) (h : '.' ∉ segment) :
    '.' ∉ quoteSegment segment := by
  unfold quoteSegment
  split
  · simpa using h
  · exact h

theorem dot_not_mem_unquoteSegment (segment : List Char) (h : '.' ∉ segment) :
    '.' ∉ unquoteSegment segment := by
  unfold unquoteSegment
  split
  · intro hm
    exact h (List.mem_of_mem_tail (List.dropLast_subset _ hm))
  · exact h

/-! ## Shortcuts -/

theorem mayNeedQuoting_of_segment {text : List Char} (hm : segment ∈ splitOn '.' text)
    (h : needsQuoting segment = true) : mayNeedQuoting text = true := by
  have within := isInfix_of_mem_splitOn hm
  unfold needsQuoting at h
  unfold mayNeedQuoting
  simp only [Bool.or_eq_true, beq_iff_eq] at h
  simp only [Bool.or_eq_true, List.contains_iff_mem, List.any_eq_true, occursIn_iff]
  rcases h with (hyphen | reserved) | quoted
  · exact .inl (.inl (within.subset (List.mem_of_head? hyphen)))
  · right
    unfold isReserved at reserved
    refine ⟨_, List.contains_iff_mem.mp reserved, ?_⟩
    rwa [String.toList_ofList]
  · obtain ⟨inner, rfl⟩ := looksQuoted_iff.mp quoted
    exact .inl (.inr (within.subset (by simp)))

/-- A name is written segment by segment. -/
theorem toList_quote (name : String) : (quote name).toList = quoteSegments name.toList := by
  unfold quote
  split
  · rw [String.toList_ofList]
  · rename_i fast
    unfold quoteSegments
    refine ((joinWith_mapPieces_eq_self_iff dot_not_mem_quoteSegment _).mpr ?_).symm
    intro segment hm
    cases needs : needsQuoting segment with
    | true => exact absurd (mayNeedQuoting_of_segment hm needs) fast
    | false => exact quoteSegment_of_plain needs

/-- A written form is read segment by segment. -/
theorem toList_unquote (name : String) : (unquote name).toList = unquoteSegments name.toList := by
  unfold unquote
  split
  · rw [String.toList_ofList]
  · rename_i fast
    unfold unquoteSegments
    refine ((joinWith_mapPieces_eq_self_iff dot_not_mem_unquoteSegment _).mpr ?_).symm
    intro segment hm
    cases quoted : looksQuoted segment with
    | true =>
        obtain ⟨inner, rfl⟩ := looksQuoted_iff.mp quoted
        have within := (isInfix_of_mem_splitOn hm).subset
        exact absurd (List.contains_iff_mem.mpr (within List.mem_cons_self)) fast
    | false => exact unquoteSegment_of_unquoted quoted

/-! ## Names -/

theorem unquoteSegments_quoteSegments (text : List Char) :
    unquoteSegments (quoteSegments text) = text := by
  unfold unquoteSegments quoteSegments
  have same : unquoteSegment ∘ quoteSegment = id := funext unquoteSegment_quoteSegment
  rw [splitOn_mapPieces dot_not_mem_quoteSegment, List.map_map, same, List.map_id,
    joinWith_splitOn]

theorem quoteSegments_unquoteSegments_eq_self_iff (text : List Char) :
    quoteSegments (unquoteSegments text) = text ↔
      ∀ segment ∈ splitOn '.' text, IsWritten segment := by
  unfold unquoteSegments quoteSegments
  rw [splitOn_mapPieces dot_not_mem_unquoteSegment, List.map_map]
  have keeps (segment : List Char) (h : '.' ∉ segment) :
      '.' ∉ (quoteSegment ∘ unquoteSegment) segment :=
    dot_not_mem_quoteSegment _ (dot_not_mem_unquoteSegment segment h)
  rw [joinWith_mapPieces_eq_self_iff keeps]
  exact forall₂_congr fun _ _ => quoteSegment_unquoteSegment_eq_self_iff

/-- A name is recovered from its written form, which is made segment by segment, and a text is
recovered from the name that it is read as exactly if each of its segments is a written one. -/
theorem quote_reversible (name : String) :
    unquote (quote name) = name ∧
      (quote name).toList = joinWith '.' ((splitOn '.' name.toList).map fun segment =>
        if segment.head? = some '-' ∨ String.ofList segment ∈ reservedWords ∨
            looksQuoted segment = true then
          '\'' :: segment ++ ['\'']
        else segment) ∧
      (quote (unquote name) = name ↔ ∀ segment ∈ splitOn '.' name.toList, IsWritten segment) := by
  refine ⟨?_, ?_, ?_⟩
  · rw [← String.toList_inj, toList_unquote, toList_quote, unquoteSegments_quoteSegments]
  · rw [toList_quote]
    unfold quoteSegments quoteSegment needsQuoting isReserved
    simp [or_assoc]
  · rw [← String.toList_inj, toList_quote, toList_unquote]
    exact quoteSegments_unquoteSegments_eq_self_iff name.toList

example : quote "new.classic.-x.'y'" = "'new'.classic.'-x'.''y''" := by decide +kernel

end Name

end ClassUniverse
