import ClassUniverse.ClassFile.TypeDescriptor
import ClassUniverse.Proofs.Guarded.Text

/-!
# Cutting type descriptors at places

A type is cut off the front of a descriptor at places counted in bytes.  The places are those of
characters of one byte that have been found in the text, so each cut falls between two characters
and the text that is left gets shorter.
-/

namespace ClassUniverse.ClassFile

open Text Guarded
open String (utf8Len utf8Len_nil utf8Len_cons utf8Len_append)

/-- No descriptor of a class file comes near this size. -/
def IsCuttable (s : List Char) : Prop := utf8Len s < 2 ^ 62

theorem IsCuttable.suffix {s rest : List Char} (h : IsCuttable s) (suffix : rest <:+ s) :
    IsCuttable rest := by
  obtain ⟨before, rfl⟩ := suffix
  unfold IsCuttable at h ⊢
  rw [utf8Len_append] at h
  omega

/-! ## Base types -/

namespace BaseType

/-- The source name of the base type at the front of a text, and the text behind it. -/
def cut (s : List Char) : Guarded (String × List Char) := do
  let letter ← ofOption s.head?
  if letter = 'L' then
    let stop ← ofOption (place? ';' s)
    let path ← textBetween s 1 stop
    let next ← plus stop 1
    let rest ← textFrom s next
    return (String.ofList (exchange '/' '.' path), rest)
  else
    let base ← ofOption (ofLetter? letter)
    let rest ← textFrom s 1
    return (base.sourceName, rest)

variable {s rest : List Char} {base : BaseType}

theorem suffix_of_read? (h : read? s = some (base, rest)) : rest <:+ s := by
  unfold read? at h
  split at h
  · cases h
  · obtain ⟨⟨path, after⟩, hs, same⟩ := Option.map_eq_some_iff.mp h
    obtain ⟨-, rfl⟩ := Prod.mk.inj same
    obtain ⟨rfl, -⟩ := splitFirst_eq_some_iff.mp hs
    exact ⟨'L' :: path ++ [';'], by simp⟩
  · obtain ⟨_, -, same⟩ := Option.map_eq_some_iff.mp h
    obtain ⟨-, rfl⟩ := Prod.mk.inj same
    exact List.suffix_cons _ _

/-- Every letter of a base type takes one byte. -/
theorem utf8Size_of_ofLetter? {c : Char} (h : ofLetter? c = some base) : c.utf8Size = 1 := by
  unfold ofLetter? at h
  split at h <;> first | rfl | cases h

theorem cut_object (h : IsCuttable ('L' :: rest)) :
    cut ('L' :: rest) = ofOption ((splitFirst ';' rest).map fun (path, rest) =>
      ((object path).sourceName, rest)) := by
  have places : place? ';' ('L' :: rest) =
      (splitFirst ';' rest).map fun (path, _) => utf8Len ('L' :: path) := by
    rw [place?_eq, splitFirst, if_neg (by decide), Option.map_map]
    rfl
  rw [cut, List.head?_cons, some_bind, if_pos rfl, places]
  cases hs : splitFirst ';' rest with
  | none => rfl
  | some cutAt =>
      obtain ⟨path, after⟩ := cutAt
      obtain ⟨rfl, -⟩ := splitFirst_eq_some_iff.mp hs
      have within : textBetween ('L' :: (path ++ ';' :: after)) 1 (utf8Len ('L' :: path)) =
          pure path := textBetween_append ['L'] path (';' :: after)
      have whole : ('L' :: path ++ [';']) ++ after = 'L' :: (path ++ ';' :: after) := by simp
      have next : utf8Len ('L' :: path) + 1 = utf8Len ('L' :: path ++ [';']) := by
        rw [utf8Len_append]
        rfl
      have small : utf8Len ('L' :: path) + 1 < 2 ^ 64 := by
        unfold IsCuttable at h
        rw [← whole, utf8Len_append] at h
        omega
      have behind : textFrom ('L' :: (path ++ ';' :: after)) (utf8Len ('L' :: path) + 1) =
          pure after := by
        rw [next, ← whole]
        exact textFrom_append _ after
      rw [Option.map_some, some_bind, within, pure_bind, plus_eq small, pure_bind, behind,
        pure_bind]
      rfl

theorem cut_letter {c : Char} (h : c ≠ 'L') :
    cut (c :: rest) = ofOption ((ofLetter? c).map fun base => (base.sourceName, rest)) := by
  rw [cut, List.head?_cons, some_bind, if_neg h]
  cases hc : ofLetter? c with
  | none => rfl
  | some base =>
      have behind : textFrom (c :: rest) 1 = pure rest := by
        have one : utf8Len [c] = 1 := by simp [utf8Size_of_ofLetter? hc]
        rw [← one]
        exact textFrom_append [c] rest
      rw [some_bind, behind, pure_bind]
      rfl

theorem cut_eq (h : IsCuttable s) :
    cut s = ofOption ((read? s).map fun (base, rest) => (base.sourceName, rest)) := by
  cases s with
  | nil => rfl
  | cons c rest =>
      by_cases object : c = 'L'
      · subst object
        rw [cut_object h, read?, Option.map_map]
        rfl
      · rw [cut_letter object, read?, Option.map_map]
        · rfl
        · exact object

end BaseType

/-! ## Types -/

namespace TypeDescriptor

/-- The source name of the type at the front of a text, and the text behind it. -/
def cut (s : List Char) : Guarded (String × List Char) := do
  let dimensions ← minus (utf8Len s) (utf8Len (s.dropWhile (· == '[')))
  let rest ← textFrom s dimensions
  let (base, rest) ← BaseType.cut rest
  let brackets ← repeated "[]" dimensions
  return (base ++ brackets, rest)

variable {s rest : List Char} {t : TypeDescriptor}

theorem suffix_of_read? (h : read? s = some (t, rest)) : rest <:+ s := by
  obtain ⟨⟨base, after⟩, hb, same⟩ := Option.map_eq_some_iff.mp h
  obtain ⟨-, rfl⟩ := Prod.mk.inj same
  exact (BaseType.suffix_of_read? hb).trans (List.dropWhile_suffix _)

theorem utf8Len_brackets (s : List Char) :
    utf8Len (s.takeWhile (· == '[')) = (s.takeWhile (· == '[')).length := by
  induction s with
  | nil => rfl
  | cons c s ih =>
      rw [List.takeWhile_cons]
      split
      · rename_i h
        rw [utf8Len_cons, ih, List.length_cons, eq_of_beq h]
        rfl
      · rfl

theorem cut_eq (h : IsCuttable s) :
    cut s = ofOption ((read? s).map fun (t, rest) => (t.sourceName, rest)) := by
  have parts : s.takeWhile (· == '[') ++ s.dropWhile (· == '[') = s :=
    List.takeWhile_append_dropWhile
  have sum : utf8Len s = (s.takeWhile (· == '[')).length + utf8Len (s.dropWhile (· == '[')) := by
    rw [← utf8Len_brackets, ← utf8Len_append, parts]
  have dimensions : minus (utf8Len s) (utf8Len (s.dropWhile (· == '['))) =
      pure (s.takeWhile (· == '[')).length := by
    rw [minus_eq (by omega)]
    congr 1
    omega
  have behind : textFrom s (s.takeWhile (· == '[')).length = pure (s.dropWhile (· == '[')) := by
    have found := textFrom_append (s.takeWhile (· == '[')) (s.dropWhile (· == '['))
    rwa [parts, utf8Len_brackets] at found
  have few : utf8Len "[]".toList * (s.takeWhile (· == '[')).length < 2 ^ 63 := by
    have two : utf8Len "[]".toList = 2 := by decide
    unfold IsCuttable at h
    rw [two]
    omega
  rw [cut, dimensions, pure_bind, behind, pure_bind,
    BaseType.cut_eq (h.suffix (List.dropWhile_suffix _)), read?]
  cases BaseType.read? (s.dropWhile (· == '[')) with
  | none => rfl
  | some found =>
      rw [Option.map_some, some_bind]
      dsimp only
      rw [repeated_eq few, pure_bind]
      rfl

end TypeDescriptor

/-! ## Methods -/

namespace MethodDescriptor

/-- Cuts off one more parameter, unless the closing parenthesis comes next. -/
def cutParameter : List String × List Char →
    Guarded ((List String × List Char) ⊕ (List String × List Char))
  | (names, rest) =>
      if rest.head? = some ')' then pure (.inr (names, rest))
      else do
        let (name, tail) ← TypeDescriptor.cut rest
        return .inl (names ++ [name], tail)

/-- The source names of the parameters of a method and of its result. -/
def cut (s : List Char) : Guarded (List String × String) := do
  let rest ← ofOption (if s.head? = some '(' then some s.tail else none)
  let (names, rest) ← loop (fun state => state.2.length) cutParameter ([], rest)
  let rest ← textFrom rest 1
  let (result, _) ← TypeDescriptor.cut rest
  return (names, result)

theorem readParameters?_of_open {s : List Char} (opened : ∀ rest, s = ')' :: rest → False) :
    readParameters? s = (TypeDescriptor.read? s).bind fun (first, rest) =>
      (readParameters? rest).map fun (others, rest) => (first :: others, rest) := by
  rw [readParameters?.eq_2 s opened]
  split <;> rename_i found <;> rw [found] <;> rfl

theorem suffix_of_readParameters? {s rest : List Char} {types : List TypeDescriptor}
    (h : readParameters? s = some (types, rest)) : ')' :: rest <:+ s := by
  induction s using readParameters?.induct generalizing types with
  | case1 after =>
      rw [readParameters?] at h
      obtain ⟨-, rfl⟩ := Prod.mk.inj (Option.some.inj h)
      exact List.suffix_rfl
  | case2 s opened missing =>
      rw [readParameters?_of_open opened, missing] at h
      cases h
  | case3 s opened first after found ih =>
      rw [readParameters?_of_open opened, found, Option.bind_some] at h
      obtain ⟨⟨others, last⟩, later, same⟩ := Option.map_eq_some_iff.mp h
      obtain ⟨-, rfl⟩ := Prod.mk.inj same
      exact (ih later).trans (TypeDescriptor.suffix_of_read? found)

/-- The parameters are cut off one after the other as they are read. -/
theorem loop_cutParameter {s : List Char} (h : IsCuttable s) (names : List String) :
    loop (fun state => state.2.length) cutParameter (names, s) =
      ofOption ((readParameters? s).map fun (types, rest) =>
        (names ++ types.map TypeDescriptor.sourceName, ')' :: rest)) := by
  refine loop_eq (fun state => IsCuttable state.2)
    (fun state => (readParameters? state.2).map fun (types, rest) =>
      (state.1 ++ types.map TypeDescriptor.sourceName, ')' :: rest)) ?_ (s := (names, s)) h
  rintro ⟨names, s⟩ cuttable
  by_cases closed : s.head? = some ')'
  · obtain ⟨rest, rfl⟩ := List.head?_eq_some_iff.mp closed
    left
    rw [cutParameter, if_pos closed, readParameters?]
    simp [pure_eq]
  · have unfolded := readParameters?_of_open (s := s) fun rest same => closed (same ▸ rfl)
    have stepped : cutParameter (names, s) = ofOption ((TypeDescriptor.read? s).map fun (t, rest) =>
        .inl (names ++ [t.sourceName], rest)) := by
      rw [cutParameter, if_neg closed, TypeDescriptor.cut_eq cuttable]
      cases TypeDescriptor.read? s <;> rfl
    cases found : TypeDescriptor.read? s with
    | none =>
        left
        rw [stepped, unfolded, found]
        rfl
    | some first =>
        obtain ⟨t, rest⟩ := first
        refine .inr ⟨(names ++ [t.sourceName], rest), ?_, TypeDescriptor.length_of_read? found,
          cuttable.suffix (TypeDescriptor.suffix_of_read? found), ?_⟩
        · rw [stepped, found]
          rfl
        · dsimp only
          rw [unfolded, found, Option.bind_some, Option.map_map]
          congr 1
          funext parts
          obtain ⟨others, after⟩ := parts
          simp

theorem cut_eq {s : List Char} (h : IsCuttable s) :
    cut s = ofOption ((read? s).map fun m =>
      (m.parameters.map TypeDescriptor.sourceName, m.result.sourceName)) := by
  by_cases opened : s.head? = some '('
  · obtain ⟨rest, rfl⟩ := List.head?_eq_some_iff.mp opened
    have cuttable : IsCuttable rest := h.suffix (List.suffix_cons _ _)
    rw [cut, if_pos opened, some_bind, List.tail_cons, loop_cutParameter cuttable, read?]
    cases found : readParameters? rest with
    | none => rfl
    | some parts =>
        obtain ⟨types, last⟩ := parts
        have suffix := suffix_of_readParameters? found
        have behind : textFrom (')' :: last) 1 = pure last := textFrom_append [')'] last
        have cuttable' : IsCuttable last :=
          cuttable.suffix ((List.suffix_cons _ _).trans suffix)
        rw [Option.map_some, some_bind]
        dsimp only
        rw [behind, pure_bind, TypeDescriptor.cut_eq cuttable']
        cases TypeDescriptor.read? last <;> rfl
  · have other : read? s = none := by
      unfold read?
      split
      · exact absurd rfl opened
      · rfl
    rw [cut, if_neg opened, other]
    rfl

end MethodDescriptor

end ClassUniverse.ClassFile
