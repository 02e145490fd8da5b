import ClassUniverse.Proofs.Numbering.Lasting

/-!
# Several elements at once

Elements are added to a numbering, or removed from it, one after the other.  Additions give numbers
to the elements that are added, and to no others.  They take none from an element that the numbering
still finds; removals take the numbers of the elements that are removed, and no others.
-/

namespace ClassUniverse

namespace Numbering

variable {α : Type}

/-- Whether a number leads to the element that has it.  A dense numbering keeps its elements in
existence. -/
def finds (isLive : α → Bool) : Numbering α → α → Bool
  | dense _, _ => true
  | recycling _, a => isLive a

theorem finds_of_live {isLive : α → Bool} {n : Numbering α} {a : α} (live : isLive a = true) :
    n.finds isLive a = true := by
  cases n with
  | dense n => rfl
  | recycling n => exact live

/-- What is found among fewer living elements is found among more. -/
theorem finds_mono {isLive wasLive : α → Bool} {n : Numbering α} {a : α}
    (less : isLive a = true → wasLive a = true) (found : n.finds isLive a = true) :
    n.finds wasLive a = true := by
  cases n with
  | dense n => rfl
  | recycling n => exact less found

variable [DecidableEq α] {n m o : Numbering α} {isLive : α → Bool} {a b : α} {l : List α} {id : Nat}

/-- An element is found under its number and no other one. -/
theorem get?_eq_some_iff_finds (w : n.IsWellFormed) :
    n.get? isLive id = some a ↔ n.idOf? a = some id ∧ n.finds isLive a = true := by
  cases n with
  | dense n =>
      have found : n.idOf? a = some id ↔ n.get? id = some a := DenseNumbering.idOf?_eq_some_iff w
      exact found.symm.trans (and_iff_left rfl).symm
  | recycling n =>
      have held : n.idOf? a = some id ↔ n.holder? id = some a :=
        RecyclingNumbering.idOf?_eq_some_iff w
      change n.get? isLive id = some a ↔ n.idOf? a = some id ∧ isLive a = true
      rw [held, RecyclingNumbering.get?_eq_filter, Option.filter_eq_some_iff]

theorem idOf?_empty (recycles : Bool) (a : α) : (empty recycles).idOf? a = none := by
  cases recycles with
  | false => simp [empty, idOf?, DenseNumbering.idOf?, DenseNumbering.empty]
  | true => simp [empty, idOf?, RecyclingNumbering.idOf?, RecyclingNumbering.empty]

/-! ## One element -/

theorem finds_add (n : Numbering α) (isLive wasLive : α → Bool) (a b : α) :
    (n.add wasLive a).2.finds isLive b = n.finds isLive b := by
  cases n <;> rfl

theorem finds_remove (n : Numbering α) (isLive : α → Bool) (a b : α) :
    (n.remove a).2.finds isLive b = n.finds isLive b := by
  cases n <;> simp only [remove] <;> split <;> rfl

theorem idOf?_add_of_finds (w : n.IsWellFormed) (a : α) (h : n.idOf? b = some id)
    (found : n.finds isLive b = true) : (n.add isLive a).2.idOf? b = some id := by
  cases n with
  | dense n =>
      -- a dense numbering does not ask which elements live
      have kept (live : α → Bool) (all : live b = true) := idOf?_add_of_live w a h all
      exact kept (fun _ => true) rfl
  | recycling n => exact idOf?_add_of_live w a h found

theorem idOf?_of_add (w : n.IsWellFormed) (h : (n.add isLive a).2.idOf? b = some id) :
    b = a ∨ n.idOf? b = some id := by
  have wa := isWellFormed_add isLive w a
  cases n with
  | dense n =>
      have h : (n.add a).2.get? id = some b := (DenseNumbering.idOf?_eq_some_iff wa).mp h
      rw [DenseNumbering.get?_add w] at h
      split at h
      · exact .inl (Option.some.inj h).symm
      · exact .inr ((DenseNumbering.idOf?_eq_some_iff w).mpr h)
  | recycling n =>
      have h : (n.add isLive a).2.holder? id = some b :=
        (RecyclingNumbering.idOf?_eq_some_iff wa).mp h
      exact (RecyclingNumbering.holder?_of_add w h).imp_right
        (RecyclingNumbering.idOf?_eq_some_iff w).mpr

theorem idOf?_remove_self (w : n.IsWellFormed) (a : α) : (n.remove a).2.idOf? a = none := by
  cases n with
  | dense n =>
      unfold remove
      dsimp only
      split
      · rename_i m hm
        rw [Option.eq_none_iff_forall_ne_some]
        intro id h
        have w' := DenseNumbering.isWellFormed_of_remove? w hm
        have held : m.get? id = some a := (DenseNumbering.idOf?_eq_some_iff w').mp h
        exact ((DenseNumbering.get?_of_remove? w hm id a).mp held).2 rfl
      · exact Option.map_eq_none_iff.mp ‹_›
  | recycling n =>
      unfold remove
      dsimp only
      split
      · rename_i m hm
        refine (RecyclingNumbering.idOf?_eq_none_iff
          (RecyclingNumbering.isWellFormed_of_remove? w hm)).mpr fun id h => ?_
        exact ((RecyclingNumbering.holder?_of_remove? w hm id a).mp h).2 rfl
      · exact Option.map_eq_none_iff.mp ‹_›

/-! ## Additions -/

/-- A numbering that comes from another one by additions, where the elements that have got numbers
are told by a property. -/
structure Adds (isLive : α → Bool) (n m : Numbering α) (new : α → Prop) : Prop where
  isWellFormed : m.IsWellFormed
  finds : ∀ a, m.finds isLive a = n.finds isLive a
  kept : ∀ {a id}, n.finds isLive a = true → n.idOf? a = some id → m.idOf? a = some id
  given : ∀ {a}, n.finds isLive a = true → new a → ∃ id, m.idOf? a = some id
  only : ∀ {a id}, m.idOf? a = some id → n.idOf? a = some id ∨ new a

namespace Adds

variable {new more : α → Prop}

theorem refl (w : n.IsWellFormed) : Adds isLive n n fun _ => False where
  isWellFormed := w
  finds _ := rfl
  kept _ h := h
  given _ h := h.elim
  only h := .inl h

theorem trans (h : Adds isLive n m new) (k : Adds isLive m o more) :
    Adds isLive n o fun a => new a ∨ more a where
  isWellFormed := k.isWellFormed
  finds a := (k.finds a).trans (h.finds a)
  kept {a _} found hn := k.kept ((h.finds a).trans found) (h.kept found hn)
  given {a} found hn := by
    have later : m.finds isLive a = true := (h.finds a).trans found
    rcases hn with hn | hn
    · obtain ⟨id, hid⟩ := h.given found hn
      exact ⟨id, k.kept later hid⟩
    · exact k.given later hn
  only ho := by
    rcases k.only ho with hm | hm
    · exact (h.only hm).imp_right .inl
    · exact .inr (.inr hm)

theorem congr (h : Adds isLive n m new) (same : ∀ a, new a ↔ more a) : Adds isLive n m more where
  isWellFormed := h.isWellFormed
  finds := h.finds
  kept := h.kept
  given found hn := h.given found ((same _).mpr hn)
  only ho := (h.only ho).imp_right (same _).mp

/-- The numbered elements that are found. -/
theorem numbered_iff (h : Adds isLive n m new) (found : m.finds isLive a = true) :
    (∃ id, m.idOf? a = some id) ↔ (∃ id, n.idOf? a = some id) ∨ new a := by
  rw [h.finds] at found
  constructor
  · rintro ⟨id, hid⟩
    exact (h.only hid).imp_left fun old => ⟨id, old⟩
  · rintro (⟨id, hid⟩ | hn)
    · exact ⟨id, h.kept found hid⟩
    · exact h.given found hn

end Adds

/-- The numbering after some elements have got numbers. -/
def addAll (isLive : α → Bool) (n : Numbering α) (l : List α) : Numbering α :=
  l.foldl (fun n a => (n.add isLive a).2) n

theorem adds_add (w : n.IsWellFormed) (a : α) :
    Adds isLive n (n.add isLive a).2 fun b => b = a where
  isWellFormed := isWellFormed_add isLive w a
  finds := finds_add n isLive isLive a
  kept found h := idOf?_add_of_finds w a h found
  given _ h := by
    subst h
    exact ⟨_, idOf?_add_self isLive w _⟩
  only h := (idOf?_of_add w h).symm

theorem adds_addAll (w : n.IsWellFormed) (l : List α) :
    Adds isLive n (n.addAll isLive l) fun b => b ∈ l := by
  induction l generalizing n with
  | nil => exact (Adds.refl w).congr fun b => by simp
  | cons a l ih =>
      have first : Adds isLive n (n.add isLive a).2 fun b => b = a := adds_add w a
      exact (first.trans (ih first.isWellFormed)).congr fun b => List.mem_cons.symm

/-! ## Removals -/

/-- The numbering without some elements. -/
def removeAll (n : Numbering α) (l : List α) : Numbering α :=
  l.foldl (fun n a => (n.remove a).2) n

theorem isWellFormed_removeAll (w : n.IsWellFormed) (l : List α) :
    (n.removeAll l).IsWellFormed := by
  induction l generalizing n with
  | nil => exact w
  | cons a l ih => exact ih (isWellFormed_remove w a)

theorem finds_removeAll (n : Numbering α) (isLive : α → Bool) (l : List α) (b : α) :
    (n.removeAll l).finds isLive b = n.finds isLive b := by
  induction l generalizing n with
  | nil => rfl
  | cons a l ih => exact (ih (n.remove a).2).trans (finds_remove n isLive a b)

theorem idOf?_removeAll (w : n.IsWellFormed) (l : List α) (b : α) :
    (n.removeAll l).idOf? b = if b ∈ l then none else n.idOf? b := by
  induction l generalizing n with
  | nil => simp [removeAll]
  | cons a l ih =>
      have step : (n.removeAll (a :: l)).idOf? b = _ := ih (isWellFormed_remove w a)
      rw [step]
      by_cases same : b = a
      · subst same
        simp [idOf?_remove_self w]
      · simp [same, idOf?_remove_of_ne w same]

end Numbering

end ClassUniverse
