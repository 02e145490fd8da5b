import ClassUniverse.Numbering.Domains

/-!
# Holders of numbers

A number has at most one holder and an element holds at most one number.  Adding an element gives it
a number and takes none from an element that still exists; removing an element takes its number and
no other.
-/

namespace ClassUniverse

variable {α : Type}

/-! ## Dense numbering -/

namespace DenseNumbering

/-- No element holds two numbers. -/
def IsWellFormed (n : DenseNumbering α) : Prop :=
  ∀ i j a, n.get? i = some a → n.get? j = some a → i = j

theorem isWellFormed_empty : (empty : DenseNumbering α).IsWellFormed := by
  intro i j a h
  simp [get?, empty] at h

theorem get?_push (n : DenseNumbering α) (a : α) (id : Nat) :
    DenseNumbering.get? ⟨n.places.push (some a)⟩ id =
      if id = n.places.size + 1 then some a else n.get? id := by
  unfold get?
  by_cases h0 : id = 0
  · simp [h0]
  by_cases h : id = n.places.size + 1
  · simp [h]
  · have hne : id - 1 ≠ n.places.size := by omega
    simp [h0, h, Array.getElem?_push, hne]

theorem get?_set (n : DenseNumbering α) (gone id : Nat) (hg : n.get? gone ≠ none) :
    DenseNumbering.get? ⟨n.places.set! (gone - 1) none⟩ id =
      if id = gone then none else n.get? id := by
  have hpos : gone ≠ 0 := by
    rintro rfl
    exact hg rfl
  unfold get?
  by_cases h0 : id = 0
  · simp [h0]
  rw [if_neg h0, if_neg h0, Array.set!_eq_setIfInBounds, Array.getElem?_setIfInBounds]
  by_cases h : id = gone
  · subst h
    simp only [if_true]
    split <;> rfl
  · rw [if_neg (show ¬ gone - 1 = id - 1 by omega), if_neg h]

variable [DecidableEq α]

theorem idOf?_eq_some_iff {n : DenseNumbering α} (w : n.IsWellFormed) {a : α} {id : Nat} :
    n.idOf? a = some id ↔ n.get? id = some a := by
  have found : ∀ id, n.idOf? a = some id → n.get? id = some a := by
    intro id h
    obtain ⟨i, hi, rfl⟩ := Option.map_eq_some_iff.mp h
    obtain ⟨hlt, hp, -⟩ := Array.findIdx?_eq_some_iff_getElem.mp hi
    have hp : n.places[i] = some a := by simpa using hp
    simp [get?, Array.getElem?_eq_getElem hlt, hp]
  refine ⟨found id, fun h => ?_⟩
  have hmem : ∃ p ∈ n.places, p == some a := by
    unfold get? at h
    split at h
    · cases h
    · exact ⟨some a, Array.mem_of_getElem? (Option.join_eq_some_iff.mp h), by simp⟩
  cases hid : n.idOf? a with
  | none =>
      rw [idOf?, Option.map_eq_none_iff, Array.findIdx?_eq_none_iff] at hid
      obtain ⟨p, hp, he⟩ := hmem
      rw [hid p hp] at he
      cases he
  | some other => rw [w id other a h (found other hid)]

/-- What an addition does to the holders. -/
theorem get?_add {n : DenseNumbering α} (w : n.IsWellFormed) (a : α) (id : Nat) :
    (n.add a).2.get? id = if id = (n.add a).1 then some a else n.get? id := by
  unfold add
  cases h : n.idOf? a with
  | none => exact get?_push n a id
  | some old =>
      by_cases hid : id = old
      · simpa [hid] using (idOf?_eq_some_iff w).mp h
      · simp [hid]

theorem add_eq_of_get? {n : DenseNumbering α} (w : n.IsWellFormed) {a : α} {id : Nat}
    (h : n.get? id = some a) : n.add a = (id, n) := by
  simp [add, (idOf?_eq_some_iff w).mpr h]

theorem get?_add_new {n : DenseNumbering α} {a b : α} (hn : n.idOf? a = none) :
    n.get? (n.add a).1 ≠ some b := by
  simp [add, hn, get?]

theorem isWellFormed_add {n : DenseNumbering α} (w : n.IsWellFormed) (a : α) :
    (n.add a).2.IsWellFormed := by
  intro i j b hi hj
  rw [get?_add w] at hi hj
  split at hi <;> split at hj
  · simp_all
  · cases hi
    rw [add_eq_of_get? w hj] at *
    simp_all
  · cases hj
    rw [add_eq_of_get? w hi] at *
    simp_all
  · exact w i j b hi hj

theorem get?_of_remove? {n m : DenseNumbering α} (w : n.IsWellFormed) {a : α}
    (h : n.remove? a = some m) (id : Nat) (b : α) :
    m.get? id = some b ↔ n.get? id = some b ∧ b ≠ a := by
  obtain ⟨gone, hg, rfl⟩ := Option.map_eq_some_iff.mp h
  have hg := (idOf?_eq_some_iff w).mp hg
  rw [get?_set n gone id (by simp [hg])]
  by_cases hid : id = gone
  · subst hid
    simp only [if_true, hg]
    grind
  · simp only [if_neg hid]
    refine ⟨fun hb => ⟨hb, ?_⟩, And.left⟩
    rintro rfl
    exact hid (w id gone b hb hg)

theorem isWellFormed_of_remove? {n m : DenseNumbering α} (w : n.IsWellFormed) {a : α}
    (h : n.remove? a = some m) : m.IsWellFormed := by
  intro i j b hi hj
  rw [get?_of_remove? w h] at hi hj
  exact w i j b hi.1 hj.1

end DenseNumbering

/-! ## Recycling numbering -/

namespace RecyclingNumbering

/-- The element that holds a number, whether it still exists or not. -/
def holder? (n : RecyclingNumbering α) (id : Nat) : Option α := (n.place? id).bind (·.holder)

/-- No element holds two numbers, and each free number stands once in the list and has a place
without a holder. -/
structure IsWellFormed (n : RecyclingNumbering α) : Prop where
  single : ∀ i j a, n.holder? i = some a → n.holder? j = some a → i = j
  free_nodup : n.free.Nodup
  free_vacant : ∀ id ∈ n.free, (n.place? id).isSome ∧ n.holder? id = none

theorem isWellFormed_empty : (empty : RecyclingNumbering α).IsWellFormed where
  single i j a h := by simp [holder?, place?, empty] at h
  free_nodup := List.nodup_nil
  free_vacant id h := by simp [empty] at h

theorem get?_eq_filter (isLive : α → Bool) (n : RecyclingNumbering α) (id : Nat) :
    n.get? isLive id = (n.holder? id).filter isLive := by
  unfold get? holder? liveHolder?
  cases n.place? id <;> rfl

theorem place?_set (n : RecyclingNumbering α) (p : RecyclingPlace α) {id : Nat} (other : Nat)
    (h : (n.place? id).isSome) :
    place? { n with places := n.places.set! (id - 1) p } other =
      if other = id then some p else n.place? other := by
  unfold place? at h ⊢
  split at h
  · cases h
  have hlt : id - 1 < n.places.size := by
    simpa using h
  by_cases h0 : other = 0
  · subst h0
    simp [show ¬ 0 = id by omega]
  rw [if_neg h0, if_neg h0, Array.set!_eq_setIfInBounds, Array.getElem?_setIfInBounds]
  by_cases heq : other = id
  · simp [heq, hlt]
  · rw [if_neg (show ¬ id - 1 = other - 1 by omega), if_neg heq]

theorem holder?_vacate (n : RecyclingNumbering α) (id other : Nat) :
    (n.vacate id).holder? other = if other = id then none else n.holder? other := by
  unfold vacate
  split
  · rename_i a vacated hp
    change (place? { n with places := _ } other).bind _ = _
    rw [place?_set n _ other (by simp [hp])]
    by_cases h : other = id <;> simp [h, holder?]
  · rename_i hp
    by_cases h : other = id
    · subst h
      rw [if_pos rfl]
      unfold holder?
      cases hq : n.place? other with
      | none => rfl
      | some p =>
          obtain ⟨_ | a, vacated⟩ := p
          · rfl
          · exact (hp a vacated hq).elim
    · rw [if_neg h]

theorem isWellFormed_vacate {n : RecyclingNumbering α} (w : n.IsWellFormed) (id : Nat) :
    (n.vacate id).IsWellFormed := by
  have single : ∀ i j a, (n.vacate id).holder? i = some a → (n.vacate id).holder? j = some a →
      i = j := by
    intro i j a hi hj
    rw [holder?_vacate] at hi hj
    split at hi
    · cases hi
    split at hj
    · cases hj
    exact w.single i j a hi hj
  have same (hf : (n.vacate id).free = n.free) (he : n.vacate id = n) :
      (n.vacate id).IsWellFormed := by rw [he]; exact w
  cases hp : n.place? id with
  | none => exact same (by simp [vacate, hp]) (by simp [vacate, hp])
  | some p =>
      obtain ⟨_ | a, vacated⟩ := p
      · exact same (by simp [vacate, hp]) (by simp [vacate, hp])
      have held : n.holder? id = some a := by simp [holder?, hp]
      have hfree : (n.vacate id).free = id :: n.free := by simp [vacate, hp]
      have hplace (other : Nat) :
          ((n.vacate id).place? other).isSome = (n.place? other).isSome := by
        simp only [vacate, hp]
        change (place? { n with places := _ } other).isSome = _
        rw [place?_set n _ other (by simp [hp])]
        by_cases h : other = id <;> simp [h, hp]
      refine ⟨single, ?_, ?_⟩
      · rw [hfree, List.nodup_cons]
        refine ⟨fun hm => ?_, w.free_nodup⟩
        rw [(w.free_vacant id hm).2] at held
        cases held
      · intro other hm
        rw [hfree, List.mem_cons] at hm
        rw [hplace, holder?_vacate]
        rcases hm with rfl | hm
        · simp [hp]
        · have hv := w.free_vacant other hm
          exact ⟨hv.1, by split <;> simp [hv.2]⟩

theorem isWellFormed_vacateAll {n : RecyclingNumbering α} (w : n.IsWellFormed) (ids : List Nat) :
    (ids.foldl vacate n).IsWellFormed := by
  induction ids generalizing n with
  | nil => exact w
  | cons id ids ih => exact ih (isWellFormed_vacate w id)

theorem holder?_vacateAll (n : RecyclingNumbering α) (ids : List Nat) (other : Nat) :
    (ids.foldl vacate n).holder? other = if other ∈ ids then none else n.holder? other := by
  induction ids generalizing n with
  | nil => simp
  | cons id ids ih =>
      rw [List.foldl_cons, ih, holder?_vacate]
      by_cases hm : other ∈ ids
      · simp [hm]
      · by_cases h : other = id <;> simp [hm, h]

theorem not_live_of_mem_deadIds {isLive : α → Bool} {n : RecyclingNumbering α} {id : Nat} {a : α}
    (hm : id ∈ n.deadIds isLive) (ha : n.holder? id = some a) : isLive a = false := by
  obtain ⟨⟨p, i⟩, hz, hd⟩ := List.mem_filterMap.mp hm
  obtain ⟨hpos, hlt, hp⟩ := List.mem_zipIdx hz
  cases hh : p.holder with
  | none => simp [hh] at hd
  | some b =>
      simp only [hh, Option.ite_none_left_eq_some, Option.some.injEq] at hd
      obtain ⟨hb, rfl⟩ := hd
      have hplace : n.place? i = some p := by
        unfold place?
        rw [if_neg (by omega), Array.getElem?_eq_some_iff]
        exact ⟨by simpa using (by omega : i - 1 < n.places.toList.length), by simpa using hp.symm⟩
      simp only [holder?, hplace, Option.bind_some, hh, Option.some.injEq] at ha
      simpa [ha] using hb

theorem isWellFormed_sweep (isLive : α → Bool) {n : RecyclingNumbering α} (w : n.IsWellFormed) :
    (n.sweep isLive).IsWellFormed :=
  have h := isWellFormed_vacateAll w (n.deadIds isLive)
  ⟨h.single, h.free_nodup, h.free_vacant⟩

theorem holder?_of_sweep {isLive : α → Bool} {n : RecyclingNumbering α} {id : Nat} {a : α}
    (h : (n.sweep isLive).holder? id = some a) : n.holder? id = some a := by
  have h : ((n.deadIds isLive).foldl vacate n).holder? id = some a := h
  rw [holder?_vacateAll] at h
  split at h
  · cases h
  · exact h

theorem holder?_sweep_of_live {isLive : α → Bool} {n : RecyclingNumbering α} {id : Nat} {a : α}
    (h : n.holder? id = some a) (ha : isLive a = true) : (n.sweep isLive).holder? id = some a := by
  change ((n.deadIds isLive).foldl vacate n).holder? id = some a
  rw [holder?_vacateAll, if_neg, h]
  intro hm
  rw [not_live_of_mem_deadIds hm h] at ha
  cases ha

/-- The number that is given was nobody's, and is now the element's. -/
theorem holder?_settle {n : RecyclingNumbering α} (w : n.IsWellFormed) (a : α) (id : Nat) :
    n.holder? (n.settle a).1 = none ∧
      (n.settle a).2.holder? id = if id = (n.settle a).1 then some a else n.holder? id := by
  unfold settle
  split
  · rename_i first free hf
    obtain ⟨hp, hv⟩ := w.free_vacant first (by simp [hf])
    refine ⟨hv, ?_⟩
    have hpos : first ≠ 0 := by
      rintro rfl
      simp [place?] at hp
    have hlt : first - 1 < n.places.size := by simpa [place?, hpos] using hp
    simp only [holder?, place?]
    by_cases h0 : id = 0
    · subst h0
      simp [Ne.symm hpos]
    rw [if_neg h0, if_neg h0, Array.getElem?_modify]
    by_cases h : id = first
    · subst h
      simp [Array.getElem?_eq_getElem hlt]
    · rw [if_neg (show ¬ first - 1 = id - 1 by omega), if_neg h]
  · refine ⟨by simp [holder?, place?], ?_⟩
    simp only [holder?, place?]
    by_cases h0 : id = 0
    · simp [h0]
    rw [if_neg h0, if_neg h0, Array.getElem?_push]
    by_cases h : id = n.places.size + 1
    · simp [h]
    · rw [if_neg (show ¬ id - 1 = n.places.size by omega), if_neg h]

theorem free_settle (n : RecyclingNumbering α) (a : α) : (n.settle a).2.free = n.free.tail := by
  unfold settle
  split <;> simp_all

theorem settle_id_notMem_free {n : RecyclingNumbering α} (w : n.IsWellFormed) (a : α) :
    (n.settle a).1 ∉ (n.settle a).2.free := by
  rw [free_settle]
  have hn := w.free_nodup
  unfold settle
  split
  · rename_i first free hf
    rw [hf, List.nodup_cons] at hn
    simpa [hf] using hn.1
  · rename_i hf
    simp [hf]

theorem place?_settle {n : RecyclingNumbering α} {a : α} {id : Nat} (h : (n.place? id).isSome) :
    ((n.settle a).2.place? id).isSome := by
  unfold place? at h
  split at h
  · cases h
  rename_i h0
  unfold settle
  split
  · simp only [place?, if_neg h0, Array.getElem?_modify]
    split <;> simpa using h
  · simp only [place?, if_neg h0, Array.getElem?_push]
    split
    · rfl
    · exact h

theorem isWellFormed_settle {n : RecyclingNumbering α} (w : n.IsWellFormed) {a : α}
    (hn : ∀ id, n.holder? id ≠ some a) : (n.settle a).2.IsWellFormed := by
  refine ⟨?_, ?_, ?_⟩
  · intro i j b hi hj
    rw [(holder?_settle w a _).2] at hi hj
    split at hi <;> split at hj
    · simp_all
    · cases hi
      exact (hn j hj).elim
    · cases hj
      exact (hn i hi).elim
    · exact w.single i j b hi hj
  · rw [free_settle]
    exact w.free_nodup.sublist n.free.tail_sublist
  · intro id hm
    have hnew : id ≠ (n.settle a).1 := by
      rintro rfl
      exact settle_id_notMem_free w a hm
    rw [free_settle] at hm
    obtain ⟨hp, hv⟩ := w.free_vacant id (List.mem_of_mem_tail hm)
    exact ⟨place?_settle hp, by rw [(holder?_settle w a id).2, if_neg hnew, hv]⟩

variable [DecidableEq α]

theorem idOf?_eq_some_iff {n : RecyclingNumbering α} (w : n.IsWellFormed) {a : α} {id : Nat} :
    n.idOf? a = some id ↔ n.holder? id = some a := by
  have found : ∀ id, n.idOf? a = some id → n.holder? id = some a := by
    intro id h
    obtain ⟨i, hi, rfl⟩ := Option.map_eq_some_iff.mp h
    obtain ⟨hlt, hp, -⟩ := Array.findIdx?_eq_some_iff_getElem.mp hi
    simpa [holder?, place?, Array.getElem?_eq_getElem hlt] using hp
  refine ⟨found id, fun h => ?_⟩
  have hmem : ∃ p ∈ n.places, p.holder == some a := by
    obtain ⟨p, hp, hh⟩ := Option.bind_eq_some_iff.mp h
    unfold place? at hp
    split at hp
    · cases hp
    · exact ⟨p, Array.mem_of_getElem? hp, by simp [hh]⟩
  cases hid : n.idOf? a with
  | none =>
      rw [idOf?, Option.map_eq_none_iff, Array.findIdx?_eq_none_iff] at hid
      obtain ⟨p, hp, he⟩ := hmem
      rw [hid p hp] at he
      cases he
  | some other => rw [w.single id other a h (found other hid)]

theorem idOf?_eq_none_iff {n : RecyclingNumbering α} (w : n.IsWellFormed) {a : α} :
    n.idOf? a = none ↔ ∀ id, n.holder? id ≠ some a := by
  rw [Option.eq_none_iff_forall_ne_some]
  exact forall_congr' fun id => not_congr (idOf?_eq_some_iff w)

/-- The numbering in which an addition looks for a free number. -/
def readied (isLive : α → Bool) (n : RecyclingNumbering α) : RecyclingNumbering α :=
  let counted := { n with addedSinceSweep := n.addedSinceSweep + 1 }
  if counted.isSweepDue then counted.sweep isLive else counted

omit [DecidableEq α] in
theorem isWellFormed_readied (isLive : α → Bool) {n : RecyclingNumbering α} (w : n.IsWellFormed) :
    (n.readied isLive).IsWellFormed := by
  have counted : IsWellFormed { n with addedSinceSweep := n.addedSinceSweep + 1 } :=
    ⟨w.single, w.free_nodup, w.free_vacant⟩
  unfold readied
  dsimp only
  split
  · exact isWellFormed_sweep isLive counted
  · exact counted

omit [DecidableEq α] in
theorem holder?_of_readied {isLive : α → Bool} {n : RecyclingNumbering α} {id : Nat} {a : α}
    (h : (n.readied isLive).holder? id = some a) : n.holder? id = some a := by
  unfold readied at h
  dsimp only at h
  split at h
  · have h := holder?_of_sweep h
    exact h
  · exact h

omit [DecidableEq α] in
theorem holder?_readied_of_live {isLive : α → Bool} {n : RecyclingNumbering α} {id : Nat} {a : α}
    (h : n.holder? id = some a) (ha : isLive a = true) :
    (n.readied isLive).holder? id = some a := by
  unfold readied
  dsimp only
  split
  · exact holder?_sweep_of_live h ha
  · exact h

theorem add_of_holder? {n : RecyclingNumbering α} (w : n.IsWellFormed) (isLive : α → Bool) {a : α}
    {id : Nat} (h : n.holder? id = some a) : n.add isLive a = (id, n) := by
  simp [add, (idOf?_eq_some_iff w).mpr h]

theorem add_of_idOf?_none {n : RecyclingNumbering α} (isLive : α → Bool) {a : α}
    (h : n.idOf? a = none) : n.add isLive a = (n.readied isLive).settle a := by
  simp only [add, h, readied]

theorem isWellFormed_add (isLive : α → Bool) {n : RecyclingNumbering α} (w : n.IsWellFormed)
    (a : α) : (n.add isLive a).2.IsWellFormed := by
  cases h : n.idOf? a with
  | some id => rwa [add_of_holder? w isLive ((idOf?_eq_some_iff w).mp h)]
  | none =>
      rw [add_of_idOf?_none isLive h]
      refine isWellFormed_settle (isWellFormed_readied isLive w) fun id hr => ?_
      exact (idOf?_eq_none_iff w).mp h id (holder?_of_readied hr)

theorem holder?_add_self (isLive : α → Bool) {n : RecyclingNumbering α} (w : n.IsWellFormed)
    (a : α) : (n.add isLive a).2.holder? (n.add isLive a).1 = some a := by
  cases h : n.idOf? a with
  | some id =>
      rw [add_of_holder? w isLive ((idOf?_eq_some_iff w).mp h)]
      exact (idOf?_eq_some_iff w).mp h
  | none =>
      rw [add_of_idOf?_none isLive h, (holder?_settle (isWellFormed_readied isLive w) a _).2]
      simp

theorem holder?_add_of_live {isLive : α → Bool} {n : RecyclingNumbering α} (w : n.IsWellFormed)
    (a : α) {b : α} {id : Nat} (hb : n.holder? id = some b) (live : isLive b = true) :
    (n.add isLive a).2.holder? id = some b := by
  cases h : n.idOf? a with
  | some other => rwa [add_of_holder? w isLive ((idOf?_eq_some_iff w).mp h)]
  | none =>
      have hr := holder?_readied_of_live hb live
      obtain ⟨hv, hs⟩ := holder?_settle (isWellFormed_readied isLive w) a id
      rw [add_of_idOf?_none isLive h, hs, if_neg, hr]
      rintro rfl
      rw [hv] at hr
      cases hr

theorem holder?_of_remove? {n m : RecyclingNumbering α} (w : n.IsWellFormed) {a : α}
    (h : n.remove? a = some m) (id : Nat) (b : α) :
    m.holder? id = some b ↔ n.holder? id = some b ∧ b ≠ a := by
  obtain ⟨gone, hg, rfl⟩ := Option.map_eq_some_iff.mp h
  have hg := (idOf?_eq_some_iff w).mp hg
  rw [holder?_vacate]
  by_cases hid : id = gone
  · subst hid
    simp only [if_true, hg]
    grind
  · simp only [if_neg hid]
    refine ⟨fun hb => ⟨hb, ?_⟩, And.left⟩
    rintro rfl
    exact hid (w.single id gone b hb hg)

theorem isWellFormed_of_remove? {n m : RecyclingNumbering α} (w : n.IsWellFormed) {a : α}
    (h : n.remove? a = some m) : m.IsWellFormed := by
  obtain ⟨gone, -, rfl⟩ := Option.map_eq_some_iff.mp h
  exact isWellFormed_vacate w gone

end RecyclingNumbering

/-! ## Numbering of one sort or the other -/

namespace Numbering

def IsWellFormed : Numbering α → Prop
  | dense n => n.IsWellFormed
  | recycling n => n.IsWellFormed

theorem isWellFormed_empty (recycles : Bool) :
    (Numbering.empty recycles : Numbering α).IsWellFormed := by
  cases recycles
  · exact DenseNumbering.isWellFormed_empty
  · exact RecyclingNumbering.isWellFormed_empty

variable [DecidableEq α] {n : Numbering α} {isLive : α → Bool} {a b : α} {id : Nat}

theorem isWellFormed_add (isLive : α → Bool) (w : n.IsWellFormed) (a : α) :
    (n.add isLive a).2.IsWellFormed := by
  cases n with
  | dense n => exact DenseNumbering.isWellFormed_add w a
  | recycling n => exact RecyclingNumbering.isWellFormed_add isLive w a

theorem idOf?_add_self (isLive : α → Bool) (w : n.IsWellFormed) (a : α) :
    (n.add isLive a).2.idOf? a = some (n.add isLive a).1 := by
  cases n with
  | dense n =>
      refine (DenseNumbering.idOf?_eq_some_iff (DenseNumbering.isWellFormed_add w a)).mpr ?_
      rw [DenseNumbering.get?_add w]
      exact if_pos rfl
  | recycling n =>
      exact
        (RecyclingNumbering.idOf?_eq_some_iff (RecyclingNumbering.isWellFormed_add isLive w a)).mpr
        (RecyclingNumbering.holder?_add_self isLive w a)

theorem idOf?_add_of_live (w : n.IsWellFormed) (a : α) (h : n.idOf? b = some id)
    (live : isLive b = true) : (n.add isLive a).2.idOf? b = some id := by
  cases n with
  | dense n =>
      refine (DenseNumbering.idOf?_eq_some_iff (DenseNumbering.isWellFormed_add w a)).mpr ?_
      have hb : n.get? id = some b := (DenseNumbering.idOf?_eq_some_iff w).mp h
      rw [DenseNumbering.get?_add w]
      split
      · rename_i hid
        cases hn : n.idOf? a with
        | none => exact (DenseNumbering.get?_add_new hn (hid ▸ hb)).elim
        | some old =>
            have ha := (DenseNumbering.idOf?_eq_some_iff w).mp hn
            rw [DenseNumbering.add_eq_of_get? w ha] at hid
            rw [← ha, ← hb, hid]
      · exact hb
  | recycling n =>
      refine (RecyclingNumbering.idOf?_eq_some_iff
        (RecyclingNumbering.isWellFormed_add isLive w a)).mpr ?_
      exact RecyclingNumbering.holder?_add_of_live w a
        ((RecyclingNumbering.idOf?_eq_some_iff w).mp h) live

theorem isWellFormed_remove (w : n.IsWellFormed) (a : α) : (n.remove a).2.IsWellFormed := by
  cases n with
  | dense n =>
      unfold remove
      dsimp only
      split
      · exact DenseNumbering.isWellFormed_of_remove? w ‹_›
      · exact w
  | recycling n =>
      unfold remove
      dsimp only
      split
      · exact RecyclingNumbering.isWellFormed_of_remove? w ‹_›
      · exact w

theorem idOf?_remove_of_ne (w : n.IsWellFormed) (hne : b ≠ a) :
    (n.remove a).2.idOf? b = n.idOf? b := by
  apply Option.ext
  intro id
  cases n with
  | dense n =>
      unfold remove
      dsimp only
      split
      · rename_i m hm
        change m.idOf? b = _ ↔ n.idOf? b = _
        rw [DenseNumbering.idOf?_eq_some_iff (DenseNumbering.isWellFormed_of_remove? w hm),
          DenseNumbering.idOf?_eq_some_iff w, DenseNumbering.get?_of_remove? w hm]
        simp [hne]
      · rfl
  | recycling n =>
      unfold remove
      dsimp only
      split
      · rename_i m hm
        change m.idOf? b = _ ↔ n.idOf? b = _
        rw [RecyclingNumbering.idOf?_eq_some_iff (RecyclingNumbering.isWellFormed_of_remove? w hm),
          RecyclingNumbering.idOf?_eq_some_iff w, RecyclingNumbering.holder?_of_remove? w hm]
        simp [hne]
      · rfl

theorem get?_eq_some_iff (w : n.IsWellFormed) (live : isLive a = true) :
    n.get? isLive id = some a ↔ n.idOf? a = some id := by
  cases n with
  | dense n => exact (DenseNumbering.idOf?_eq_some_iff w).symm
  | recycling n =>
      change n.get? isLive id = some a ↔ n.idOf? a = some id
      rw [RecyclingNumbering.idOf?_eq_some_iff w, RecyclingNumbering.get?_eq_filter,
        Option.filter_eq_some_iff]
      simp [live]

theorem eq_of_idOf? (w : n.IsWellFormed) (ha : n.idOf? a = some id) (hb : n.idOf? b = some id) :
    a = b := by
  cases n with
  | dense n =>
      have ha := (DenseNumbering.idOf?_eq_some_iff w).mp ha
      have hb := (DenseNumbering.idOf?_eq_some_iff w).mp hb
      exact Option.some.inj (ha.symm.trans hb)
  | recycling n =>
      have ha := (RecyclingNumbering.idOf?_eq_some_iff w).mp ha
      have hb := (RecyclingNumbering.idOf?_eq_some_iff w).mp hb
      exact Option.some.inj (ha.symm.trans hb)

end Numbering

end ClassUniverse
