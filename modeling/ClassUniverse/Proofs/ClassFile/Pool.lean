import ClassUniverse.ClassFile.Parse
import ClassUniverse.Proofs.ClassFile.Written
import Mathlib.Data.List.Basic

/-!
# The table of a pool

The table that a reader makes of the constants of a pool has each of them at its index, and nothing
at zero and at the second index of a wide one.
-/

namespace ClassUniverse.ClassFile.Image

open Text

/-- The table that a reader makes of a pool. -/
def table (pool : List Entry) : ConstantTable := ConstantTable.ofConstants (pool.map Entry.constant)

/-- The places that a constant takes in a table. -/
def Entry.places (e : Entry) : List (Option Constant) :=
  some e.constant :: List.replicate (e.width - 1) none

theorem toList_table (pool : List Entry) :
    (table pool).toList = none :: pool.flatMap Entry.places := by
  simp only [table, ConstantTable.ofConstants, List.flatMap_map, Entry.width_constant]
  rfl

theorem Entry.length_places (e : Entry) : e.places.length = e.width := by
  have hpos := e.width_pos
  simp [Entry.places]
  omega

/-! ## Constants by index -/

section Numbered

variable {first index : Nat} {pool : List Entry} {e : Entry}

theorem le_of_mem_numbered (h : (index, e) ∈ numbered first pool) : first ≤ index := by
  induction pool generalizing first with
  | nil => nomatch h
  | cons head pool ih =>
      rw [numbered, List.mem_cons] at h
      cases h with
      | inl h => cases h; exact Nat.le_refl _
      | inr h => exact Nat.le_trans (Nat.le_add_right _ _) (ih h)

theorem mem_of_mem_numbered (h : (index, e) ∈ numbered first pool) : e ∈ pool := by
  induction pool generalizing first with
  | nil => nomatch h
  | cons head pool ih =>
      rw [numbered, List.mem_cons] at h
      cases h with
      | inl h => cases h; exact List.mem_cons_self
      | inr h => exact List.mem_cons_of_mem head (ih h)

theorem lookup_of_lt (h : index < first) : (numbered first pool).lookup index = none := by
  rw [List.lookup_eq_none_iff]
  intro entry hentry
  have hle := le_of_mem_numbered hentry
  rw [bne_iff_ne]
  omega

theorem lookup_cons_of_lt (head : Entry) (h : first < index) :
    (numbered first (head :: pool)).lookup index =
      (numbered (first + head.width) pool).lookup index := by
  have hne : (index == first) = false := by
    rw [beq_eq_false_iff_ne]
    omega
  rw [numbered, List.lookup_cons, hne]

/-- No index stands for two constants. -/
theorem lookup_of_mem (h : (index, e) ∈ numbered first pool) :
    (numbered first pool).lookup index = some e := by
  induction pool generalizing first with
  | nil => nomatch h
  | cons head pool ih =>
      rw [numbered, List.mem_cons] at h
      cases h with
      | inl h => cases h; simp [numbered]
      | inr h =>
          have hle := le_of_mem_numbered h
          have hpos := head.width_pos
          rw [lookup_cons_of_lt head (by omega)]
          exact ih h

theorem mem_of_lookup (h : (numbered first pool).lookup index = some e) :
    (index, e) ∈ numbered first pool := by
  obtain ⟨front, back, hsplit, -⟩ := List.lookup_eq_some_iff.1 h
  simp [hsplit]

end Numbered

/-- Constants lie in the table in the order of the pool. -/
theorem getElem?_places (pool : List Entry) (first place : Nat) :
    (pool.flatMap Entry.places)[place]?.join =
      ((numbered first pool).lookup (first + place)).map Entry.constant := by
  induction pool generalizing first place with
  | nil => rfl
  | cons head pool ih =>
      have hlength := head.length_places
      rw [List.flatMap_cons]
      by_cases hzero : place = 0
      · simp [hzero, Entry.places, numbered]
      rw [lookup_cons_of_lt head (by omega)]
      by_cases hlt : place < head.width
      · rw [List.getElem?_append_left (by omega), lookup_of_lt (by omega), Entry.places,
          List.getElem?_cons, if_neg hzero, List.getElem?_replicate]
        split <;> rfl
      · have hindex : first + place = first + head.width + (place - head.width) := by omega
        rw [List.getElem?_append_right (by omega), hlength, ih, ← hindex]

theorem constant?_table (pool : List Entry) (index : Nat) :
    (table pool).constant? index = ((numbered 1 pool).lookup index).map Entry.constant := by
  rw [ConstantTable.constant?, ← Array.getElem?_toList, toList_table]
  cases index with
  | zero => rw [lookup_of_lt (by decide)]; rfl
  | succ place => rw [List.getElem?_cons_succ, getElem?_places pool 1, Nat.add_comm]

/-! ## All the constants of a table -/

variable {β : Type} {f : Option Constant → Nat → Option β}

/-- What is collected from the places of constants is collected from the constants. -/
theorem filterMap_places (nothing : ∀ index, f none index = none) (pool : List Entry)
    (first : Nat) :
    ((pool.flatMap Entry.places).zipIdx first).filterMap (fun place => f place.1 place.2) =
      (numbered first pool).filterMap fun entry => f (some entry.2.constant) entry.1 := by
  induction pool generalizing first with
  | nil => rfl
  | cons e pool ih =>
      have hone : (e.places.zipIdx first).filterMap (fun place => f place.1 place.2) =
          (f (some e.constant) first).toList := by
        have hrest : ((List.replicate (e.width - 1) none).zipIdx (first + 1)).filterMap
            (fun place => f place.1 place.2) = [] := by
          rw [List.filterMap_eq_nil_iff]
          intro place hplace
          have hnone : place.1 = none :=
            List.eq_of_mem_replicate (List.fst_mem_of_mem_zipIdx hplace)
          rw [hnone, nothing]
        rw [Entry.places, List.zipIdx_cons, List.filterMap_cons, hrest]
        cases f (some e.constant) first <;> rfl
      rw [List.flatMap_cons, List.zipIdx_append, List.filterMap_append, hone,
        Entry.length_places, ih, numbered, List.filterMap_cons]
      cases f (some e.constant) first <;> rfl

theorem filterMap_range_table (nothing : ∀ index, f none index = none) (pool : List Entry) :
    ((List.range (table pool).size).filterMap fun index =>
        f ((table pool).constant? index) index) =
      (numbered 1 pool).filterMap fun entry => f (some entry.2.constant) entry.1 := by
  have hindices : List.range (table pool).size = (table pool).toList.zipIdx.map Prod.snd := by
    rw [List.zipIdx_map_snd, Array.length_toList, List.range_eq_range']
  have hplaces : ∀ place ∈ (table pool).toList.zipIdx,
      f ((table pool).constant? place.2) place.2 = f place.1 place.2 := by
    intro place hplace
    rw [List.mem_zipIdx_iff_getElem?, Array.getElem?_toList] at hplace
    rw [ConstantTable.constant?, hplace, Option.join_some]
  rw [hindices, List.filterMap_map]
  calc (table pool).toList.zipIdx.filterMap
        (fun place => f ((table pool).constant? place.2) place.2)
      _ = (table pool).toList.zipIdx.filterMap (fun place => f place.1 place.2) :=
        List.filterMap_congr hplaces
      _ = _ := by
        rw [toList_table, List.zipIdx_cons, List.filterMap_cons, nothing]
        exact filterMap_places nothing pool 1

end ClassUniverse.ClassFile.Image
