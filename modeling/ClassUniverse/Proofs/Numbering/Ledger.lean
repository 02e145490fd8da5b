import ClassUniverse.Proofs.Numbering.Holders
import Mathlib.Data.Finset.Card
import Mathlib.Data.List.Nodup
import Mathlib.Data.List.Range

/-!
# What a dense numbering is used for

Elements are added to a dense numbering and removed from it.  A ledger beside it keeps what the
numbering itself does not: which elements have been added and not been removed since, how many
additions found an element that had no number, and the numbers that additions have given.  The
numbers come in ascending order without a gap, and a number whose element has been removed is
nobody's from then on.
-/

namespace ClassUniverse

namespace DenseNumbering

/-- What is done with a numbering. -/
inductive Use (α : Type)
  | add (a : α)
  | remove (a : α)
  deriving DecidableEq, Repr

def Use.map {α β : Type} (f : α → β) : Use α → Use β
  | add a => add (f a)
  | remove a => remove (f a)

variable {α : Type} {n : DenseNumbering α} {a b : α} {id other : Nat}

/-! ## Places -/

theorem bounds_of_get? (h : n.get? id = some a) : 0 < id ∧ id ≤ n.highest := by
  unfold get? at h
  split at h
  · cases h
  · have small := (Array.getElem?_eq_some_iff.mp (Option.join_eq_some_iff.mp h)).1
    unfold highest
    omega

/-- The numbers in use with their elements are those that lead to one. -/
theorem mem_toList_iff : (id, a) ∈ n.toList ↔ n.get? id = some a := by
  unfold toList get?
  rw [List.mem_filterMap]
  constructor
  · rintro ⟨⟨place, i⟩, hz, hd⟩
    obtain ⟨pos, found⟩ := List.mk_mem_zipIdx_iff_le_and_getElem?_sub.mp hz
    obtain ⟨b, rfl, same⟩ := Option.map_eq_some_iff.mp hd
    obtain ⟨rfl, rfl⟩ := Prod.mk.inj same
    rw [Array.getElem?_toList] at found
    rw [if_neg (Nat.ne_of_gt pos), found]
    rfl
  · intro h
    split at h
    · cases h
    · rename_i pos
      have found := Option.join_eq_some_iff.mp h
      rw [← Array.getElem?_toList] at found
      refine ⟨(some a, id), ?_, rfl⟩
      exact List.mk_mem_zipIdx_iff_le_and_getElem?_sub.mpr ⟨Nat.pos_of_ne_zero pos, found⟩

/-- The numbers in use are listed in ascending order. -/
theorem pairwise_toList (n : DenseNumbering α) :
    (n.toList.map Prod.fst).Pairwise (· < ·) := by
  have ascending : (n.places.toList.zipIdx 1).Pairwise fun x y => x.2 < y.2 := by
    rw [← List.pairwise_map (f := Prod.snd) (R := (· < ·)), List.zipIdx_map_snd]
    exact List.pairwise_lt_range'
  rw [List.pairwise_map]
  unfold toList
  rw [List.pairwise_filterMap]
  refine ascending.imp fun {x y} less b hb c hc => ?_
  obtain ⟨_, -, rfl⟩ := Option.map_eq_some_iff.mp hb
  obtain ⟨_, -, rfl⟩ := Option.map_eq_some_iff.mp hc
  exact less

theorem nodup_toList (n : DenseNumbering α) : n.toList.Nodup := by
  have numbers : (n.toList.map Prod.fst).Nodup := (pairwise_toList n).imp Nat.ne_of_lt
  exact numbers.of_map

variable [DecidableEq α]

theorem idOf?_eq_none_iff (w : n.IsWellFormed) : n.idOf? a = none ↔ ∀ id, n.get? id ≠ some a := by
  rw [Option.eq_none_iff_forall_ne_some]
  exact forall_congr' fun id => not_congr (idOf?_eq_some_iff w)

theorem add_of_new (new : n.idOf? a = none) :
    n.add a = (n.highest + 1, ⟨n.places.push (some a)⟩) := by
  unfold add
  rw [new]
  rfl

theorem highest_of_remove? {m : DenseNumbering α} (h : n.remove? a = some m) :
    m.highest = n.highest := by
  obtain ⟨id, -, rfl⟩ := Option.map_eq_some_iff.mp h
  simp [highest]

/-! ## One use -/

/-- The numbering after a use. -/
def step (n : DenseNumbering α) : Use α → DenseNumbering α
  | .add a => (n.add a).2
  | .remove a => (n.remove? a).getD n

def run (n : DenseNumbering α) (uses : List (Use α)) : DenseNumbering α := uses.foldl step n

theorem isWellFormed_step (w : n.IsWellFormed) (use : Use α) : (n.step use).IsWellFormed := by
  cases use with
  | add a => exact isWellFormed_add w a
  | remove a =>
      rw [step]
      cases h : n.remove? a with
      | none => exact w
      | some m => exact isWellFormed_of_remove? w h

theorem highest_le_step (n : DenseNumbering α) (use : Use α) :
    n.highest ≤ (n.step use).highest := by
  cases use with
  | add a =>
      rw [step]
      cases h : n.idOf? a with
      | none => simp [add_of_new h, highest]
      | some id => simp [add, h]
  | remove a =>
      rw [step]
      cases h : n.remove? a with
      | none => exact Nat.le_refl _
      | some m => exact (highest_of_remove? h).ge

/-- A removal takes the number of the element that is removed, and no other. -/
theorem get?_step_remove (w : n.IsWellFormed) (a : α) :
    (n.step (.remove a)).get? id = some b ↔ n.get? id = some b ∧ b ≠ a := by
  rw [step]
  cases h : n.remove? a with
  | none =>
      have gone := (idOf?_eq_none_iff w).mp (Option.map_eq_none_iff.mp h) id
      refine ⟨fun held => ⟨held, ?_⟩, And.left⟩
      rintro rfl
      exact gone held
  | some m => exact get?_of_remove? w h id b

/-- A number that has an element leads to it until the element is removed. -/
theorem get?_step (w : n.IsWellFormed) (held : n.get? id = some a) (use : Use α) :
    (n.step use).get? id = if use = .remove a then none else some a := by
  cases use with
  | add b =>
      have added : Use.add b ≠ .remove a := by simp
      rw [step, get?_add w, if_neg added]
      split
      · rename_i same
        cases h : n.idOf? b with
        | none =>
            rw [same] at held
            exact absurd held (get?_add_new h)
        | some own =>
            have found := (idOf?_eq_some_iff w).mp h
            rw [add_eq_of_get? w found] at same
            rw [← held, same, found]
      · exact held
  | remove b =>
      by_cases same : b = a
      · rw [if_pos (congrArg Use.remove same), Option.eq_none_iff_forall_ne_some]
        intro c later
        obtain ⟨before, differ⟩ := (get?_step_remove w b).mp later
        rw [held] at before
        exact differ (same ▸ (Option.some.inj before).symm)
      · have differ : Use.remove b ≠ .remove a := fun h => same (Use.remove.inj h)
        rw [if_neg differ]
        exact (get?_step_remove w b).mpr ⟨held, Ne.symm same⟩

/-- A number that has been given and is nobody's stays so. -/
theorem get?_step_of_none (w : n.IsWellFormed) (given : id ≤ n.highest) (free : n.get? id = none)
    (use : Use α) : (n.step use).get? id = none := by
  cases use with
  | add a =>
      rw [step, get?_add w]
      split
      · rename_i same
        cases h : n.idOf? a with
        | none =>
            rw [add_of_new h] at same
            dsimp only at same
            omega
        | some own =>
            have found := (idOf?_eq_some_iff w).mp h
            rw [add_eq_of_get? w found] at same
            rw [same, found] at free
            cases free
      · exact free
  | remove a =>
      rw [Option.eq_none_iff_forall_ne_some]
      intro b later
      rw [((get?_step_remove w a).mp later).1] at free
      cases free

/-! ## Runs -/

theorem highest_le_run (n : DenseNumbering α) (uses : List (Use α)) :
    n.highest ≤ (n.run uses).highest := by
  induction uses generalizing n with
  | nil => exact Nat.le_refl _
  | cons use uses ih => exact (highest_le_step n use).trans (ih (n.step use))

theorem get?_run_of_none (w : n.IsWellFormed) (given : id ≤ n.highest) (free : n.get? id = none)
    (uses : List (Use α)) : (n.run uses).get? id = none := by
  induction uses generalizing n with
  | nil => exact free
  | cons use uses ih =>
      exact ih (isWellFormed_step w use) (given.trans (highest_le_step n use))
        (get?_step_of_none w given free use)

/-- A number that has an element leads to it until the element is removed, and to nothing after
that, whether or not the element comes again. -/
theorem get?_run (w : n.IsWellFormed) (held : n.get? id = some a) (uses : List (Use α)) :
    (n.run uses).get? id = if .remove a ∈ uses then none else some a := by
  induction uses generalizing n with
  | nil => simpa [run] using held
  | cons use uses ih =>
      have next := get?_step w held use
      have w' := isWellFormed_step w use
      by_cases removed : use = .remove a
      · rw [if_pos removed] at next
        rw [if_pos (removed ▸ List.mem_cons_self)]
        have given := (bounds_of_get? held).2.trans (highest_le_step n use)
        exact get?_run_of_none w' given next uses
      · rw [if_neg removed] at next
        have same : .remove a ∈ use :: uses ↔ .remove a ∈ uses := by
          simp [List.mem_cons, Ne.symm removed]
        simp only [same]
        exact ih w' next

/-! ## Ledgers -/

/-- A numbering, the elements that have been added and not been removed since, how many additions
found an element that was not among these, and the numbers that additions have given, first to
last. -/
structure Ledger (α : Type) where
  numbering : DenseNumbering α
  alive : Finset α
  newcomers : Nat
  answers : List Nat

namespace Ledger

def start : Ledger α := ⟨.empty, ∅, 0, []⟩

def step (l : Ledger α) : Use α → Ledger α
  | .add a => ⟨l.numbering.step (.add a), insert a l.alive,
      if a ∈ l.alive then l.newcomers else l.newcomers + 1, l.answers ++ [(l.numbering.add a).1]⟩
  | .remove a => { l with numbering := l.numbering.step (.remove a), alive := l.alive.erase a }

def run (l : Ledger α) (uses : List (Use α)) : Ledger α := uses.foldl step l

/-- The ledger of the keys of some elements after the uses of these. -/
def after {β : Type} (key : β → α) (uses : List (Use β)) : Ledger α :=
  start.run (uses.map (Use.map key))

/-- What holds between the uses of a run. -/
structure IsKept (l : Ledger α) : Prop where
  isWellFormed : l.numbering.IsWellFormed
  alive : ∀ a, a ∈ l.alive ↔ ∃ id, l.numbering.get? id = some a
  newcomers : l.newcomers = l.numbering.highest
  answers : l.answers.eraseDups = List.range' 1 l.numbering.highest

variable {l : Ledger α}

omit [DecidableEq α] in
theorem isKept_start : (start : Ledger α).IsKept where
  isWellFormed := isWellFormed_empty
  alive a := by simp [start, empty, get?]
  newcomers := rfl
  answers := rfl

omit [DecidableEq α] in
theorem IsKept.mem_answers (h : l.IsKept) : id ∈ l.answers ↔ 0 < id ∧ id ≤ l.numbering.highest := by
  rw [← List.mem_eraseDups, h.answers, List.mem_range'_1]
  omega

theorem IsKept.new_iff (h : l.IsKept) : l.numbering.idOf? a = none ↔ a ∉ l.alive := by
  rw [idOf?_eq_none_iff h.isWellFormed, h.alive, not_exists]

/-- The numbers that have been given and one more. -/
theorem eraseDups_answers (answers : List Nat) (id : Nat) :
    (answers ++ [id]).eraseDups =
      if id ∈ answers then answers.eraseDups else answers.eraseDups ++ [id] := by
  rw [List.eraseDups_append]
  by_cases known : id ∈ answers
  · simp [known, List.removeAll]
  · simp [known, List.removeAll, List.eraseDups_cons]

theorem IsKept.add (h : l.IsKept) (a : α) : (l.step (.add a)).IsKept := by
  have w := h.isWellFormed
  have w' := isWellFormed_step w (.add a)
  cases held : l.numbering.idOf? a with
  | some id =>
      have found := (idOf?_eq_some_iff w).mp held
      have same : l.numbering.add a = (id, l.numbering) := add_eq_of_get? w found
      have known : a ∈ l.alive := (h.alive a).mpr ⟨id, found⟩
      have given : id ∈ l.answers := h.mem_answers.mpr (bounds_of_get? found)
      refine ⟨w', ?_, ?_, ?_⟩
      · simp only [step, DenseNumbering.step, same, Finset.insert_eq_of_mem known]
        exact h.alive
      · simp only [step, DenseNumbering.step, same, if_pos known]
        exact h.newcomers
      · simp only [step, DenseNumbering.step, same, eraseDups_answers, if_pos given]
        exact h.answers
  | none =>
      have new : a ∉ l.alive := h.new_iff.mp held
      have next := add_of_new held
      have higher : (l.numbering.add a).2.highest = l.numbering.highest + 1 := by
        simp [next, highest]
      have fresh : l.numbering.highest + 1 ∉ l.answers := by
        rw [h.mem_answers]
        omega
      refine ⟨w', fun b => ?_, ?_, ?_⟩
      · simp only [step, DenseNumbering.step, Finset.mem_insert, h.alive, get?_add w]
        constructor
        · rintro (rfl | ⟨id, found⟩)
          · exact ⟨_, if_pos rfl⟩
          · refine ⟨id, ?_⟩
            rw [if_neg, found]
            rintro rfl
            exact get?_add_new held found
        · rintro ⟨id, found⟩
          split at found
          · exact .inl (Option.some.inj found).symm
          · exact .inr ⟨id, found⟩
      · simp only [step, DenseNumbering.step, if_neg new, higher, h.newcomers]
      · simp only [step, DenseNumbering.step, higher]
        rw [next, eraseDups_answers, if_neg fresh, h.answers, List.range'_concat, Nat.one_mul,
          Nat.add_comm 1]

theorem IsKept.remove (h : l.IsKept) (a : α) : (l.step (.remove a)).IsKept := by
  have w := h.isWellFormed
  have same : (l.numbering.step (.remove a)).highest = l.numbering.highest := by
    rw [DenseNumbering.step]
    cases removed : l.numbering.remove? a with
    | none => rfl
    | some m => exact highest_of_remove? removed
  refine ⟨isWellFormed_step w (.remove a), fun b => ?_, ?_, ?_⟩
  · simp only [step, Finset.mem_erase, h.alive, get?_step_remove w]
    constructor
    · rintro ⟨differ, id, found⟩
      exact ⟨id, found, differ⟩
    · rintro ⟨id, found, differ⟩
      exact ⟨differ, id, found⟩
  · simp only [step, same, h.newcomers]
  · simp only [step, same, h.answers]

theorem IsKept.run (h : l.IsKept) (uses : List (Use α)) : (l.run uses).IsKept := by
  induction uses generalizing l with
  | nil => exact h
  | cons use uses ih =>
      cases use with
      | add a => exact ih (h.add a)
      | remove a => exact ih (h.remove a)

theorem numbering_run (l : Ledger α) (uses : List (Use α)) :
    (l.run uses).numbering = l.numbering.run uses := by
  induction uses generalizing l with
  | nil => rfl
  | cons use uses ih =>
      have rest := ih (l.step use)
      cases use <;> exact rest

theorem run_append (l : Ledger α) (past future : List (Use α)) :
    l.run (past ++ future) = (l.run past).run future := List.foldl_append

/-- As many numbers are in use as elements are alive. -/
theorem IsKept.size_eq (h : l.IsKept) : l.numbering.size = l.alive.card := by
  have elements : (l.numbering.toList.map Prod.snd).Nodup := by
    refine List.Nodup.map_on ?_ (nodup_toList l.numbering)
    rintro ⟨i, a⟩ hi ⟨j, b⟩ hj (rfl : a = b)
    rw [h.isWellFormed i j a (mem_toList_iff.mp hi) (mem_toList_iff.mp hj)]
  have same : l.alive = (l.numbering.toList.map Prod.snd).toFinset := by
    ext a
    rw [h.alive, List.mem_toFinset, List.mem_map]
    constructor
    · rintro ⟨id, found⟩
      exact ⟨(id, a), mem_toList_iff.mpr found, rfl⟩
    · rintro ⟨⟨id, b⟩, hb, rfl⟩
      exact ⟨id, mem_toList_iff.mp hb⟩
  rw [same, List.toFinset_card_of_nodup elements, List.length_map, size]

/-- What a numbering answers, in the terms of the ledger beside it. -/
structure Accounts (l : Ledger α) : Prop where
  one_to_one : ∀ a id, l.numbering.idOf? a = some id ↔ l.numbering.get? id = some a
  alive : ∀ a, a ∈ l.alive ↔ ∃ id, l.numbering.get? id = some a
  size : l.numbering.size = l.alive.card
  listed : ∀ a id, (id, a) ∈ l.numbering.toList ↔ l.numbering.get? id = some a
  ascending : (l.numbering.toList.map Prod.fst).Pairwise (· < ·)
  given : l.answers.eraseDups = List.range' 1 l.numbering.highest
  next : ∀ a, a ∉ l.alive → (l.numbering.add a).1 = l.answers.eraseDups.length + 1 ∧
    (l.numbering.add a).2.highest = (l.numbering.add a).1

theorem IsKept.accounts (h : l.IsKept) : l.Accounts where
  one_to_one _ _ := idOf?_eq_some_iff h.isWellFormed
  alive := h.alive
  size := h.size_eq
  listed _ _ := mem_toList_iff
  ascending := pairwise_toList l.numbering
  given := h.answers
  next a new := by
    rw [h.answers, List.length_range', add_of_new (h.new_iff.mpr new)]
    simp [highest]

end Ledger

end DenseNumbering

end ClassUniverse
