import ClassUniverse.OrderedMap
import ClassUniverse.Proofs.Numbering.Ledger
import Mathlib.Algebra.Order.Ring.Nat

/-!
# A dense numbering with an index

To find the number of an element without a search, a numbering keeps an index beside its places: for
the key of each element its number, in 32 bits.  Elements of one key count as one.  Additions and
removals change the two tables one after the other.  As long as fewer than 2³² elements have come
new, every number in the index has a place, and the two tables together answer as the dense
numbering of the keys does.
-/

namespace ClassUniverse

/-- A numbering whose place `i` holds the element of number `i + 1`, or nothing when that element
has been removed, and the numbers of the keys of its elements. -/
structure IndexedNumbering (κ α : Type) where
  places : Array (Option α)
  index : List (κ × UInt32)

namespace IndexedNumbering

variable {κ α : Type}

def empty : IndexedNumbering κ α := ⟨#[], []⟩

def get? (t : IndexedNumbering κ α) (id : UInt32) : Option α :=
  if id = 0 then none else (t.places[id.toNat - 1]?).join

def highest (t : IndexedNumbering κ α) : UInt32 := UInt32.ofNat t.places.size

def size (t : IndexedNumbering κ α) : Nat := t.index.length

/-- The numbers in use with their elements, in the order of the places. -/
def toList (t : IndexedNumbering κ α) : List (UInt32 × α) :=
  (t.places.toList.zipIdx 1).filterMap fun (place, id) => place.map fun a => (UInt32.ofNat id, a)

variable [DecidableEq κ] (key : α → κ)

def idOf? (t : IndexedNumbering κ α) (a : α) : Option UInt32 := t.index.lookup (key a)

/-- The number of an element, a new one if its key has none, and the numbering after that. -/
def add (t : IndexedNumbering κ α) (a : α) : UInt32 × IndexedNumbering κ α :=
  match t.idOf? key a with
  | some id => (id, t)
  | none =>
      let places := t.places.push (some a)
      let id := UInt32.ofNat places.size
      (id, ⟨places, (key a, id) :: t.index⟩)

/-- Whether an element had a number, and the numbering without it; nothing when that number has no
place. -/
def remove? (t : IndexedNumbering κ α) (a : α) : Option (Bool × IndexedNumbering κ α) :=
  match t.idOf? key a with
  | none => some (false, t)
  | some id =>
      let index := t.index.filter fun pair => pair.1 ≠ key a
      if h : 0 < id.toNat ∧ id.toNat - 1 < t.places.size then
        some (true, ⟨t.places.set (id.toNat - 1) none h.2, index⟩)
      else none

def step? (t : IndexedNumbering κ α) : DenseNumbering.Use α → Option (IndexedNumbering κ α)
  | .add a => some (t.add key a).2
  | .remove a => (t.remove? key a).map Prod.snd

/-- The numbering after some uses; nothing when one of them meets a number without a place. -/
def run? (t : IndexedNumbering κ α) (uses : List (DenseNumbering.Use α)) :
    Option (IndexedNumbering κ α) :=
  uses.foldlM (step? key) t

/-! ## Two tables in step -/

variable {key} {t : IndexedNumbering κ α} {n : DenseNumbering κ} {a : α} {id : UInt32} {k : κ}

/-- Whether the places hold the elements of a numbering of keys, and the index has just the numbers
that lead to a key. -/
structure Shows (key : α → κ) (t : IndexedNumbering κ α) (n : DenseNumbering κ) : Prop where
  places : n.places = t.places.map (Option.map key)
  nodup : (t.index.map Prod.fst).Nodup
  index : ∀ k id, (k, id) ∈ t.index ↔ n.get? id.toNat = some k
  isWellFormed : n.IsWellFormed
  few : n.highest < 2 ^ 32

omit [DecidableEq κ] in
theorem shows_empty (key : α → κ) : (empty : IndexedNumbering κ α).Shows key .empty where
  places := by simp [empty, DenseNumbering.empty]
  nodup := List.nodup_nil
  index k id := by simp [empty, DenseNumbering.empty, DenseNumbering.get?]
  isWellFormed := DenseNumbering.isWellFormed_empty
  few := by simp [DenseNumbering.highest, DenseNumbering.empty]

theorem toNat_ofNat {number : Nat} (few : number < 2 ^ 32) : (UInt32.ofNat number).toNat = number :=
  UInt32.toNat_ofNat_of_lt' few

namespace Shows

omit [DecidableEq κ] in
theorem size_places (h : t.Shows key n) : t.places.size = n.highest := by
  simp [DenseNumbering.highest, h.places]

omit [DecidableEq κ] in
theorem get? (h : t.Shows key n) (id : UInt32) : (t.get? id).map key = n.get? id.toNat := by
  unfold IndexedNumbering.get? DenseNumbering.get?
  by_cases zero : id = 0
  · simp [zero]
  · have positive : id.toNat ≠ 0 := fun same => zero (UInt32.toNat_inj.mp same)
    rw [if_neg zero, if_neg positive, h.places, Array.getElem?_map]
    cases t.places[id.toNat - 1]? with
    | none => rfl
    | some place => rfl

omit [DecidableEq κ] in
theorem highest (h : t.Shows key n) : t.highest.toNat = n.highest := by
  rw [IndexedNumbering.highest, h.size_places, toNat_ofNat h.few]

/-- The index and the search among the places find the same numbers. -/
theorem idOf?_eq_some_iff (h : t.Shows key n) :
    t.idOf? key a = some id ↔ n.idOf? (key a) = some id.toNat := by
  rw [DenseNumbering.idOf?_eq_some_iff h.isWellFormed]
  exact (lookup_eq_some_iff_mem h.nodup).trans (h.index (key a) id)

theorem idOf? (h : t.Shows key n) (a : α) :
    (t.idOf? key a).map UInt32.toNat = n.idOf? (key a) := by
  apply Option.ext
  intro number
  rw [Option.map_eq_some_iff]
  constructor
  · rintro ⟨id, found, rfl⟩
    exact h.idOf?_eq_some_iff.mp found
  · intro found
    have held := (DenseNumbering.idOf?_eq_some_iff h.isWellFormed).mp found
    have small : number < 2 ^ 32 :=
      Nat.lt_of_le_of_lt (DenseNumbering.bounds_of_get? held).2 h.few
    refine ⟨UInt32.ofNat number, h.idOf?_eq_some_iff.mpr ?_, toNat_ofNat small⟩
    rw [toNat_ofNat small, found]

theorem idOf?_eq_none_iff (h : t.Shows key n) :
    t.idOf? key a = none ↔ n.idOf? (key a) = none := by
  rw [← h.idOf? a, Option.map_eq_none_iff]

omit [DecidableEq κ] in
theorem toList (h : t.Shows key n) :
    t.toList.map (fun pair => (pair.1.toNat, key pair.2)) = n.toList := by
  unfold IndexedNumbering.toList DenseNumbering.toList
  rw [h.places, Array.toList_map, List.zipIdx_map, List.filterMap_map, List.map_filterMap]
  apply List.filterMap_congr
  rintro ⟨place, number⟩ hm
  have small : number < 2 ^ 32 := by
    have last := List.snd_lt_of_mem_zipIdx hm
    have few := h.few
    rw [← h.size_places] at few
    rw [Array.length_toList] at last
    dsimp only at last
    omega
  cases place with
  | none => rfl
  | some a => simp [toNat_ofNat small]

omit [DecidableEq κ] in
/-- The index has as many keys as there are numbers in use. -/
theorem size (h : t.Shows key n) : t.size = n.size := by
  have pairs : (t.index.map fun pair => (pair.2.toNat, pair.1)).Perm n.toList := by
    refine (List.perm_ext_iff_of_nodup ?_ (DenseNumbering.nodup_toList n)).mpr ?_
    · refine List.Nodup.map_on ?_ h.nodup.of_map
      rintro ⟨k, i⟩ - ⟨k', j⟩ - same
      simp only [Prod.mk.injEq, UInt32.toNat_inj] at same
      rw [same.1, same.2]
    · rintro ⟨number, k⟩
      rw [DenseNumbering.mem_toList_iff, List.mem_map]
      constructor
      · rintro ⟨⟨k', id⟩, hm, same⟩
        obtain ⟨rfl, rfl⟩ := Prod.mk.inj same
        exact (h.index k' id).mp hm
      · intro held
        have small : number < 2 ^ 32 :=
          Nat.lt_of_le_of_lt (DenseNumbering.bounds_of_get? held).2 h.few
        refine ⟨(k, UInt32.ofNat number), (h.index k _).mpr ?_, ?_⟩
        · rw [toNat_ofNat small, held]
        · rw [toNat_ofNat small]
  have same := pairs.length_eq
  rwa [List.length_map] at same

/-- Both give the same number to an element, as long as the number fits in the index. -/
theorem add (h : t.Shows key n) (few : (n.add (key a)).2.highest < 2 ^ 32) :
    (t.add key a).1.toNat = (n.add (key a)).1 ∧ (t.add key a).2.Shows key (n.add (key a)).2 := by
  cases found : t.idOf? key a with
  | some id =>
      have same : n.add (key a) = (id.toNat, n) := by
        have held := h.idOf?_eq_some_iff.mp found
        unfold DenseNumbering.add
        rw [held]
      rw [IndexedNumbering.add, found, same]
      exact ⟨rfl, h⟩
  | none =>
      have new := h.idOf?_eq_none_iff.mp found
      have next := DenseNumbering.add_of_new new
      have last : (UInt32.ofNat (n.highest + 1)).toNat = n.highest + 1 := by
        apply toNat_ofNat
        simpa [next, DenseNumbering.highest] using few
      have fresh : key a ∉ t.index.map Prod.fst := by
        intro hm
        obtain ⟨⟨k, id⟩, hm, rfl⟩ := List.mem_map.mp hm
        rw [IndexedNumbering.idOf?, (lookup_eq_some_iff_mem h.nodup).mpr hm] at found
        cases found
      have placed : t.add key a =
          (UInt32.ofNat (n.highest + 1),
            ⟨t.places.push (some a), (key a, UInt32.ofNat (n.highest + 1)) :: t.index⟩) := by
        rw [IndexedNumbering.add, found]
        simp only [Array.size_push, h.size_places]
      refine ⟨by rw [placed, next, last], ?_⟩
      rw [placed]
      refine ⟨?_, ?_, fun k id => ?_, DenseNumbering.isWellFormed_add h.isWellFormed _, few⟩
      · rw [next, h.places, Array.map_push]
        rfl
      · exact List.nodup_cons.mpr ⟨fresh, h.nodup⟩
      · have number : id = UInt32.ofNat (n.highest + 1) ↔ id.toNat = n.highest + 1 := by
          rw [← UInt32.toNat_inj, last]
        rw [DenseNumbering.get?_add h.isWellFormed, List.mem_cons, Prod.mk.injEq, h.index, next,
          number]
        dsimp only
        split
        · rename_i same
          have beyond : n.get? id.toNat = none := by
            rw [Option.eq_none_iff_forall_ne_some]
            intro b held
            have inside := (DenseNumbering.bounds_of_get? held).2
            omega
          rw [beyond]
          simp [same, eq_comm]
        · rename_i differ
          simp [differ]

/-- A number that an element has leads to a place, which a removal empties. -/
theorem remove (h : t.Shows key n) (a : α) :
    ∃ t', t.remove? key a = some ((n.remove? (key a)).isSome, t') ∧
      t'.Shows key (n.step (.remove (key a))) := by
  cases found : t.idOf? key a with
  | none =>
      have none : n.remove? (key a) = none := by
        rw [DenseNumbering.remove?, h.idOf?_eq_none_iff.mp found]
        rfl
      refine ⟨t, ?_, ?_⟩
      · rw [IndexedNumbering.remove?, found, none]
        rfl
      · rw [DenseNumbering.step, none]
        exact h
  | some id =>
      have held := h.idOf?_eq_some_iff.mp found
      obtain ⟨positive, last⟩ := DenseNumbering.bounds_of_get?
        ((DenseNumbering.idOf?_eq_some_iff h.isWellFormed).mp held)
      have placed : 0 < id.toNat ∧ id.toNat - 1 < t.places.size := by
        rw [h.size_places]
        omega
      have removed : n.remove? (key a) = some ⟨n.places.set! (id.toNat - 1) none⟩ := by
        rw [DenseNumbering.remove?, held]
        rfl
      have after : n.step (.remove (key a)) = ⟨n.places.set! (id.toNat - 1) none⟩ := by
        rw [DenseNumbering.step, removed]
        rfl
      refine ⟨⟨t.places.set (id.toNat - 1) none placed.2,
        t.index.filter fun pair => pair.1 ≠ key a⟩, ?_, ?_⟩
      · rw [IndexedNumbering.remove?, found, removed]
        simp only [dif_pos placed, Option.isSome_some]
      · refine ⟨?_, ?_, fun k other => ?_, DenseNumbering.isWellFormed_step h.isWellFormed _, ?_⟩
        · rw [after, h.places]
          simp [Array.set!_eq_setIfInBounds, Array.setIfInBounds, placed.2]
        · exact h.nodup.sublist (List.filter_sublist.map _)
        · rw [DenseNumbering.get?_step_remove h.isWellFormed, List.mem_filter, h.index]
          simp
        · rw [after]
          simpa [DenseNumbering.highest] using h.few

theorem step (h : t.Shows key n) (use : DenseNumbering.Use α)
    (few : (n.step (use.map key)).highest < 2 ^ 32) :
    ∃ t', t.step? key use = some t' ∧ t'.Shows key (n.step (use.map key)) := by
  cases use with
  | add a => exact ⟨_, rfl, (h.add few).2⟩
  | remove a =>
      obtain ⟨t', removed, shown⟩ := h.remove a
      exact ⟨t', by rw [step?, removed]; rfl, shown⟩

theorem run (h : t.Shows key n) (uses : List (DenseNumbering.Use α))
    (few : (n.run (uses.map (DenseNumbering.Use.map key))).highest < 2 ^ 32) :
    ∃ t', t.run? key uses = some t' ∧
      t'.Shows key (n.run (uses.map (DenseNumbering.Use.map key))) := by
  induction uses generalizing t n with
  | nil => exact ⟨t, rfl, h⟩
  | cons use uses ih =>
      have next : (n.step (use.map key)).highest < 2 ^ 32 :=
        Nat.lt_of_le_of_lt (DenseNumbering.highest_le_run _ _) few
      obtain ⟨t', stepped, shown⟩ := h.step use next
      obtain ⟨t'', ran, shown'⟩ := ih shown few
      refine ⟨t'', ?_, shown'⟩
      rw [run?, List.foldlM_cons, stepped]
      exact ran

end Shows

/-- Whether the two tables answer every question as a numbering of the keys does, and whether a
removal finds a place for each number of the index. -/
structure AnswersAs (key : α → κ) (t : IndexedNumbering κ α) (n : DenseNumbering κ) : Prop where
  idOf? : ∀ a, (t.idOf? key a).map UInt32.toNat = n.idOf? (key a)
  get? : ∀ id, (t.get? id).map key = n.get? id.toNat
  size : t.size = n.size
  toList : t.toList.map (fun pair => (pair.1.toNat, key pair.2)) = n.toList
  highest : t.highest.toNat = n.highest
  add : ∀ a, (n.add (key a)).2.highest < 2 ^ 32 → (t.add key a).1.toNat = (n.add (key a)).1
  remove : ∀ a, (t.remove? key a).map Prod.fst = some (n.remove? (key a)).isSome

theorem Shows.answersAs (h : t.Shows key n) : t.AnswersAs key n where
  idOf? := h.idOf?
  get? := h.get?
  size := h.size
  toList := h.toList
  highest := h.highest
  add _ few := (h.add few).1
  remove a := by
    obtain ⟨t', removed, -⟩ := h.remove a
    rw [removed]
    rfl

open DenseNumbering (Use Ledger)

/-- After any uses the elements that are alive and the numbers in use correspond one to one, the
numbers have been given in ascending order without a gap, and a number leads to its element up to
the removal of this, then to nothing.  While fewer than 2³² elements come new, the two tables answer
so too. -/
theorem accounts_of_run (key : α → κ) (past future : List (Use α))
    (few : (Ledger.after key past).newcomers < 2 ^ 32) :
    (Ledger.after key past).Accounts ∧
    (∀ id k, (Ledger.after key past).numbering.get? id = some k →
      (Ledger.after key (past ++ future)).numbering.get? id =
        if .remove k ∈ future.map (Use.map key) then none else some k) ∧
    ∃ t, (empty : IndexedNumbering κ α).run? key past = some t ∧
      t.AnswersAs key (Ledger.after key past).numbering := by
  have kept : (Ledger.after key past).IsKept :=
    DenseNumbering.Ledger.isKept_start.run (past.map (Use.map key))
  have later : Ledger.after key (past ++ future) =
      (Ledger.after key past).run (future.map (Use.map key)) := by
    rw [Ledger.after, List.map_append, Ledger.run_append, Ledger.after]
  refine ⟨kept.accounts, fun id k held => ?_, ?_⟩
  · rw [later, Ledger.numbering_run]
    exact DenseNumbering.get?_run kept.isWellFormed held _
  · have same : (Ledger.after key past).numbering =
        DenseNumbering.empty.run (past.map (Use.map key)) := Ledger.numbering_run _ _
    rw [kept.newcomers, same] at few
    obtain ⟨t, ran, shown⟩ := (shows_empty key).run past few
    refine ⟨t, ran, ?_⟩
    rw [same]
    exact shown.answersAs

/-- An element goes and another with its key comes. -/
def replacement : List (Use (Nat × String)) :=
  [.add (7, "first"), .add (8, "other"), .remove (7, ""), .add (7, "second")]

theorem accounts_of_run_replacement :
    (Ledger.after Prod.fst replacement).newcomers = 3 ∧
    (Ledger.after Prod.fst replacement).Accounts ∧
    (Ledger.after Prod.fst (replacement ++ [.remove (8, ""), .add (8, "last")])).numbering.get? 2
      = none ∧
    ∃ t, (empty : IndexedNumbering Nat (Nat × String)).run? Prod.fst replacement = some t ∧
      t.AnswersAs Prod.fst (Ledger.after Prod.fst replacement).numbering := by
  have three : (Ledger.after Prod.fst replacement).newcomers = 3 := by decide
  have few : (Ledger.after Prod.fst replacement).newcomers < 2 ^ 32 := by
    rw [three]
    decide
  obtain ⟨accounts, lasting, answers⟩ :=
    accounts_of_run Prod.fst replacement [.remove (8, ""), .add (8, "last")] few
  exact ⟨three, accounts, lasting 2 8 (by decide +kernel), answers⟩

end IndexedNumbering

end ClassUniverse
