import ClassUniverse.Proofs.Numbering.Holders
import Mathlib.Algebra.Order.Ring.Nat

/-!
# How long a number lasts

Elements are added, removed, swept out and cease to exist in any order.  An element that still
exists keeps the number that an addition has given it until it is removed.  A place that its holder
has left counts one vacation more from then on.
-/

namespace ClassUniverse

variable {α : Type}

/-- What can become of a place: it is vacated no less often, and as long as it has not been vacated
again it keeps its holder. -/
structure RecyclingPlace.Becomes (p q : RecyclingPlace α) : Prop where
  le : p.vacated ≤ q.vacated
  keeps : q.vacated = p.vacated → ∀ a, p.holder = some a → q.holder = some a

namespace RecyclingPlace.Becomes

variable {p q r : RecyclingPlace α}

theorem refl (p : RecyclingPlace α) : p.Becomes p where
  le := Nat.le_refl _
  keeps _ _ h := h

theorem trans (h : p.Becomes q) (k : q.Becomes r) : p.Becomes r where
  le := Nat.le_trans h.le k.le
  keeps same a held := by
    have hl := h.le
    have kl := k.le
    exact k.keeps (by omega) a (h.keeps (by omega) a held)

end RecyclingPlace.Becomes

namespace RecyclingNumbering

/-! ## Places -/

/-- A numbering that comes from another one by further use. -/
def Follows (n m : RecyclingNumbering α) : Prop :=
  ∀ id p, n.place? id = some p → ∃ q, m.place? id = some q ∧ p.Becomes q

variable {n m l : RecyclingNumbering α} {isLive : α → Bool} {a b : α} {id other : Nat}
  {p : RecyclingPlace α}

theorem Follows.refl (n : RecyclingNumbering α) : n.Follows n := fun _ p h => ⟨p, h, .refl p⟩

theorem Follows.trans (h : n.Follows m) (k : m.Follows l) : n.Follows l := by
  intro id p hp
  obtain ⟨q, hq, first⟩ := h id p hp
  obtain ⟨r, hr, second⟩ := k id q hq
  exact ⟨r, hr, first.trans second⟩

theorem holder?_eq_some_iff : n.holder? id = some a ↔ ∃ p, n.place? id = some p ∧
    p.holder = some a := Option.bind_eq_some_iff

theorem holder?_congr (place : m.place? id = n.place? id) : m.holder? id = n.holder? id := by
  unfold holder?
  rw [place]

theorem isSome_place? (held : n.holder? id = some a) : (n.place? id).isSome := by
  obtain ⟨p, hp, -⟩ := holder?_eq_some_iff.mp held
  rw [hp]
  rfl

theorem place?_vacate_of_holder (hp : n.place? id = some p) (held : p.holder = some a) :
    (n.vacate id).place? id = some ⟨none, p.vacated + 1⟩ := by
  obtain ⟨holder, vacated⟩ := p
  dsimp only at held
  subst held
  simp only [vacate, hp]
  change place? { n with places := _ } id = _
  rw [place?_set n _ id (by simp [hp]), if_pos rfl]

theorem vacate_of_vacant (h : n.holder? id = none) : n.vacate id = n := by
  unfold vacate
  split
  · rename_i a vacated hp
    simp [holder?, hp] at h
  · rfl

theorem place?_vacate_of_ne (h : other ≠ id) : (n.vacate id).place? other = n.place? other := by
  unfold vacate
  split
  · rename_i a vacated hp
    change place? { n with places := _ } other = _
    rw [place?_set n _ other (by simp [hp]), if_neg h]
  · rfl

theorem size_vacate (n : RecyclingNumbering α) (id : Nat) :
    (n.vacate id).places.size = n.places.size := by
  unfold vacate
  split <;> simp

theorem size_sweep (isLive : α → Bool) (n : RecyclingNumbering α) :
    (n.sweep isLive).places.size = n.places.size := by
  change ((n.deadIds isLive).foldl vacate n).places.size = _
  generalize n.deadIds isLive = ids
  induction ids generalizing n with
  | nil => rfl
  | cons id ids ih => rw [List.foldl_cons, ih, size_vacate]

theorem size_settle (n : RecyclingNumbering α) (a : α) :
    (n.settle a).2.places.size = if n.free = [] then n.places.size + 1 else n.places.size := by
  unfold settle
  split <;> simp_all

theorem follows_vacate (n : RecyclingNumbering α) (id : Nat) : n.Follows (n.vacate id) := by
  intro other p hp
  by_cases h : other = id
  · subst h
    cases held : p.holder with
    | none => exact ⟨p, by rwa [vacate_of_vacant (by simp [holder?, hp, held])], .refl p⟩
    | some a =>
        refine ⟨_, place?_vacate_of_holder hp held, Nat.le_succ _, fun same => ?_⟩
        exact absurd same (Nat.succ_ne_self _)
  · exact ⟨p, by rwa [place?_vacate_of_ne h], .refl p⟩

theorem follows_vacateAll (n : RecyclingNumbering α) (ids : List Nat) :
    n.Follows (ids.foldl vacate n) := by
  induction ids generalizing n with
  | nil => exact .refl n
  | cons id ids ih => exact (follows_vacate n id).trans (ih (n.vacate id))

theorem place?_vacateAll_of_notMem {ids : List Nat} (h : id ∉ ids) :
    (ids.foldl vacate n).place? id = n.place? id := by
  induction ids generalizing n with
  | nil => rfl
  | cons first ids ih =>
      rw [List.mem_cons, not_or] at h
      rw [List.foldl_cons, ih h.2, place?_vacate_of_ne h.1]

theorem follows_sweep (isLive : α → Bool) (n : RecyclingNumbering α) : n.Follows (n.sweep isLive) :=
  follows_vacateAll n (n.deadIds isLive)

theorem place?_sweep_of_live (h : n.holder? id = some a) (live : isLive a = true) :
    (n.sweep isLive).place? id = n.place? id := by
  refine place?_vacateAll_of_notMem fun hm => ?_
  rw [not_live_of_mem_deadIds hm h] at live
  cases live

theorem follows_readied (isLive : α → Bool) (n : RecyclingNumbering α) :
    n.Follows (n.readied isLive) := by
  unfold readied
  dsimp only
  split
  · exact follows_sweep isLive { n with addedSinceSweep := n.addedSinceSweep + 1 }
  · exact .refl n

theorem place?_readied_of_live (h : n.holder? id = some a) (live : isLive a = true) :
    (n.readied isLive).place? id = n.place? id := by
  unfold readied
  dsimp only
  split
  · exact place?_sweep_of_live (n := { n with addedSinceSweep := n.addedSinceSweep + 1 }) h live
  · rfl

/-- The place of the number that is given keeps its count, and all other places stay. -/
theorem place?_settle_of_some (w : n.IsWellFormed) (hp : n.place? id = some p) (a : α) :
    (n.settle a).2.place? id =
      some (if id = (n.settle a).1 then { p with holder := some a } else p) := by
  unfold place? at hp
  split at hp
  · cases hp
  rename_i pos
  unfold settle
  split
  · rename_i first free hf
    have known := (w.free_vacant first (by simp [hf])).1
    have pos' : first ≠ 0 := by
      rintro rfl
      simp [place?] at known
    simp only [place?, if_neg pos, Array.getElem?_modify, hp, Option.map_some]
    by_cases same : id = first
    · simp [same]
    · have differ : ¬ first - 1 = id - 1 := by omega
      simp [same, differ]
  · obtain ⟨hlt, -⟩ := Array.getElem?_eq_some_iff.mp hp
    have old : ¬ id = n.places.size + 1 := by omega
    have old' : ¬ id - 1 = n.places.size := by omega
    simp only [place?, if_neg pos, Array.getElem?_push, if_neg old', hp, if_neg old]

theorem place?_settle_of_holder (w : n.IsWellFormed) (h : n.holder? id = some a) (b : α) :
    (n.settle b).2.place? id = n.place? id := by
  obtain ⟨p, hp, -⟩ := holder?_eq_some_iff.mp h
  rw [place?_settle_of_some w hp, hp, if_neg]
  rintro rfl
  rw [(holder?_settle w b 0).1] at h
  cases h

theorem follows_settle (w : n.IsWellFormed) (a : α) : n.Follows (n.settle a).2 := by
  intro id p hp
  refine ⟨_, place?_settle_of_some w hp a, ?_⟩
  split
  · rename_i given
    refine ⟨Nat.le_refl _, fun _ b held => ?_⟩
    have holder : n.holder? id = some b := holder?_eq_some_iff.mpr ⟨p, hp, held⟩
    rw [given, (holder?_settle w a id).1] at holder
    cases holder
  · exact .refl p

variable [DecidableEq α]

theorem follows_add (w : n.IsWellFormed) (isLive : α → Bool) (a : α) :
    n.Follows (n.add isLive a).2 := by
  cases h : n.idOf? a with
  | some id =>
      rw [add_of_holder? w isLive ((idOf?_eq_some_iff w).mp h)]
      exact .refl n
  | none =>
      rw [add_of_idOf?_none isLive h]
      exact (follows_readied isLive n).trans (follows_settle (isWellFormed_readied isLive w) a)

theorem place?_add_of_live (w : n.IsWellFormed) (a : α) (h : n.holder? id = some b)
    (live : isLive b = true) : (n.add isLive a).2.place? id = n.place? id := by
  cases hid : n.idOf? a with
  | some other => rw [add_of_holder? w isLive ((idOf?_eq_some_iff w).mp hid)]
  | none =>
      have readied := place?_readied_of_live h live
      rw [add_of_idOf?_none isLive hid,
        place?_settle_of_holder (isWellFormed_readied isLive w) (holder?_readied_of_live h live),
        readied]

/-- Whoever holds a number after an addition held it before or has been added. -/
theorem holder?_of_add (w : n.IsWellFormed) (h : (n.add isLive a).2.holder? id = some b) :
    b = a ∨ n.holder? id = some b := by
  cases hid : n.idOf? a with
  | some other =>
      rw [add_of_holder? w isLive ((idOf?_eq_some_iff w).mp hid)] at h
      exact .inr h
  | none =>
      rw [add_of_idOf?_none isLive hid,
        (holder?_settle (isWellFormed_readied isLive w) a id).2] at h
      split at h
      · exact .inl (Option.some.inj h).symm
      · exact .inr (holder?_of_readied h)

theorem follows_of_remove? (h : n.remove? a = some m) : n.Follows m := by
  obtain ⟨id, -, rfl⟩ := Option.map_eq_some_iff.mp h
  exact follows_vacate n id

theorem place?_of_remove? (w : n.IsWellFormed) (h : n.remove? a = some m)
    (held : n.holder? id = some b) (ne : b ≠ a) : m.place? id = n.place? id := by
  obtain ⟨gone, hg, rfl⟩ := Option.map_eq_some_iff.mp h
  refine place?_vacate_of_ne ?_
  rintro rfl
  exact ne (Option.some.inj (held.symm.trans ((idOf?_eq_some_iff w).mp hg)))

/-- A removal vacates the place of the element. -/
theorem remove?_of_holder (w : n.IsWellFormed) (hp : n.place? id = some p)
    (held : p.holder = some a) :
    ∃ m, n.remove? a = some m ∧ m.place? id = some ⟨none, p.vacated + 1⟩ := by
  have found := (idOf?_eq_some_iff w).mpr (holder?_eq_some_iff.mpr ⟨p, hp, held⟩)
  refine ⟨n.vacate id, ?_, place?_vacate_of_holder hp held⟩
  unfold remove?
  rw [found, Option.map_some]

/-! ## Use -/

/-- What befalls a numbering: an element is added or removed by somebody who has it, dead elements
are swept out, or an element ceases to exist. -/
inductive Event (α : Type)
  | add (a : α)
  | remove (a : α)
  | sweep
  | drop (a : α)
  deriving DecidableEq

/-- A numbering with the elements that have ceased to exist. -/
structure Usage (α : Type) where
  numbering : RecyclingNumbering α
  gone : List α

namespace Usage

def initial : Usage α := ⟨.empty, []⟩

/-- Whether an element still exists. -/
def remains (u : Usage α) (a : α) : Bool := !u.gone.contains a

/-- The usage after an event.  Nobody has an element that has ceased to exist. -/
def step (u : Usage α) : Event α → Usage α
  | .add a =>
      if u.remains a then { u with numbering := (u.numbering.add u.remains a).2 } else u
  | .remove a =>
      if u.remains a then { u with numbering := (u.numbering.remove? a).getD u.numbering } else u
  | .sweep => { u with numbering := u.numbering.sweep u.remains }
  | .drop a => { u with gone := a :: u.gone }

/-- The usage after some events, one after the other. -/
def run (u : Usage α) (events : List (Event α)) : Usage α := events.foldl step u

variable {u : Usage α} {e : Event α} {events past future : List (Event α)}

theorem run_append (u : Usage α) (past future : List (Event α)) :
    u.run (past ++ future) = (u.run past).run future := List.foldl_append

/-! ### One event -/

/-- What an event can do to a numbering: an addition, the removal of an element with a number, a
sweep, or nothing. -/
theorem step_cases (u : Usage α) (e : Event α) :
    (∃ a, e = .add a ∧ u.remains a = true ∧
        (u.step e).numbering = (u.numbering.add u.remains a).2) ∨
      (∃ a, e = .remove a ∧ u.numbering.remove? a = some (u.step e).numbering) ∨
      (e = .sweep ∧ (u.step e).numbering = u.numbering.sweep u.remains) ∨
      ((u.step e).numbering = u.numbering ∧ ∀ a id, e = .remove a → u.remains a = true →
        u.numbering.idOf? a ≠ some id) := by
  cases e with
  | add a =>
      cases there : u.remains a with
      | true => exact .inl ⟨a, rfl, there, by simp [step, there]⟩
      | false => exact .inr (.inr (.inr ⟨by simp [step, there], nofun⟩))
  | remove a =>
      cases there : u.remains a with
      | true =>
          cases removed : u.numbering.remove? a with
          | some m => exact .inr (.inl ⟨a, rfl, by simp [step, there, removed]⟩)
          | none =>
              refine .inr (.inr (.inr ⟨by simp [step, there, removed], ?_⟩))
              rintro _ id ⟨⟩ -
              rw [Option.map_eq_none_iff.mp removed]
              nofun
      | false =>
          refine .inr (.inr (.inr ⟨by simp [step, there], ?_⟩))
          rintro _ id ⟨⟩ live
          rw [there] at live
          cases live
  | sweep => exact .inr (.inr (.inl ⟨rfl, rfl⟩))
  | drop a => exact .inr (.inr (.inr ⟨rfl, nofun⟩))

theorem gone_step : u.gone ⊆ (u.step e).gone := by
  cases e with
  | add a | remove a =>
      unfold step
      dsimp only
      split <;> exact List.Subset.refl _
  | sweep => exact List.Subset.refl _
  | drop a => exact List.subset_cons_self a u.gone

theorem remains_of_step (there : (u.step e).remains a = true) : u.remains a = true := by
  unfold remains at there ⊢
  rw [Bool.not_eq_true', List.contains_eq_mem, decide_eq_false_iff_not] at there ⊢
  exact fun hm => there (gone_step hm)

theorem isWellFormed_step (w : u.numbering.IsWellFormed) (e : Event α) :
    (u.step e).numbering.IsWellFormed := by
  rcases step_cases u e with ⟨a, -, -, h⟩ | ⟨a, -, h⟩ | ⟨-, h⟩ | ⟨h, -⟩
  · rw [h]
    exact isWellFormed_add u.remains w a
  · exact isWellFormed_of_remove? w h
  · rw [h]
    exact isWellFormed_sweep u.remains w
  · rwa [h]

/-- An event other than its removal leaves the place of an element alone that still exists. -/
theorem place?_step (w : u.numbering.IsWellFormed) (held : u.numbering.holder? id = some a)
    (there : u.remains a = true) (ne : e ≠ .remove a) :
    (u.step e).numbering.place? id = u.numbering.place? id := by
  rcases step_cases u e with ⟨b, -, -, h⟩ | ⟨b, he, h⟩ | ⟨-, h⟩ | ⟨h, -⟩
  · rw [h]
    exact place?_add_of_live w b held there
  · refine place?_of_remove? w h held ?_
    rintro rfl
    exact ne he
  · rw [h]
    exact place?_sweep_of_live held there
  · rw [h]

/-! ### Runs -/

theorem isWellFormed_run (w : u.numbering.IsWellFormed) (events : List (Event α)) :
    (u.run events).numbering.IsWellFormed := by
  induction events generalizing u with
  | nil => exact w
  | cons e events ih => exact ih (isWellFormed_step w e)

theorem remains_of_run (there : (u.run events).remains a = true) : u.remains a = true := by
  induction events generalizing u with
  | nil => exact there
  | cons e events ih => exact remains_of_step (ih there)

/-- An element that still exists in the end and is not removed on the way stays in its place. -/
theorem place?_run (w : u.numbering.IsWellFormed) (held : u.numbering.holder? id = some a)
    (there : (u.run events).remains a = true) (kept : .remove a ∉ events) :
    (u.run events).numbering.place? id = u.numbering.place? id := by
  induction events generalizing u with
  | nil => rfl
  | cons e events ih =>
      rw [List.mem_cons, not_or] at kept
      have there' : u.remains a = true := remains_of_run there
      have first := place?_step w held there' (Ne.symm kept.1)
      have held' : (u.step e).numbering.holder? id = some a := (holder?_congr first).trans held
      rw [← first]
      exact ih (isWellFormed_step w e) held' there kept.2

end Usage

/-! ## Numbers that last -/

open Usage

variable {past future : List (Event α)}

theorem isWellFormed_initial (events : List (Event α)) :
    (initial.run events).numbering.IsWellFormed := isWellFormed_run isWellFormed_empty events

/-- An element keeps the number that an addition has given it. -/
theorem holder?_of_kept (there : (initial.run (past ++ .add a :: future)).remains a = true)
    (kept : .remove a ∉ future) :
    let u : Usage α := initial.run past
    (initial.run (past ++ .add a :: future)).numbering.holder?
      (u.numbering.add u.remains a).1 = some a := by
  intro u
  have w : u.numbering.IsWellFormed := isWellFormed_initial past
  have order : initial.run (past ++ .add a :: future) = (u.step (.add a)).run future :=
    run_append initial past (.add a :: future)
  rw [order] at there ⊢
  have there' : u.remains a = true := remains_of_step (remains_of_run there)
  have held := holder?_add_self u.remains w a
  have same : (u.step (.add a)).numbering = (u.numbering.add u.remains a).2 := by
    simp [step, there']
  rw [← same] at held
  have place := place?_run (isWellFormed_step w (.add a)) held there kept
  exact (holder?_congr place).trans held

/-- The elements that have a number and still exist. -/
def living (isLive : α → Bool) (n : RecyclingNumbering α) : List α :=
  n.places.toList.filterMap (liveHolder? isLive)

omit [DecidableEq α] in
theorem length_living (isLive : α → Bool) (n : RecyclingNumbering α) :
    (n.living isLive).length = n.size isLive := List.length_filterMap_eq_countP

omit [DecidableEq α] in
theorem holder?_succ (n : RecyclingNumbering α) (i : Nat) :
    n.holder? (i + 1) = n.places[i]?.bind (·.holder) := by
  simp [holder?, place?]

omit [DecidableEq α] in
theorem mem_living : a ∈ n.living isLive ↔ ∃ id, n.get? isLive id = some a := by
  unfold living get?
  rw [List.mem_filterMap]
  constructor
  · rintro ⟨p, hm, held⟩
    obtain ⟨i, hi⟩ := List.mem_iff_getElem?.mp hm
    exact ⟨i + 1, Option.bind_eq_some_iff.mpr ⟨p, by simpa [place?] using hi, held⟩⟩
  · rintro ⟨id, found⟩
    obtain ⟨p, hp, held⟩ := Option.bind_eq_some_iff.mp found
    unfold place? at hp
    split at hp
    · cases hp
    · exact ⟨p, Array.mem_toList_iff.mpr (Array.mem_of_getElem? hp), held⟩

omit [DecidableEq α] in
theorem nodup_living (w : n.IsWellFormed) : (n.living isLive).Nodup := by
  unfold living
  rw [List.nodup_iff_pairwise_ne, List.pairwise_filterMap, List.pairwise_iff_getElem]
  intro i j hi hj less b hb c hc same
  have held {k : Nat} (hk : k < n.places.toList.length)
      (h : liveHolder? isLive n.places.toList[k] = some b) : n.holder? (k + 1) = some b := by
    have hk' : k < n.places.size := by simpa using hk
    have holder := (Option.filter_eq_some_iff.mp h).1
    rw [holder?_succ, Array.getElem?_eq_getElem hk']
    simpa using holder
  have one := w.single (i + 1) (j + 1) b (held hi hb) (held hj (same ▸ hc))
  omega

theorem eq_of_ofNat_eq {i j : Nat} (hi : i < 2 ^ 32) (hj : j < 2 ^ 32)
    (same : UInt32.ofNat i = UInt32.ofNat j) : i = j := by
  have hn := congrArg UInt32.toNat same
  rwa [UInt32.toNat_ofNat_of_lt' hi, UInt32.toNat_ofNat_of_lt' hj] at hn

omit [DecidableEq α] in
theorem get?_of_live (n : RecyclingNumbering α) (live : isLive a = true) :
    n.get? isLive id = some a ↔ n.holder? id = some a := by
  rw [get?_eq_filter, Option.filter_eq_some_iff]
  exact and_iff_left live

omit [DecidableEq α] in
theorem place?_eq_some_iff :
    n.place? id = some p ↔ 0 < id ∧ id ≤ n.places.size ∧ n.places[id - 1]? = some p := by
  unfold place?
  by_cases h : id = 0
  · simp [h]
  · rw [if_neg h]
    constructor
    · intro hp
      obtain ⟨small, -⟩ := Array.getElem?_eq_some_iff.mp hp
      exact ⟨by omega, by omega, hp⟩
    · exact fun hp => hp.2.2

end RecyclingNumbering

end ClassUniverse
