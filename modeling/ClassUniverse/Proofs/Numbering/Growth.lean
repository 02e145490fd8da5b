import ClassUniverse.Proofs.Numbering.Lasting
import Mathlib.Data.Finset.Card
import Mathlib.Data.Finset.Lattice.Lemmas
import Mathlib.Data.Fintype.EquivFin
import Mathlib.Data.List.Induction
import Mathlib.Order.Interval.Finset.Nat

/-!
# How far a numbering grows

Nobody removes an element or asks for a sweep: elements are added, some of them cease to exist, and
an addition sweeps by itself when it is due.  A sweep starts the count of additions anew, while the
places stay and their number goes up with that very count.  So a sweep that leaves anybody in place
is the last one, and a numbering stays small only where at most one of its elements exists at a time.
-/

namespace ClassUniverse

namespace RecyclingNumbering

variable {α : Type} {n : RecyclingNumbering α} {isLive : α → Bool} {a b : α} {id other : Nat}

/-! ## Sizes -/

theorem addedSinceSweep_settle (n : RecyclingNumbering α) (a : α) :
    (n.settle a).2.addedSinceSweep = n.addedSinceSweep := by
  unfold settle
  split <;> rfl

theorem le_size_of_holder? (held : n.holder? id = some a) : 0 < id ∧ id ≤ n.places.size := by
  obtain ⟨p, hp, -⟩ := holder?_eq_some_iff.mp held
  obtain ⟨pos, small, -⟩ := place?_eq_some_iff.mp hp
  exact ⟨pos, small⟩

theorem le_size_of_free (w : n.IsWellFormed) (hm : id ∈ n.free) : 0 < id ∧ id ≤ n.places.size := by
  obtain ⟨p, hp⟩ := Option.isSome_iff_exists.mp (w.free_vacant id hm).1
  obtain ⟨pos, small, -⟩ := place?_eq_some_iff.mp hp
  exact ⟨pos, small⟩

/-- Two elements take two places that are not free. -/
theorem free_add_two_le (w : n.IsWellFormed) (ha : n.holder? id = some a)
    (hb : n.holder? other = some b) (ne : id ≠ other) : n.free.length + 2 ≤ n.places.size := by
  have taken {i : Nat} {c : α} (hc : n.holder? i = some c) : i ∉ n.free := by
    intro hm
    rw [(w.free_vacant i hm).2] at hc
    cases hc
  have nodup : (id :: other :: n.free).Nodup := by
    simp [ne, taken ha, taken hb, w.free_nodup]
  have within : (id :: other :: n.free).toFinset ⊆ Finset.Icc 1 n.places.size := by
    intro i hi
    rw [Finset.mem_Icc]
    simp only [List.mem_toFinset, List.mem_cons] at hi
    rcases hi with rfl | rfl | hi
    · exact le_size_of_holder? ha
    · exact le_size_of_holder? hb
    · exact le_size_of_free w hi
  have few := Finset.card_le_card within
  rw [List.toFinset_card_of_nodup nodup, Nat.card_Icc, List.length_cons, List.length_cons] at few
  omega

/-! ## Every vacant place is free -/

/-- Every place without a holder stands in the list of the free ones. -/
def IsTight (n : RecyclingNumbering α) : Prop :=
  ∀ id, 0 < id → id ≤ n.places.size → n.holder? id = none → id ∈ n.free

theorem isTight_empty : (empty : RecyclingNumbering α).IsTight := by
  intro id pos small
  simp only [empty, List.size_toArray, List.length_nil] at small
  omega

theorem isTight_vacate (t : n.IsTight) (id : Nat) : (n.vacate id).IsTight := by
  intro other pos small vacant
  rw [size_vacate] at small
  rw [holder?_vacate] at vacant
  cases hp : n.holder? id with
  | none =>
      rw [vacate_of_vacant hp]
      refine t other pos small ?_
      split at vacant
      · rename_i same
        rw [same, hp]
      · exact vacant
  | some a =>
      have freed : (n.vacate id).free = id :: n.free := by
        obtain ⟨⟨_, vacated⟩, hp, rfl⟩ := holder?_eq_some_iff.mp hp
        simp [vacate, hp]
      rw [freed, List.mem_cons]
      split at vacant
      · exact .inl ‹_›
      · exact .inr (t other pos small vacant)

theorem isTight_sweep (t : n.IsTight) (isLive : α → Bool) : (n.sweep isLive).IsTight := by
  change ((n.deadIds isLive).foldl vacate n).IsTight
  generalize n.deadIds isLive = ids
  induction ids generalizing n with
  | nil => exact t
  | cons id ids ih => exact ih (isTight_vacate t id)

theorem isTight_readied (t : n.IsTight) (isLive : α → Bool) : (n.readied isLive).IsTight := by
  have counted : IsTight { n with addedSinceSweep := n.addedSinceSweep + 1 } := t
  unfold readied
  dsimp only
  split
  · exact isTight_sweep counted isLive
  · exact counted

theorem isTight_settle (w : n.IsWellFormed) (t : n.IsTight) (a : α) : (n.settle a).2.IsTight := by
  intro id pos small vacant
  rw [(holder?_settle w a id).2] at vacant
  split at vacant
  · cases vacant
  rename_i given
  rw [size_settle] at small
  cases hf : n.free with
  | nil =>
      have fresh : (n.settle a).1 = n.places.size + 1 := by simp [settle, hf]
      rw [if_pos hf] at small
      have hm := t id pos (by omega) vacant
      rw [hf] at hm
      cases hm
  | cons first free =>
      have taken : (n.settle a).1 = first := by simp [settle, hf]
      rw [if_neg (by simp [hf])] at small
      have hm := t id pos small vacant
      rw [free_settle, hf, List.tail_cons]
      rw [hf, List.mem_cons] at hm
      rcases hm with rfl | hm
      · exact (given taken.symm).elim
      · exact hm

/-- Without a holder anywhere all places are free. -/
theorem size_le_free (t : n.IsTight) (vacant : ∀ id, n.holder? id = none) :
    n.places.size ≤ n.free.length := by
  have within : Finset.Icc 1 n.places.size ⊆ n.free.toFinset := by
    intro id hi
    rw [Finset.mem_Icc] at hi
    exact List.mem_toFinset.mpr (t id hi.1 hi.2 (vacant id))
  have few := Finset.card_le_card within
  rw [Nat.card_Icc] at few
  have := List.toFinset_card_le n.free
  omega

/-! ## What a sweep takes away -/

theorem mem_deadIds (held : n.holder? id = some a) (dead : isLive a = false) :
    id ∈ n.deadIds isLive := by
  obtain ⟨p, hp, holder⟩ := holder?_eq_some_iff.mp held
  obtain ⟨pos, -, place⟩ := place?_eq_some_iff.mp hp
  refine List.mem_filterMap.mpr ⟨(p, id), ?_, by simp [holder, dead]⟩
  rw [List.mem_zipIdx_iff_le_and_getElem?_sub]
  exact ⟨pos, by simpa using place⟩

theorem holder?_sweep_of_dead (held : n.holder? id = some a) (dead : isLive a = false) :
    (n.sweep isLive).holder? id = none := by
  change ((n.deadIds isLive).foldl vacate n).holder? id = none
  rw [holder?_vacateAll, if_pos (mem_deadIds held dead)]

theorem holder?_sweep_of_all_dead (dead : ∀ id b, n.holder? id = some b → isLive b = false)
    (id : Nat) : (n.sweep isLive).holder? id = none := by
  cases held : (n.sweep isLive).holder? id with
  | none => rfl
  | some b =>
      have before := holder?_of_sweep held
      rw [holder?_sweep_of_dead before (dead id b before)] at held
      cases held

/-! ## Additions -/

/-- What an addition finds before it looks for a number: either no number is free, enough has been
added and all dead elements are swept out, or there is one addition more. -/
theorem readied_cases (isLive : α → Bool) (n : RecyclingNumbering α) :
    (n.free = [] ∧ max n.places.size 64 ≤ n.addedSinceSweep + 1 ∧ n.readied isLive =
        sweep isLive { n with addedSinceSweep := n.addedSinceSweep + 1 }) ∨
      ((n.free = [] → n.addedSinceSweep + 1 < max n.places.size 64) ∧ n.readied isLive =
        { n with addedSinceSweep := n.addedSinceSweep + 1 }) := by
  unfold readied
  dsimp only
  split
  · rename_i due
    simp only [isSweepDue, Bool.and_eq_true, List.isEmpty_iff, decide_eq_true_eq] at due
    exact .inl ⟨due.1, due.2, rfl⟩
  · rename_i early
    simp only [isSweepDue, Bool.and_eq_true, List.isEmpty_iff, decide_eq_true_eq, not_and,
      Nat.not_le] at early
    exact .inr ⟨early, rfl⟩

/-- More places than additions since the last sweep and free numbers together, by at least two. -/
def IsOutpaced (n : RecyclingNumbering α) : Prop :=
  n.addedSinceSweep + n.free.length + 2 ≤ n.places.size

/-- At most 64 places, and at most one more than additions since the last sweep and free numbers
together. -/
def IsSnug (n : RecyclingNumbering α) : Prop :=
  n.places.size ≤ 64 ∧ n.places.size ≤ n.addedSinceSweep + n.free.length + 1

/-- Without a sweep an addition leaves the lead of the places over additions and free numbers as it
is. -/
theorem lead_settle (n : RecyclingNumbering α) (a : α) :
    (n.settle a).2.places.size + n.free.length =
      n.places.size + (n.settle a).2.free.length + 1 := by
  rw [size_settle, free_settle]
  cases n.free with
  | nil => simp
  | cons first free =>
      simp only [reduceCtorEq, if_false, List.length_cons, List.tail_cons]
      omega

theorem isOutpaced_settle
    (ahead : n.addedSinceSweep + n.free.length + 1 ≤ n.places.size) :
    (n.settle a).2.IsOutpaced := by
  have lead := lead_settle n a
  unfold IsOutpaced
  rw [addedSinceSweep_settle]
  omega

/-- A numbering that has been outpaced by its places never sweeps by itself again. -/
theorem readied_of_isOutpaced (o : n.IsOutpaced) :
    n.readied isLive = { n with addedSinceSweep := n.addedSinceSweep + 1 } := by
  unfold IsOutpaced at o
  rcases readied_cases isLive n with ⟨-, due, -⟩ | ⟨-, same⟩
  · omega
  · exact same

variable [DecidableEq α]

theorem isOutpaced_add (o : n.IsOutpaced) (a : α) : (n.add isLive a).2.IsOutpaced := by
  cases h : n.idOf? a with
  | some id => simpa [add, h] using o
  | none =>
      rw [add_of_idOf?_none isLive h, readied_of_isOutpaced o]
      refine isOutpaced_settle ?_
      unfold IsOutpaced at o
      dsimp only
      omega

theorem isTight_add (w : n.IsWellFormed) (t : n.IsTight) (isLive : α → Bool) (a : α) :
    (n.add isLive a).2.IsTight := by
  cases h : n.idOf? a with
  | some id => simpa [add, h] using t
  | none =>
      rw [add_of_idOf?_none isLive h]
      exact isTight_settle (isWellFormed_readied isLive w) (isTight_readied t isLive) a

omit [DecidableEq α] in
theorem addedSinceSweep_sweep (isLive : α → Bool) (n : RecyclingNumbering α) :
    (n.sweep isLive).addedSinceSweep = 0 := rfl

/-- With somebody left in place and a new element the places are ahead of a count that starts
anew. -/
theorem isOutpaced_add_of_swept (w : n.IsWellFormed) (new : n.idOf? a = none)
    (held : n.holder? id = some b) (live : isLive b = true)
    (swept : (n.readied isLive).addedSinceSweep = 0) : (n.add isLive a).2.IsOutpaced := by
  have w' := isWellFormed_readied isLive w
  obtain ⟨vacant, self⟩ := holder?_settle w' a ((n.readied isLive).settle a).1
  rw [if_pos rfl] at self
  have stays := holder?_readied_of_live held live
  have differ : id ≠ ((n.readied isLive).settle a).1 := by
    rintro rfl
    rw [vacant] at stays
    cases stays
  have other := (holder?_settle w' a id).2
  rw [if_neg differ, stays] at other
  have settled := isWellFormed_add isLive w a
  rw [add_of_idOf?_none isLive new] at settled ⊢
  have room := free_add_two_le settled other self differ
  unfold IsOutpaced
  rw [addedSinceSweep_settle, swept]
  omega

/-- An addition keeps a numbering small when nobody but the element itself lives there. -/
theorem isSnug_add (w : n.IsWellFormed) (t : n.IsTight) (s : n.IsSnug)
    (alone : ∀ id b, n.holder? id = some b → isLive b = true → b = a) :
    (n.add isLive a).2.IsSnug := by
  cases h : n.idOf? a with
  | some id => simpa [add, h] using s
  | none =>
      have lead := lead_settle (n.readied isLive) a
      have size := size_settle (n.readied isLive) a
      obtain ⟨few, close⟩ := s
      unfold IsSnug
      rw [add_of_idOf?_none isLive h, addedSinceSweep_settle]
      rcases readied_cases isLive n with ⟨-, due, swept⟩ | ⟨early, same⟩
      · have tight : (n.readied isLive).IsTight := isTight_readied t isLive
        have vacant : ∀ id, (n.readied isLive).holder? id = none := by
          rw [swept]
          refine holder?_sweep_of_all_dead fun id b held => ?_
          cases live : isLive b with
          | false => rfl
          | true => exact absurd (alone id b held live ▸ held) ((idOf?_eq_none_iff w).mp h id)
        have room := size_le_free tight vacant
        have places : (n.readied isLive).places.size = n.places.size := by
          rw [swept, size_sweep]
        rw [places] at size lead room
        split at size
        · rename_i none
          rw [none, List.length_nil] at room
          omega
        · omega
      · rw [same] at lead size ⊢
        dsimp only at lead size ⊢
        split at size
        · rename_i none
          have := early none
          rw [none, List.length_nil] at lead close
          omega
        · omega

/-- A numbering after some additions of new elements: none has been swept out yet, or the places are
ahead and almost all additions have been counted. -/
def HasGrown (additions : Nat) (n : RecyclingNumbering α) : Prop :=
  (n.free = [] ∧ n.places.size = additions ∧ n.addedSinceSweep = additions ∧ additions < 64) ∨
    (n.IsOutpaced ∧ additions ≤ n.addedSinceSweep + 64)

omit [DecidableEq α] in
theorem lt_size_of_hasGrown {additions : Nat} (g : n.HasGrown additions) :
    additions < n.places.size + 63 := by
  rcases g with ⟨-, size, -, -⟩ | ⟨o, counted⟩
  · omega
  · unfold IsOutpaced at o
    omega

theorem hasGrown_add {additions : Nat} (w : n.IsWellFormed) (g : n.HasGrown additions)
    (new : n.idOf? a = none) (held : n.holder? id = some b) (live : isLive b = true) :
    (n.add isLive a).2.HasGrown (additions + 1) := by
  rcases g with ⟨free, size, counted, few⟩ | ⟨o, counted⟩
  · rcases readied_cases isLive n with ⟨-, due, swept⟩ | ⟨early, same⟩
    · have start : (n.readied isLive).addedSinceSweep = 0 := by
        rw [swept, addedSinceSweep_sweep]
      refine .inr ⟨isOutpaced_add_of_swept w new held live start, ?_⟩
      rw [add_of_idOf?_none isLive new, addedSinceSweep_settle, start]
      omega
    · have less := early free
      refine .inl ?_
      rw [add_of_idOf?_none isLive new, same, free_settle, size_settle, addedSinceSweep_settle]
      simp only [free, if_true, List.tail_nil, size, counted, true_and]
      omega
  · refine .inr ⟨isOutpaced_add o a, ?_⟩
    rw [add_of_idOf?_none isLive new, readied_of_isOutpaced o, addedSinceSweep_settle]
    dsimp only
    omega

/-! ## Unattended runs -/

/-- Whether an event is an addition or the end of an element. -/
def Event.isUnattended : Event α → Bool
  | .add _ | .drop _ => true
  | .remove _ | .sweep => false

/-- Nobody removes an element or asks for a sweep. -/
def IsUnattended (events : List (Event α)) : Prop := ∀ e ∈ events, e.isUnattended = true

/-- The elements that have been added by some events. -/
def added (events : List (Event α)) : List α :=
  events.filterMap fun
    | .add a => some a
    | _ => none

open Usage

/-- The elements that have been added by some events and still exist. -/
def alive (events : List (Event α)) : Finset α :=
  (added events).toFinset.filter fun a => initial.run events |>.remains a

/-- Never more than so many of the elements added exist at the same time. -/
def LivesAtMost (most : Nat) (events : List (Event α)) : Prop :=
  ∀ past, past <+: events → (alive past).card ≤ most

variable (α) in
/-- No addition gives a number above a bound, as long as nobody attends to the numbering and never
more than so many of its elements exist at the same time. -/
def NumbersWithin (most bound : Nat) : Prop :=
  ∀ (past : List (Event α)) (a : α), IsUnattended past → LivesAtMost most (past ++ [.add a]) →
    (initial.run past).remains a = true →
      ((initial.run past).numbering.add (initial.run past).remains a).1 ≤ bound

variable {u : Usage α} {e : Event α} {events past : List (Event α)} {most bound : Nat}

omit [DecidableEq α] in
theorem mem_added : a ∈ added events ↔ .add a ∈ events := by
  unfold added
  rw [List.mem_filterMap]
  constructor
  · rintro ⟨e, hm, he⟩
    cases e with
    | add b => cases he; exact hm
    | remove b | sweep | drop b => cases he
  · exact fun hm => ⟨.add a, hm, rfl⟩

theorem mem_alive :
    a ∈ alive events ↔ .add a ∈ events ∧ (initial.run events).remains a = true := by
  rw [alive, Finset.mem_filter, List.mem_toFinset, mem_added]

theorem mem_gone_step : a ∈ (u.step e).gone ↔ a ∈ u.gone ∨ .drop a = e := by
  cases e with
  | add b | remove b =>
      unfold step
      dsimp only
      split <;> simp
  | sweep => simp [step]
  | drop b =>
      change a ∈ b :: u.gone ↔ _
      rw [List.mem_cons, or_comm, Event.drop.injEq]

theorem mem_gone_run : a ∈ (u.run events).gone ↔ a ∈ u.gone ∨ .drop a ∈ events := by
  induction events generalizing u with
  | nil => simp [run]
  | cons e events ih =>
      change a ∈ ((u.step e).run events).gone ↔ _
      rw [ih, mem_gone_step, List.mem_cons, or_assoc]

theorem remains_iff : (initial.run events).remains a = true ↔ .drop a ∉ events := by
  unfold remains
  rw [Bool.not_eq_true', List.contains_eq_mem, decide_eq_false_iff_not, mem_gone_run]
  simp [initial]

theorem alive_append_add (events : List (Event α)) (a : α) :
    alive (events ++ [.add a]) ⊆ insert a (alive events) := by
  intro b hb
  rw [mem_alive, remains_iff] at hb
  rw [Finset.mem_insert, mem_alive, remains_iff]
  simp only [List.mem_append, List.mem_singleton, Event.add.injEq, reduceCtorEq, or_false] at hb
  exact hb.1.elim (fun hm => .inr ⟨hm, hb.2⟩) .inl

theorem alive_append_drop (events : List (Event α)) (a : α) :
    alive (events ++ [.drop a]) = (alive events).erase a := by
  ext b
  rw [Finset.mem_erase, mem_alive, mem_alive, remains_iff, remains_iff]
  simp only [List.mem_append, List.mem_singleton, Event.drop.injEq, reduceCtorEq, or_false, not_or]
  tauto

theorem livesAtMost_append_singleton :
    LivesAtMost most (events ++ [e]) ↔
      LivesAtMost most events ∧ (alive (events ++ [e])).card ≤ most := by
  constructor
  · intro lives
    exact ⟨fun past hp => lives past (hp.trans (List.prefix_append events [e])),
      lives _ (List.prefix_refl _)⟩
  · rintro ⟨lives, last⟩ past hp
    rcases List.prefix_concat_iff.mp hp with rfl | hp
    · exact last
    · exact lives past hp

omit [DecidableEq α] in
theorem isUnattended_append_singleton :
    IsUnattended (events ++ [e]) ↔ IsUnattended events ∧ e.isUnattended = true := by
  unfold IsUnattended
  simp only [List.mem_append, List.mem_singleton, or_imp, forall_and, forall_eq]

theorem run_append_singleton (u : Usage α) (events : List (Event α)) (e : Event α) :
    u.run (events ++ [e]) = (u.run events).step e := run_append u events [e]

theorem numbering_run_add (there : (u.run past).remains a = true) :
    (u.run (past ++ [.add a])).numbering =
      ((u.run past).numbering.add (u.run past).remains a).2 := by
  rw [run_append_singleton]
  simp only [step, there, if_true]

/-- Whoever holds a number has been added. -/
theorem add_mem_of_holder? (held : (initial.run events).numbering.holder? id = some a) :
    .add a ∈ events := by
  induction events using List.reverseRecOn with
  | nil => simp [run, initial, holder?, place?, empty] at held
  | append_singleton events e ih =>
      rw [run_append_singleton] at held
      have w := isWellFormed_initial events
      rw [List.mem_append, List.mem_singleton]
      rcases step_cases (initial.run events) e with ⟨b, rfl, -, h⟩ | ⟨b, -, h⟩ | ⟨-, h⟩ | ⟨h, -⟩
      · rw [h] at held
        rcases holder?_of_add w held with rfl | held
        · exact .inr rfl
        · exact .inl (ih held)
      · exact .inl (ih ((holder?_of_remove? w h id a).mp held).1)
      · rw [h] at held
        exact .inl (ih (holder?_of_sweep held))
      · rw [h] at held
        exact .inl (ih held)

theorem isTight_run (events : List (Event α)) : (initial.run events).numbering.IsTight := by
  induction events using List.reverseRecOn with
  | nil => exact isTight_empty
  | append_singleton events e ih =>
      rw [run_append_singleton]
      have w := isWellFormed_initial events
      rcases step_cases (initial.run events) e with ⟨b, -, -, h⟩ | ⟨b, -, h⟩ | ⟨-, h⟩ | ⟨h, -⟩
      · rw [h]
        exact isTight_add w ih _ b
      · obtain ⟨gone, -, h⟩ := Option.map_eq_some_iff.mp h
        rw [← h]
        exact isTight_vacate ih gone
      · rw [h]
        exact isTight_sweep ih _
      · rw [h]
        exact ih

/-! ### One element at a time -/

/-- An unattended event adds an element that still exists, or leaves the numbering as it is. -/
theorem step_unattended (u : Usage α) (free : e.isUnattended = true) :
    (∃ a, e = .add a ∧ u.remains a = true ∧
        (u.step e).numbering = (u.numbering.add u.remains a).2) ∨
      (u.step e).numbering = u.numbering := by
  rcases step_cases u e with added | ⟨a, rfl, -⟩ | ⟨rfl, -⟩ | ⟨same, -⟩
  · exact .inl added
  · cases free
  · cases free
  · exact .inr same

/-- The only element that exists when another one is added is that one. -/
theorem eq_of_livesAtMost_one (lives : LivesAtMost 1 (events ++ [.add a]))
    (there : (initial.run events).remains a = true)
    (held : (initial.run events).numbering.holder? id = some b)
    (live : (initial.run events).remains b = true) : b = a := by
  have card := lives _ (List.prefix_refl _)
  have stays {c : α} (hc : (initial.run events).remains c = true) :
      (initial.run (events ++ [.add a])).remains c = true := by
    rw [remains_iff] at hc ⊢
    simpa using hc
  refine Finset.card_le_one.mp card b ?_ a ?_
  · exact mem_alive.mpr ⟨List.mem_append_left _ (add_mem_of_holder? held), stays live⟩
  · exact mem_alive.mpr ⟨List.mem_append_right _ (List.mem_singleton.mpr rfl), stays there⟩

theorem isSnug_run (free : IsUnattended events) (lives : LivesAtMost 1 events) :
    (initial.run events).numbering.IsSnug := by
  induction events using List.reverseRecOn with
  | nil => exact ⟨Nat.zero_le _, Nat.zero_le _⟩
  | append_singleton events e ih =>
      rw [isUnattended_append_singleton] at free
      have before := ih free.1 (livesAtMost_append_singleton.mp lives).1
      rw [run_append_singleton]
      rcases step_unattended (initial.run events) free.2 with ⟨a, rfl, there, h⟩ | h
      · rw [h]
        refine isSnug_add (isWellFormed_initial events) (isTight_run events) before ?_
        exact fun id b held live => eq_of_livesAtMost_one lives there held live
      · rwa [h]

theorem numbersWithin_of_le_one (few : most ≤ 1) : NumbersWithin α most 64 := by
  intro past a free lives there
  have w := isWellFormed_initial past
  have self := holder?_add_self (initial.run past).remains w a
  have lives : LivesAtMost 1 (past ++ [.add a]) := fun before hp => (lives before hp).trans few
  have small := isSnug_run
    (isUnattended_append_singleton.mpr ⟨free, rfl⟩) lives
  rw [numbering_run_add there] at small
  exact (le_size_of_holder? self).2.trans small.1

/-! ### Two elements at a time -/

theorem size_add_le (isLive : α → Bool) (n : RecyclingNumbering α) (a : α) :
    (n.add isLive a).2.places.size ≤ max n.places.size (n.add isLive a).1 := by
  cases h : n.idOf? a with
  | some id => simp [add, h]
  | none =>
      have size : (n.readied isLive).places.size = n.places.size := by
        rcases readied_cases isLive n with ⟨-, -, swept⟩ | ⟨-, same⟩
        · rw [swept, size_sweep]
        · rw [same]
      rw [add_of_idOf?_none isLive h, size_settle, ← size]
      split
      · rename_i none
        have fresh : ((n.readied isLive).settle a).1 = (n.readied isLive).places.size + 1 := by
          simp [settle, none]
        omega
      · exact Nat.le_max_left _ _

/-- A bound on the numbers given is a bound on the places. -/
theorem size_le_of_numbersWithin (within : NumbersWithin α most bound)
    (free : IsUnattended events) (lives : LivesAtMost most events) :
    (initial.run events).numbering.places.size ≤ bound := by
  induction events using List.reverseRecOn with
  | nil => exact Nat.zero_le _
  | append_singleton events e ih =>
      rw [isUnattended_append_singleton] at free
      have before := ih free.1 (livesAtMost_append_singleton.mp lives).1
      rw [run_append_singleton]
      rcases step_unattended (initial.run events) free.2 with ⟨a, rfl, there, h⟩ | h
      · rw [h]
        exact (size_add_le _ _ a).trans (Nat.max_le.mpr ⟨before, within events a free.1 lives there⟩)
      · rwa [h]

/-- An element that has been added and still exists has a number, as long as nobody removes it. -/
theorem exists_holder?_of_alive (free : IsUnattended events) (ha : a ∈ alive events) :
    ∃ id, (initial.run events).numbering.holder? id = some a := by
  obtain ⟨hm, there⟩ := mem_alive.mp ha
  obtain ⟨past, future, rfl⟩ := List.append_of_mem hm
  have kept : .remove a ∉ future := by
    intro hm
    cases free (.remove a) (by simp [hm])
  exact ⟨_, holder?_of_kept there kept⟩

/-- One element stays while others come and go, one after the other. -/
def relay (element : Nat → α) : Nat → List (Event α)
  | 0 => [.add (element 0)]
  | n + 1 => relay element n ++ [.add (element (n + 1))] ++ [.drop (element (n + 1))]

variable {element : Nat → α}

omit [DecidableEq α] in
theorem isUnattended_relay (n : Nat) : IsUnattended (relay element n) := by
  induction n with
  | zero =>
      intro e hm
      rw [relay, List.mem_singleton] at hm
      rw [hm]
      rfl
  | succ n ih =>
      rw [relay, isUnattended_append_singleton, isUnattended_append_singleton]
      exact ⟨⟨ih, rfl⟩, rfl⟩

omit [DecidableEq α] in
theorem add_first_mem_relay (n : Nat) : .add (element 0) ∈ relay element n := by
  induction n with
  | zero => exact List.mem_singleton.mpr rfl
  | succ n ih => simp [relay, ih]

omit [DecidableEq α] in
theorem add_mem_relay {n : Nat} (hm : .add a ∈ relay element n) : ∃ k ≤ n, a = element k := by
  induction n with
  | zero =>
      rw [relay, List.mem_singleton, Event.add.injEq] at hm
      exact ⟨0, Nat.le_refl 0, hm⟩
  | succ n ih =>
      simp only [relay, List.mem_append, List.mem_singleton, Event.add.injEq, reduceCtorEq,
        or_false] at hm
      rcases hm with hm | rfl
      · obtain ⟨k, hk, rfl⟩ := ih hm
        exact ⟨k, Nat.le_succ_of_le hk, rfl⟩
      · exact ⟨n + 1, Nat.le_refl _, rfl⟩

omit [DecidableEq α] in
theorem drop_mem_relay {n : Nat} (hm : .drop a ∈ relay element n) :
    ∃ k, 0 < k ∧ k ≤ n ∧ a = element k := by
  induction n with
  | zero => simp [relay] at hm
  | succ n ih =>
      simp only [relay, List.mem_append, List.mem_singleton, Event.drop.injEq, reduceCtorEq,
        or_false] at hm
      rcases hm with hm | rfl
      · obtain ⟨k, pos, hk, rfl⟩ := ih hm
        exact ⟨k, pos, Nat.le_succ_of_le hk, rfl⟩
      · exact ⟨n + 1, Nat.succ_pos n, Nat.le_refl _, rfl⟩

theorem alive_relay (n : Nat) : alive (relay element n) ⊆ {element 0} := by
  induction n with
  | zero => exact alive_append_add [] (element 0)
  | succ n ih =>
      rw [relay, alive_append_drop]
      refine Finset.Subset.trans ?_ ih
      rw [← Finset.subset_insert_iff]
      exact alive_append_add (relay element n) (element (n + 1))

theorem livesAtMost_relay (n : Nat) : LivesAtMost 2 (relay element n) := by
  have one (n : Nat) : (alive (relay element n)).card ≤ 1 :=
    (Finset.card_le_card (alive_relay n)).trans (Finset.card_singleton _).le
  induction n with
  | zero =>
      change LivesAtMost 2 ([] ++ [.add (element 0)])
      refine livesAtMost_append_singleton.mpr ⟨fun past hp => ?_, ?_⟩
      · rw [List.prefix_nil.mp hp]
        exact Nat.zero_le 2
      · exact (one 0).trans one_le_two
  | succ n ih =>
      rw [relay, livesAtMost_append_singleton, livesAtMost_append_singleton]
      refine ⟨⟨ih, ?_⟩, (one (n + 1)).trans one_le_two⟩
      have two := Finset.card_le_card (alive_append_add (relay element n) (element (n + 1)))
      have insert := Finset.card_insert_le (element (n + 1)) (alive (relay element n))
      have := one n
      omega

theorem hasGrown_relay (distinct : Function.Injective element) (n : Nat) :
    (initial.run (relay element n)).numbering.HasGrown (n + 1) := by
  induction n with
  | zero =>
      refine .inl ?_
      simp [relay, run, step, initial, remains, add, idOf?, isSweepDue, settle, empty]
  | succ n ih =>
      have w := isWellFormed_initial (relay element n)
      have there (k : Nat) (hk : k = 0 ∨ n < k) :
          (initial.run (relay element n)).remains (element k) = true := by
        rw [remains_iff]
        intro hm
        obtain ⟨j, pos, hj, same⟩ := drop_mem_relay hm
        have := distinct same
        omega
      have new : (initial.run (relay element n)).numbering.idOf? (element (n + 1)) = none := by
        rw [idOf?_eq_none_iff w]
        intro id held
        obtain ⟨j, hj, same⟩ := add_mem_relay (add_mem_of_holder? held)
        have := distinct same
        omega
      obtain ⟨id, held⟩ := exists_holder?_of_alive (isUnattended_relay n)
        (mem_alive.mpr ⟨add_first_mem_relay n, there 0 (.inl rfl)⟩)
      rw [relay, run_append_singleton]
      change (initial.run (relay element n ++ [.add (element (n + 1))])).numbering.HasGrown _
      rw [numbering_run_add (there (n + 1) (.inr (Nat.lt_succ_self n)))]
      exact hasGrown_add w ih new held (there 0 (.inl rfl))

theorem not_numbersWithin (distinct : Function.Injective element) (many : 2 ≤ most)
    (bound : Nat) : ¬ NumbersWithin α most bound := by
  intro within
  have lives : LivesAtMost most (relay element (bound + 62)) := fun past hp =>
    (livesAtMost_relay (bound + 62) past hp).trans many
  have size := size_le_of_numbersWithin within (isUnattended_relay (bound + 62)) lives
  have grown := lt_size_of_hasGrown (hasGrown_relay distinct (bound + 62))
  omega

/-- Where at most one element exists at a time no number is above 64; where two can, the numbers go
past every bound. -/
theorem numbers_bounded_iff [Infinite α] (most : Nat) :
    (NumbersWithin α most 64 ↔ most ≤ 1) ∧
      ((∃ bound, NumbersWithin α most bound) ↔ most ≤ 1) := by
  have few (bounded : ∃ bound, NumbersWithin α most bound) : most ≤ 1 := by
    by_contra many
    obtain ⟨bound, within⟩ := bounded
    exact not_numbersWithin (Infinite.natEmbedding α).injective (by omega) bound within
  exact ⟨⟨fun within => few ⟨64, within⟩, numbersWithin_of_le_one⟩,
    ⟨few, fun one => ⟨64, numbersWithin_of_le_one one⟩⟩⟩

theorem numbers_bounded_iff_nat :
    NumbersWithin Nat 1 64 ∧ ¬ ∃ bound, NumbersWithin Nat 2 bound := by
  refine ⟨(numbers_bounded_iff 1).1.mpr (Nat.le_refl 1), fun bounded => ?_⟩
  have := (numbers_bounded_iff (α := Nat) 2).2.mp bounded
  omega

/-- There is no bound for every number of elements that exist at a time. -/
theorem numbers_unbounded : ¬ ∀ most, ∃ bound, NumbersWithin Nat most bound := by
  intro bounded
  obtain ⟨bound, within⟩ := bounded 2
  exact not_numbersWithin Function.injective_id (Nat.le_refl 2) bound within

end RecyclingNumbering

end ClassUniverse
