import ClassUniverse.Proofs.Numbering.Addressed

/-!
# Objects in a heap and their numbering

Objects come into existence, each once and at an address where no other one stands then, and cease
to exist.  Meanwhile those who have an object add it to a numbering with an index by address or
remove it from there, and dead objects are swept out, in any order.  An address may be taken again
as soon as its object is gone, also while a place still refers to that.

No event meets a number without a place or brings the tables out of step, and `Passes` says what
becomes of a place along a run.
-/

namespace ClassUniverse

/-- The objects that exist, and all that have existed so far.  Those that exist stand at different
addresses. -/
structure Heap {κ α : Type} (address : α → κ) where
  present : List α
  known : List α
  within : present ⊆ known
  apart : ∀ a ∈ present, ∀ b ∈ present, address a = address b → a = b

variable {κ α : Type} {address : α → κ}

namespace Heap

def empty : Heap address := ⟨[], [], List.Subset.refl _, nofun⟩

variable [DecidableEq α]

def holds (h : Heap address) (a : α) : Bool := h.present.contains a

theorem holds_iff {h : Heap address} {a : α} : h.holds a = true ↔ a ∈ h.present := by
  unfold holds
  rw [List.contains_iff_mem]

theorem mem_known_of_holds {h : Heap address} {a : α} (there : h.holds a = true) : a ∈ h.known :=
  h.within (holds_iff.mp there)

theorem stands {h : Heap address} {a : α} (there : h.holds a = true) :
    AddressedNumbering.Stands address h.holds a where
  live := there
  alone b hb same := h.apart b (holds_iff.mp hb) a (holds_iff.mp there) same

/-- The heap with one more object, if this has not existed before and its address is free. -/
def create [DecidableEq κ] (h : Heap address) (a : α) : Heap address :=
  if free : a ∉ h.known ∧ ∀ b ∈ h.present, address b ≠ address a then
    { present := a :: h.present
      known := a :: h.known
      within := List.cons_subset_cons a h.within
      apart := by
        intro b hb d hd same
        rw [List.mem_cons] at hb hd
        rcases hb with rfl | hb
        · rcases hd with rfl | hd
          · rfl
          · exact absurd same.symm (free.2 d hd)
        · rcases hd with rfl | hd
          · exact absurd same (free.2 b hb)
          · exact h.apart b hb d hd same }
  else h

def drop (h : Heap address) (a : α) : Heap address where
  present := h.present.filter fun b => b ≠ a
  known := h.known
  within := List.Subset.trans List.filter_sublist.subset h.within
  apart b hb d hd := h.apart b (List.mem_filter.mp hb).1 d (List.mem_filter.mp hd).1

variable {h : Heap address} {a b : α}

theorem known_create [DecidableEq κ] : h.known ⊆ (h.create a).known := by
  unfold create
  split
  · exact List.subset_cons_self a h.known
  · exact List.Subset.refl _

/-- An object that exists after a creation is the new one or existed before. -/
theorem holds_of_create [DecidableEq κ] (there : (h.create a).holds b = true) :
    h.holds b = true ∨ b = a ∧ a ∉ h.known := by
  unfold create at there
  split at there
  · rename_i free
    rw [holds_iff] at there ⊢
    rcases List.mem_cons.mp there with rfl | old
    · exact .inr ⟨rfl, free.1⟩
    · exact .inl old
  · exact .inl there

theorem holds_of_drop (there : (h.drop a).holds b = true) : h.holds b = true := by
  rw [holds_iff] at there ⊢
  exact (List.mem_filter.mp there).1

end Heap

/-- A heap with a numbering of its objects. -/
structure NumberedHeap {κ α : Type} (address : α → κ) where
  heap : Heap address
  numbering : AddressedNumbering κ α

namespace NumberedHeap

/-- What befalls a heap and its numbering: an object comes into existence or ceases to exist, it is
added or removed by somebody who has it, or dead objects are swept out. -/
inductive Event (α : Type)
  | create (a : α)
  | drop (a : α)
  | add (a : α)
  | remove (a : α)
  | sweep
  deriving DecidableEq

def initial (address : α → κ) : NumberedHeap address := ⟨.empty, .empty⟩

variable [DecidableEq κ] [DecidableEq α]

/-- The heap and the numbering after an event; nothing when a number without a place is met.  Nobody
has an object that does not exist. -/
def step? (s : NumberedHeap address) : Event α → Option (NumberedHeap address)
  | .create a => some { s with heap := s.heap.create a }
  | .drop a => some { s with heap := s.heap.drop a }
  | .add a =>
      if s.heap.holds a then
        (s.numbering.add? address s.heap.holds a).map fun given => { s with numbering := given.2 }
      else some s
  | .remove a =>
      if s.heap.holds a then
        (s.numbering.remove? address s.heap.holds a).map fun done => { s with numbering := done.2 }
      else some s
  | .sweep =>
      (s.numbering.sweep? address s.heap.holds).map fun swept => { s with numbering := swept.2 }

/-- The heap and the numbering after some events, one after the other. -/
def run? (s : NumberedHeap address) (events : List (Event α)) : Option (NumberedHeap address) :=
  events.foldlM step? s

/-- Whether an object has been added by some events, while it existed, and not been removed since.
-/
def IsKept (s : NumberedHeap address) (events : List (Event α)) (a : α) : Prop :=
  ∃ past future v, events = past ++ .add a :: future ∧ s.run? past = some v ∧
    v.heap.holds a = true ∧ .remove a ∉ future

variable {s t u : NumberedHeap address} {e : Event α} {events past future : List (Event α)}
  {a b : α} {number : Nat} {p : RecyclingPlace α}

theorem run?_append : s.run? (past ++ future) = (s.run? past).bind fun v => v.run? future := by
  unfold run?
  rw [List.foldlM_append]
  rfl

theorem run?_cons (stepped : s.step? e = some t) : s.run? (e :: events) = t.run? events := by
  unfold run?
  rw [List.foldlM_cons, stepped]
  rfl

theorem run?_singleton : s.run? [e] = s.step? e := by
  unfold run?
  rw [List.foldlM_cons]
  cases s.step? e <;> rfl

/-! ## What events pass on -/

/-- What some events make of a heap and its numbering.  An object that still exists in the end and
is not removed on the way stays in its place, a place that such an object has been removed from has
been vacated once more, and whoever holds a number held it before or has been added. -/
structure Passes (s : NumberedHeap address) (events : List (Event α)) (t : NumberedHeap address) :
    Prop where
  ran : s.run? events = some t
  known : s.heap.known ⊆ t.heap.known
  lasts : ∀ a ∈ s.heap.known, t.heap.holds a = true → s.heap.holds a = true
  follows : s.numbering.Follows t.numbering.toRecyclingNumbering
  stays : ∀ {number a}, s.numbering.holder? number = some a → t.heap.holds a = true →
    .remove a ∉ events → t.numbering.place? number = s.numbering.place? number
  leaves : ∀ {number a p}, s.numbering.place? number = some p → p.holder = some a →
    t.heap.holds a = true → .remove a ∈ events →
      ∃ q, t.numbering.place? number = some q ∧ p.vacated < q.vacated
  comes : ∀ {number a}, t.numbering.holder? number = some a → t.heap.holds a = true →
    s.IsKept events a ∨ s.numbering.holder? number = some a ∧ .remove a ∉ events

/-- Whether the tables of a numbering are in step, and all objects that places refer to have
existed. -/
structure IsSound (s : NumberedHeap address) : Prop where
  consistent : s.numbering.IsConsistent address
  known : ∀ {number a}, s.numbering.holder? number = some a → a ∈ s.heap.known

omit [DecidableEq κ] [DecidableEq α] in
theorem isSound_initial : (initial address).IsSound where
  consistent := AddressedNumbering.isConsistent_empty
  known held := by
    simp [initial, AddressedNumbering.empty, RecyclingNumbering.empty, RecyclingNumbering.holder?,
      RecyclingNumbering.place?] at held

theorem IsKept.append_right (h : s.IsKept past a) (kept : .remove a ∉ future) :
    s.IsKept (past ++ future) a := by
  obtain ⟨before, since, v, rfl, ran, there, unremoved⟩ := h
  refine ⟨before, since ++ future, v, by simp, ran, there, ?_⟩
  rw [List.mem_append, not_or]
  exact ⟨unremoved, kept⟩

theorem IsKept.append_left (ran : s.run? past = some t) (h : t.IsKept future a) :
    s.IsKept (past ++ future) a := by
  obtain ⟨before, since, v, rfl, ran', there, unremoved⟩ := h
  refine ⟨past ++ before, since, v, by simp, ?_, there, unremoved⟩
  rw [run?_append, ran, Option.bind_some, ran']

namespace Passes

theorem refl (s : NumberedHeap address) : s.Passes [] s where
  ran := rfl
  known := List.Subset.refl _
  lasts _ _ there := there
  follows := .refl _
  stays _ _ _ := rfl
  leaves _ _ _ removed := nomatch removed
  comes held _ := .inr ⟨held, List.not_mem_nil⟩

theorem trans (sound : s.IsSound) (sound' : t.IsSound) (first : s.Passes past t)
    (second : t.Passes future u) : s.Passes (past ++ future) u where
  ran := by rw [run?_append, first.ran, Option.bind_some, second.ran]
  known := List.Subset.trans first.known second.known
  lasts a hk there := first.lasts a hk (second.lasts a (first.known hk) there)
  follows := first.follows.trans second.follows
  stays {number a} held there kept := by
    rw [List.mem_append, not_or] at kept
    have there' := second.lasts a (first.known (sound.known held)) there
    have place := first.stays held there' kept.1
    have held' : t.numbering.holder? number = some a :=
      (RecyclingNumbering.holder?_congr place).trans held
    rw [second.stays held' there kept.2, place]
  leaves {number a p} hp held there removed := by
    have holder : s.numbering.holder? number = some a :=
      RecyclingNumbering.holder?_eq_some_iff.mpr ⟨p, hp, held⟩
    have there' := second.lasts a (first.known (sound.known holder)) there
    by_cases early : .remove a ∈ past
    · obtain ⟨q, hq, less⟩ := first.leaves hp held there' early
      obtain ⟨r, hr, becomes⟩ := second.follows number q hq
      exact ⟨r, hr, Nat.lt_of_lt_of_le less becomes.le⟩
    · have place := first.stays holder there' early
      exact second.leaves (place.trans hp) held there
        ((List.mem_append.mp removed).resolve_left early)
  comes {number a} held there := by
    rcases second.comes held there with kept | ⟨held', kept⟩
    · exact .inl (kept.append_left first.ran)
    · rcases first.comes held' (second.lasts a (sound'.known held') there) with kept' | ⟨old, kept'⟩
      · exact .inl (kept'.append_right kept)
      · refine .inr ⟨old, ?_⟩
        rw [List.mem_append, not_or]
        exact ⟨kept', kept⟩

end Passes

/-! ### One event -/

/-- What an event passes on that leaves the objects as they are. -/
theorem passes_of_numbering (ran : s.step? e = some t) (same : t.heap = s.heap)
    (follows : s.numbering.Follows t.numbering.toRecyclingNumbering)
    (stays : ∀ {number a}, s.numbering.holder? number = some a → s.heap.holds a = true →
      e ≠ .remove a → t.numbering.place? number = s.numbering.place? number)
    (leaves : ∀ {number a p}, s.numbering.place? number = some p → p.holder = some a →
      s.heap.holds a = true → e = .remove a →
        ∃ q, t.numbering.place? number = some q ∧ p.vacated < q.vacated)
    (comes : ∀ {number a}, t.numbering.holder? number = some a → s.heap.holds a = true →
      e = .add a ∨ s.numbering.holder? number = some a ∧ e ≠ .remove a) : s.Passes [e] t where
  ran := by rw [run?_singleton, ran]
  known := by rw [same]; exact List.Subset.refl _
  lasts a _ there := by rwa [same] at there
  follows := follows
  stays held there kept := by
    rw [same] at there
    rw [List.mem_singleton] at kept
    exact stays held there (Ne.symm kept)
  leaves hp held there removed := by
    rw [same] at there
    exact leaves hp held there (List.mem_singleton.mp removed).symm
  comes held there := by
    rw [same] at there
    rcases comes held there with rfl | ⟨old, ne⟩
    · exact .inl ⟨[], [], s, rfl, rfl, there, List.not_mem_nil⟩
    · exact .inr ⟨old, fun hm => ne (List.mem_singleton.mp hm).symm⟩

/-- What an event passes on that leaves the numbering as it is. -/
theorem passes_of_heap {h : Heap address} (ran : s.step? e = some { s with heap := h })
    (known : s.heap.known ⊆ h.known)
    (lasts : ∀ a ∈ s.heap.known, h.holds a = true → s.heap.holds a = true)
    (mild : ∀ a, h.holds a = true → e ≠ .remove a) :
    s.Passes [e] { s with heap := h } where
  ran := by rw [run?_singleton, ran]
  known := known
  lasts := lasts
  follows := .refl _
  stays _ _ _ := rfl
  leaves {_ a _} _ _ there removed := absurd (List.mem_singleton.mp removed).symm (mild a there)
  comes {_ a} held there :=
    .inr ⟨held, fun hm => mild a there (List.mem_singleton.mp hm).symm⟩

omit [DecidableEq κ] [DecidableEq α] in
theorem IsSound.of_heap (sound : s.IsSound) {h : Heap address} (known : s.heap.known ⊆ h.known) :
    IsSound { s with heap := h } where
  consistent := sound.consistent
  known held := known (sound.known held)

/-- Nothing comes of an addition or a removal by somebody who does not have the object. -/
theorem step_of_absent (sound : s.IsSound) (ran : s.step? e = some s)
    (absent : ∀ b, s.heap.holds b = true → e ≠ .remove b) : s.IsSound ∧ s.Passes [e] s :=
  ⟨sound, passes_of_heap ran (List.Subset.refl _) (fun _ _ there => there) absent⟩

theorem step_add (sound : s.IsSound) (there : s.heap.holds a = true) :
    ∃ t, s.step? (.add a) = some t ∧
      (t.numbering.places.size < 2 ^ 32 → t.IsSound ∧ s.Passes [.add a] t) := by
  obtain ⟨n, m, clears, added, same, consistent⟩ :=
    AddressedNumbering.add?_eq_some sound.consistent (Heap.stands there)
  have w := clears.isWellFormed sound.consistent.isWellFormed
  have ran : s.step? (.add a) = some { s with numbering := m } := by
    simp only [step?, there, if_true, added, Option.map_some]
  have came {number : Nat} {b : α} (held : m.holder? number = some b) :
      b = a ∨ s.numbering.holder? number = some b := by
    rw [same] at held
    exact (RecyclingNumbering.holder?_of_add w held).imp_right clears.holder?_of_some
  refine ⟨_, ran, fun few => ⟨⟨consistent few, fun held => ?_⟩,
    passes_of_numbering ran rfl ?_ ?_ ?_ ?_⟩⟩
  · rcases came held with rfl | held
    · exact Heap.mem_known_of_holds there
    · exact sound.known held
  · change s.numbering.Follows m.toRecyclingNumbering
    rw [same]
    exact clears.follows.trans (RecyclingNumbering.follows_add w _ a)
  · intro number b held live _
    have place := clears.place?_of_live held live
    have held' : n.holder? number = some b := (RecyclingNumbering.holder?_congr place).trans held
    change m.place? number = _
    rw [same, RecyclingNumbering.place?_add_of_live w a held' live, place]
  · intro _ _ _ _ _ _ removed
    cases removed
  · intro number b held live
    rcases came held with rfl | held
    · exact .inl rfl
    · exact .inr ⟨held, nofun⟩

theorem step_remove (sound : s.IsSound) (there : s.heap.holds a = true) :
    ∃ t, s.step? (.remove a) = some t ∧ t.IsSound ∧ s.Passes [.remove a] t := by
  have w := sound.consistent.isWellFormed
  obtain ⟨m, removed, same, consistent⟩ :=
    AddressedNumbering.remove?_eq_some sound.consistent (Heap.stands there)
  have ran : s.step? (.remove a) = some { s with numbering := m } := by
    simp only [step?, there, if_true, removed, Option.map_some]
  cases done : s.numbering.toRecyclingNumbering.remove? a with
  | none =>
      rw [done, Option.getD_none] at same
      have absent := Option.map_eq_none_iff.mp done
      refine ⟨_, ran, ⟨consistent, fun held => ?_⟩, passes_of_numbering ran rfl ?_ ?_ ?_ ?_⟩
      · rw [same] at held
        exact sound.known held
      · change s.numbering.Follows m.toRecyclingNumbering
        rw [same]
        exact .refl _
      · intro number b _ _ _
        change m.place? number = _
        rw [same]
      · rintro number b p hp held live ⟨⟩
        have holder := RecyclingNumbering.holder?_eq_some_iff.mpr ⟨p, hp, held⟩
        rw [(RecyclingNumbering.idOf?_eq_some_iff w).mpr holder] at absent
        cases absent
      · intro number b held live
        have held : m.holder? number = some b := held
        rw [same] at held
        refine .inr ⟨held, ?_⟩
        rintro ⟨⟩
        rw [(RecyclingNumbering.idOf?_eq_some_iff w).mpr held] at absent
        cases absent
  | some n =>
      rw [done, Option.getD_some] at same
      have left := RecyclingNumbering.holder?_of_remove? w done
      refine ⟨_, ran, ⟨consistent, fun held => ?_⟩, passes_of_numbering ran rfl ?_ ?_ ?_ ?_⟩
      · rw [same] at held
        exact sound.known ((left _ _).mp held).1
      · change s.numbering.Follows m.toRecyclingNumbering
        rw [same]
        exact RecyclingNumbering.follows_of_remove? done
      · intro number b held _ ne
        change m.place? number = _
        rw [same]
        refine RecyclingNumbering.place?_of_remove? w done held ?_
        rintro rfl
        exact ne rfl
      · rintro number b p hp held live ⟨⟩
        obtain ⟨n', done', place⟩ := RecyclingNumbering.remove?_of_holder w hp held
        obtain rfl := Option.some.inj (done.symm.trans done')
        refine ⟨⟨none, p.vacated + 1⟩, ?_, Nat.lt_succ_self _⟩
        change m.place? number = _
        rw [same, place]
      · intro number b held live
        have held : m.holder? number = some b := held
        rw [same] at held
        obtain ⟨old, ne⟩ := (left number b).mp held
        refine .inr ⟨old, ?_⟩
        rintro ⟨⟩
        exact ne rfl

theorem step_sweep (sound : s.IsSound) :
    ∃ t, s.step? .sweep = some t ∧ t.IsSound ∧ s.Passes [.sweep] t := by
  obtain ⟨m, swept, same, consistent⟩ :=
    AddressedNumbering.sweep?_eq_some sound.consistent s.heap.holds
  have ran : s.step? .sweep = some { s with numbering := m } := by
    simp only [step?, swept, Option.map_some]
  have old {number : Nat} {b : α} (held : m.holder? number = some b) :
      s.numbering.holder? number = some b := by
    rw [same] at held
    exact RecyclingNumbering.holder?_of_sweep held
  refine ⟨_, ran, ⟨consistent, fun held => sound.known (old held)⟩,
    passes_of_numbering ran rfl ?_ ?_ nofun fun held _ => .inr ⟨old held, nofun⟩⟩
  · change s.numbering.Follows m.toRecyclingNumbering
    rw [same]
    exact RecyclingNumbering.follows_sweep _ _
  · intro number b held live _
    change m.place? number = _
    rw [same, RecyclingNumbering.place?_sweep_of_live held live]

/-- No event meets a number without a place. -/
theorem step (sound : s.IsSound) (e : Event α) :
    ∃ t, s.step? e = some t ∧
      (t.numbering.places.size < 2 ^ 32 → t.IsSound ∧ s.Passes [e] t) := by
  cases e with
  | create a =>
      refine ⟨_, rfl, fun _ => ⟨sound.of_heap Heap.known_create,
        passes_of_heap rfl Heap.known_create (fun b known there => ?_) nofun⟩⟩
      refine (Heap.holds_of_create there).resolve_right ?_
      rintro ⟨rfl, new⟩
      exact new known
  | drop a =>
      have same : s.heap.known ⊆ (s.heap.drop a).known := List.Subset.refl _
      exact ⟨_, rfl, fun _ => ⟨sound.of_heap same,
        passes_of_heap rfl same (fun _ _ => Heap.holds_of_drop) nofun⟩⟩
  | add a =>
      by_cases there : s.heap.holds a = true
      · exact step_add sound there
      · have ran : s.step? (.add a) = some s := if_neg there
        exact ⟨s, ran, fun _ => step_of_absent sound ran nofun⟩
  | remove a =>
      by_cases there : s.heap.holds a = true
      · obtain ⟨t, ran, after⟩ := step_remove sound there
        exact ⟨t, ran, fun _ => after⟩
      · have ran : s.step? (.remove a) = some s := if_neg there
        refine ⟨s, ran, fun _ => step_of_absent sound ran ?_⟩
        rintro b live ⟨⟩
        exact there live
  | sweep =>
      obtain ⟨t, ran, after⟩ := step_sweep sound
      exact ⟨t, ran, fun _ => after⟩

/-! ### Runs -/

/-- Whether there are never 2³² places along some events. -/
def IsFew (s : NumberedHeap address) (events : List (Event α)) : Prop :=
  ∀ past, past <+: events → ∀ v, s.run? past = some v → v.numbering.places.size < 2 ^ 32

theorem IsFew.rest (few : s.IsFew (past ++ future)) (ran : s.run? past = some t) :
    t.IsFew future := by
  intro before starts v ran'
  refine few (past ++ before) ((List.prefix_append_right_inj past).mpr starts) v ?_
  rw [run?_append, ran, Option.bind_some, ran']

theorem IsFew.next (few : s.IsFew (e :: events)) (stepped : s.step? e = some t) :
    t.numbering.places.size < 2 ^ 32 ∧ t.IsFew events := by
  constructor
  · exact few [e] (List.prefix_append [e] events) t (by rw [run?_singleton, stepped])
  · intro past starts v ran
    refine few (e :: past) ((List.prefix_cons_inj e).mpr starts) v ?_
    rw [run?_cons stepped, ran]

theorem run (sound : s.IsSound) (few : s.IsFew events) :
    ∃ t, s.run? events = some t ∧ t.IsSound ∧ s.Passes events t := by
  induction events generalizing s with
  | nil => exact ⟨s, rfl, sound, .refl s⟩
  | cons e events ih =>
      obtain ⟨v, stepped, after⟩ := step sound e
      obtain ⟨size, few'⟩ := few.next stepped
      obtain ⟨sound', first⟩ := after size
      obtain ⟨t, -, sound'', second⟩ := ih sound' few'
      have all := first.trans sound sound' second
      exact ⟨t, all.ran, sound'', all⟩

end NumberedHeap

end ClassUniverse
