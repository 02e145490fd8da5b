import ClassUniverse.Proofs.Numbering.Heap

/-!
# Numbers found by a search

A place refers to its object weakly, which keeps the memory of the object from being used again.  So
no object comes to an address that a place refers to.  Then an index by address makes no difference:
a numbering that searches its places for an object takes the same steps and gives the same answers.
-/

namespace ClassUniverse

/-- A heap with a numbering that searches its places for an object. -/
structure SearchedHeap {κ α : Type} (address : α → κ) where
  heap : Heap address
  numbering : RecyclingNumbering α

variable {κ α : Type} [DecidableEq κ] [DecidableEq α] {address : α → κ}

namespace SearchedHeap

def initial (address : α → κ) : SearchedHeap address := ⟨.empty, .empty⟩

/-- The heap and the numbering after an event.  Nobody has an object that does not exist. -/
def step (s : SearchedHeap address) : NumberedHeap.Event α → SearchedHeap address
  | .create a => { s with heap := s.heap.create a }
  | .drop a => { s with heap := s.heap.drop a }
  | .add a =>
      if s.heap.holds a then { s with numbering := (s.numbering.add s.heap.holds a).2 } else s
  | .remove a =>
      if s.heap.holds a then { s with numbering := (s.numbering.remove? a).getD s.numbering } else s
  | .sweep => { s with numbering := s.numbering.sweep s.heap.holds }

/-- The heap and the numbering after some events, one after the other. -/
def run (s : SearchedHeap address) (events : List (NumberedHeap.Event α)) : SearchedHeap address :=
  events.foldl step s

end SearchedHeap

namespace AddressedNumbering

/-- Whether a numbering gives the same answers about an object by its index as by a search. -/
structure FindsAs (address : α → κ) (isLive : α → Bool) (t : AddressedNumbering κ α) (a : α) :
    Prop where
  idOf? : (t.verified? address isLive a).map UInt32.toNat = t.toRecyclingNumbering.idOf? a
  handleOf? : t.handleOf? address isLive a = t.toRecyclingNumbering.handleOf? a
  add : (t.add? address isLive a).map Prod.fst =
    some (UInt32.ofNat (t.toRecyclingNumbering.add isLive a).1)
  remove : (t.remove? address isLive a).map Prod.fst =
    some (t.toRecyclingNumbering.remove? a).isSome

end AddressedNumbering

namespace NumberedHeap

def searched (s : NumberedHeap address) : SearchedHeap address :=
  ⟨s.heap, s.numbering.toRecyclingNumbering⟩

/-- Whether no place refers to another object at the address of a given one. -/
def IsOwn (s : NumberedHeap address) (a : α) : Prop :=
  ∀ number b, s.numbering.holder? number = some b → address b = address a → b = a

/-- Whether along some events no object comes into existence at an address for which a place still
refers to another one. -/
def IsSpared (s : NumberedHeap address) (events : List (Event α)) : Prop :=
  ∀ past a, past ++ [.create a] <+: events → ∀ v, s.run? past = some v → v.IsOwn a

variable {s t : NumberedHeap address} {e : Event α} {events : List (Event α)} {a : α}

theorem IsSpared.next (spared : s.IsSpared (e :: events)) (stepped : s.step? e = some t) :
    (∀ a, e = .create a → s.IsOwn a) ∧ t.IsSpared events := by
  constructor
  · rintro a rfl
    have begins : [.create a] <+: .create a :: events := List.prefix_append [.create a] events
    exact spared [] a begins s rfl
  · intro past a starts v ran
    refine spared (e :: past) a ?_ v ?_
    · exact (List.prefix_cons_inj e).mpr starts
    · rw [run?_cons stepped, ran]

omit [DecidableEq κ] [DecidableEq α] in
/-- A numbering that has lost holders leaves an address to its object. -/
theorem IsOwn.of_held (own : s.IsOwn a)
    (old : ∀ number b, t.numbering.holder? number = some b → s.numbering.holder? number = some b) :
    t.IsOwn a := fun number b held => own number b (old number b held)

/-! ## One event -/

theorem add?_of_isOwn (sound : s.IsSound) (there : s.heap.holds a = true) (own : s.IsOwn a) :
    ∃ m, s.numbering.add? address s.heap.holds a =
        some (UInt32.ofNat (s.numbering.add s.heap.holds a).1, m) ∧
      m.toRecyclingNumbering = (s.numbering.add s.heap.holds a).2 := by
  obtain ⟨n, m, clears, added, same, -⟩ :=
    AddressedNumbering.add?_eq_some sound.consistent (Heap.stands there)
  cases clears with
  | nothing => exact ⟨m, added, same⟩
  | stale held gone address =>
      rw [own _ _ held address, there] at gone
      cases gone

theorem findsAs_of_isOwn (sound : s.IsSound) (there : s.heap.holds a = true) (own : s.IsOwn a) :
    s.numbering.FindsAs address s.heap.holds a where
  idOf? := AddressedNumbering.map_verified? sound.consistent (Heap.stands there)
  handleOf? := AddressedNumbering.handleOf?_eq sound.consistent (Heap.stands there)
  add := by
    obtain ⟨m, added, -⟩ := add?_of_isOwn sound there own
    rw [added, Option.map_some]
  remove := by
    obtain ⟨m, removed, -⟩ :=
      AddressedNumbering.remove?_eq_some sound.consistent (Heap.stands there)
    rw [removed, Option.map_some]

/-- One event with an index is one event with a search, and no address of an object that exists is
left to another one. -/
theorem searched_step (sound : s.IsSound) (own : ∀ a, s.heap.holds a = true → s.IsOwn a)
    (spared : ∀ a, e = .create a → s.IsOwn a) (stepped : s.step? e = some t) :
    t.searched = s.searched.step e ∧ ∀ a, t.heap.holds a = true → t.IsOwn a := by
  cases e with
  | create a =>
      obtain rfl := Option.some.inj stepped
      refine ⟨rfl, fun b there => ?_⟩
      rcases Heap.holds_of_create there with there | ⟨rfl, -⟩
      · exact own b there
      · exact spared b rfl
  | drop a =>
      obtain rfl := Option.some.inj stepped
      exact ⟨rfl, fun b there => own b (Heap.holds_of_drop there)⟩
  | add a =>
      by_cases there : s.heap.holds a = true
      · obtain ⟨m, added, same⟩ := add?_of_isOwn sound there (own a there)
        simp only [step?, there, if_true, added, Option.map_some, Option.some.injEq] at stepped
        subst stepped
        refine ⟨by simp [searched, SearchedHeap.step, there, same], ?_⟩
        intro b there' number d held
        have held : m.holder? number = some d := held
        rw [same] at held
        rcases RecyclingNumbering.holder?_of_add sound.consistent.isWellFormed held with rfl | held
        · exact (Heap.stands there').alone d there
        · exact own b there' number d held
      · have absent : s.step? (.add a) = some s := if_neg there
        obtain rfl := Option.some.inj (absent.symm.trans stepped)
        exact ⟨by simp [searched, SearchedHeap.step, there], own⟩
  | remove a =>
      by_cases there : s.heap.holds a = true
      · obtain ⟨m, removed, same, -⟩ :=
          AddressedNumbering.remove?_eq_some sound.consistent (Heap.stands there)
        simp only [step?, there, if_true, removed, Option.map_some, Option.some.injEq] at stepped
        subst stepped
        refine ⟨by simp [searched, SearchedHeap.step, there, same], fun b there' => ?_⟩
        refine (own b there').of_held fun number d held => ?_
        have held : m.holder? number = some d := held
        rw [same] at held
        cases done : s.numbering.toRecyclingNumbering.remove? a with
        | none => rwa [done] at held
        | some n =>
            rw [done] at held
            exact ((RecyclingNumbering.holder?_of_remove? sound.consistent.isWellFormed done _ _).mp
              held).1
      · have absent : s.step? (.remove a) = some s := if_neg there
        obtain rfl := Option.some.inj (absent.symm.trans stepped)
        exact ⟨by simp [searched, SearchedHeap.step, there], own⟩
  | sweep =>
      obtain ⟨m, swept, same, -⟩ :=
        AddressedNumbering.sweep?_eq_some sound.consistent s.heap.holds
      simp only [step?, swept, Option.map_some, Option.some.injEq] at stepped
      subst stepped
      refine ⟨by simp [searched, SearchedHeap.step, same], fun b there => ?_⟩
      refine (own b there).of_held fun number d held => ?_
      have held : m.holder? number = some d := held
      rw [same] at held
      exact RecyclingNumbering.holder?_of_sweep held

/-! ## Runs -/

/-- Some events with an index are the same events with a search. -/
theorem searched_run (sound : s.IsSound) (own : ∀ a, s.heap.holds a = true → s.IsOwn a)
    (few : s.IsFew events) (spared : s.IsSpared events) (ran : s.run? events = some t) :
    t.searched = s.searched.run events ∧ ∀ a, t.heap.holds a = true → t.IsOwn a := by
  induction events generalizing s with
  | nil =>
      obtain rfl := Option.some.inj ran
      exact ⟨rfl, own⟩
  | cons e events ih =>
      obtain ⟨v, stepped, after⟩ := step sound e
      obtain ⟨size, few'⟩ := few.next stepped
      obtain ⟨free, spared'⟩ := spared.next stepped
      obtain ⟨same, own'⟩ := searched_step sound own free stepped
      rw [run?_cons stepped] at ran
      obtain ⟨same', own''⟩ := ih (after size).1 own' few' spared' ran
      exact ⟨by rw [same', same]; rfl, own''⟩

/-- Where no object comes to an address that a place still refers to, a numbering with an index and
one that searches its places go through the same states, and the index gives the answers of the
search. -/
theorem agrees_with_search (few : (initial address).IsFew events)
    (spared : (initial address).IsSpared events) :
    ∃ u, (initial address).run? events = some u ∧
      u.searched = (SearchedHeap.initial address).run events ∧
      ∀ a, u.heap.holds a = true → u.numbering.FindsAs address u.heap.holds a := by
  obtain ⟨u, ran, sound, -⟩ := run isSound_initial few
  obtain ⟨same, own⟩ := searched_run isSound_initial (fun _ there => nomatch there) few spared ran
  exact ⟨u, ran, same, fun a there => findsAs_of_isOwn sound there (own a there)⟩

end NumberedHeap

end ClassUniverse
