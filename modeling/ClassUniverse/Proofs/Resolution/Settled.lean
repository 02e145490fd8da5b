import ClassUniverse.Proofs.Resolution.Declared

/-!
# Settled classes

A class is loaded to `hierarchy` after its supertypes, so no cycle of declared names can be reached
from a class that is, and where no phantoms are allowed every name that can be reached from it has a
definition.  Every move of resolution keeps it so.
-/

namespace ClassUniverse

open Relation (ReflTransGen TransGen)

namespace Supply

/-- Whether no cycle can be reached from a name and, unless phantoms are allowed, every name that
can be reached has a definition. -/
structure IsSound (s : Supply) (allowPhantoms : Bool) (name : String) : Prop where
  acyclic : ∀ above, ReflTransGen s.Declares name above → ¬ TransGen s.Declares above above
  defined : allowPhantoms = false → ∀ above, ReflTransGen s.Declares name above →
    ∃ d, s.lookup above = .ok (some d)

variable {s : Supply} {allowPhantoms : Bool} {name : String} {d : ClassDefinition}

theorem isSound_of_absent (absent : s.lookup name = .ok none) : s.IsSound true name where
  acyclic above path cycle := by
    have step : ∃ next, s.Declares name next := by
      rcases path.cases_head with rfl | ⟨next, step, -⟩
      · obtain ⟨next, step, -⟩ := TransGen.head'_iff.mp cycle
        exact ⟨next, step⟩
      · exact ⟨next, step⟩
    obtain ⟨_, d, given, -⟩ := step
    rw [absent] at given
    cases given
  defined h := nomatch h

theorem isSound_of_supertypes (given : s.lookup name = .ok (some d))
    (sound : ∀ parent ∈ d.supertypes, s.IsSound allowPhantoms parent) :
    s.IsSound allowPhantoms name := by
  have above {parent : String} (step : s.Declares name parent) :
      s.IsSound allowPhantoms parent := by
    obtain ⟨d', given', member⟩ := step
    rw [given] at given'
    cases given'
    exact sound parent member
  constructor
  · intro other path cycle
    rcases path.cases_head with rfl | ⟨parent, step, path⟩
    · obtain ⟨parent, step, back⟩ := TransGen.head'_iff.mp cycle
      exact (above step).acyclic name back cycle
    · exact (above step).acyclic other path cycle
  · intro disallowed other path
    rcases path.cases_head with rfl | ⟨parent, step, path⟩
    · exact ⟨d, given⟩
    · exact (above step).defined disallowed other path

end Supply

namespace Universe

/-- Whether every class that is loaded to `hierarchy` is sound. -/
def IsSettled (u : Universe) (s : Supply) : Prop :=
  ∀ name id, u.Serves name .hierarchy id → s.IsSound u.allowPhantoms name

variable {s : Supply} {u v : Universe} {name : String} {id one : ClassId} {d : ClassDefinition}
  {a : Addition}

theorem isSettled_empty (recycles allowPhantoms : Bool) (s : Supply) :
    (empty recycles allowPhantoms).IsSettled s :=
  fun _ _ served => nomatch served.found

theorem IsSettled.of_touches (h : u.IsSettled s) (wf : u.IsWellFormed) (touches : u.Touches v one)
    (same : v.allowPhantoms = u.allowPhantoms)
    (self : ∀ name, v.Serves name .hierarchy one → s.IsSound u.allowPhantoms name) :
    v.IsSettled s := by
  intro name id served
  rw [same]
  by_cases hid : id = one
  · subst hid
    exact self name served
  · obtain ⟨found, record⟩ := touches.untouched wf served.found hid
    have loaded := served.loaded
    unfold Universe.isLoaded at loaded
    rw [record] at loaded
    exact h name id ⟨found, loaded⟩

/-- A class to which a level from `hierarchy` on adds something is sound, as its supertypes are. -/
theorem IsSettled.ready (h : u.IsSettled s) (given : s.lookup d.name = .ok (some d))
    (ready : u.Ready d a) (high : .hierarchy ≤ a.level) : s.IsSound u.allowPhantoms d.name := by
  cases a with
  | nothing => exact absurd high (by decide)
  | supertypes superclass interfaces =>
      have links : u.Links d superclass interfaces := ready
      refine Supply.isSound_of_supertypes given fun parent member => ?_
      unfold ClassDefinition.supertypes at member
      rcases List.mem_append.mp member with member | member
      · have related := links.superclass
        rw [Option.mem_toList.mp member] at related
        cases related with
        | some served => exact h parent _ served
      · obtain ⟨id, -, served⟩ := exists_related links.interfaces member
        exact h parent id served
  | members =>
      obtain ⟨⟨id, served⟩, -⟩ := ready
      exact h d.name id served
  | bodies =>
      obtain ⟨⟨id, served⟩, -⟩ := ready
      exact h d.name id (served.of_le (by decide))

theorem level_register : ((u.register d a).record u.next).level = a.level := by
  cases a <;> rw [record_register_next] <;> rfl

end Universe

open Universe

theorem Move.isSettled {s : Supply} {floor : Level} {u v : Universe} (wf : u.IsWellFormed)
    (named : s.IsNamed) (h : u.IsSettled s) (m : Move s floor u v) : v.IsSettled s := by
  have same := (m.keeps wf).2.allowPhantoms
  cases m with
  | ask => exact fun name id served => h name id ⟨served.found, served.loaded⟩
  | @demote name id absent found allowed =>
      refine h.of_touches wf (touches_moved u id _) same fun other served => ?_
      have found' := served.found
      rw [find?_moved] at found'
      rw [allowed, wf.name_eq found' found]
      exact Supply.isSound_of_absent absent
  | @phantom name absent new allowed =>
      refine h.of_touches wf (touches_haunted u name) same fun other served => ?_
      rw [allowed, (wf.haunted new).1.name_eq served.found (serves_haunted u name .dangling).found]
      exact Supply.isSound_of_absent absent
  | @register name d a given above new ready =>
      refine h.of_touches wf (touches_register u d a) same fun other served => ?_
      rw [(wf.register new).1.name_eq served.found (serves_register u d a).found]
      rw [← named name d given] at given
      refine h.ready given (ready named) ?_
      have high := served.level_le isPhantom_register
      rwa [level_register] at high
  | @lift name d id a given above found below ready =>
      refine h.of_touches wf (touches_lift u d id a) same fun other served => ?_
      have found' := served.found
      rw [find?_lift] at found'
      rw [wf.name_eq found' found]
      rw [← named name d given] at given
      refine h.ready given (ready named) ?_
      have stands : ((u.lift d id a).record id).StandsAs (u.record id) :=
        wf.standsLike_lift.record (wf.stands found).made
      have high := served.level_le (stands.isPhantom.trans (below_iff.mp below).1)
      rwa [record_lift_of_below (wf.stands found).made below] at high

theorem Moves.isSettled {s : Supply} {floor : Level} {u v : Universe} (wf : u.IsWellFormed)
    (named : s.IsNamed) (h : u.IsSettled s) (m : Moves s floor u v) : v.IsSettled s := by
  induction m with
  | refl => exact h
  | tail moves step ih => exact step.isSettled (Moves.isWellFormed wf moves) named ih

theorem isSettled_run {s : Supply} (named : s.IsNamed) {u : Universe} (wf : u.IsWellFormed)
    (h : u.IsSettled s) (qs : List Request) : (run (requests s qs) u).IsSettled s :=
  requests_keep (fun wf h m => Moves.isSettled wf named h m)
    (fun _ h name id served => h name id ⟨served.found, served.loaded⟩) wf h qs

/-- Whether resolution is open does not change with a move. -/
theorem Moves.isClosed {s : Supply} {floor : Level} {u v : Universe} (m : Moves s floor u v) :
    v.isClosed = u.isClosed := by
  induction m with
  | refl => rfl
  | tail _ step ih =>
      rw [← ih]
      cases step with
      | ask | demote | phantom => rfl
      | register a given above new ready => cases a <;> rfl
      | lift a given above found below ready => cases a <;> rfl

end ClassUniverse
