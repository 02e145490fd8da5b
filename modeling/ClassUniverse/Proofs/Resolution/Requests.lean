import ClassUniverse.Proofs.Resolution.Faithful
import ClassUniverse.Proofs.Universe.Runs

/-!
# What requests lead to

A resolver over a supply gets requests one after the other, from the universe without classes.  If
the supply keeps each definition under its own name, then in every state every class is as its
definition says, whichever requests have failed.
-/

namespace ClassUniverse

theorem MemorySource.isNamed_supply (m : MemorySource) : m.supply.IsNamed := by
  intro name d h
  exact m.named name d (Except.ok.inj h)

namespace Universe

variable {s : Supply} {u : Universe} {d : ClassDefinition} {id : ClassId}

/-- The classes that links lead to are registered, so they are still there. -/
theorem Links.live (h : u.Links d (u.record id).superclass (u.record id).interfaces)
    (wf : u.IsWellFormed) : u.Links d (u.catalog.superclass? id) (u.catalog.interfaces id) := by
  have superclass : u.catalog.superclass? id = (u.record id).superclass := by
    have hr := h.superclass
    unfold Catalog.superclass?
    change (u.record id).superclass.filter u.catalog.isLive = _
    generalize d.superclass = parent, (u.record id).superclass = link at hr
    cases hr with
    | none => rfl
    | some hs => exact Option.filter_some_pos (wf.stands hs.found).live
  have interfaces : u.catalog.interfaces id = (u.record id).interfaces := by
    have hi := h.interfaces
    unfold Catalog.interfaces
    change (u.record id).interfaces.filter u.catalog.isLive = _
    generalize d.interfaces = names, (u.record id).interfaces = links at hi
    induction hi with
    | nil => rfl
    | cons hs _ ih => rw [List.filter_cons_of_pos (wf.stands hs.found).live, ih]
  rw [superclass, interfaces]
  exact h

end Universe

/-- The calls of requests to a resolver over one supply. -/
def requests (s : Supply) (qs : List Request) : List Call := qs.map (.request s)

/-- What moves and closing keep holds after any requests. -/
theorem requests_keep {s : Supply} {P : Universe → Prop}
    (moves : ∀ {u v}, u.IsWellFormed → P u → Moves s .dangling u v → P v)
    (closes : ∀ {u}, u.IsWellFormed → P u → P { u with isClosed := true }) {u : Universe}
    (wf : u.IsWellFormed) (start : P u) (qs : List Request) : P (run (requests s qs) u) := by
  induction qs generalizing u with
  | nil => exact start
  | cons q qs ih =>
      refine ih (Call.isWellFormed_run wf (.request s q)) ?_
      change P (q.run s u)
      rcases Universe.run_request wf s q with moved | closed
      · exact moves wf start moved
      · rw [closed]
        exact closes wf start

theorem isFaithful_run {s : Supply} (named : s.IsNamed) {u : Universe} (wf : u.IsWellFormed)
    (h : u.IsFaithful s) (qs : List Request) : (run (requests s qs) u).IsFaithful s :=
  requests_keep (fun wf h m => Moves.isFaithful wf named h m)
    (fun wf h => h.of_eq wf rfl rfl rfl rfl) wf h qs

/-- After any requests every registered class that is no phantom has a definition and shows it: its
superclass and its interfaces are the classes registered under the names that the definition gives,
its members are those of the definition, and what they and the bodies name is loaded to `hierarchy`,
each as far as the level of the class goes. -/
theorem shows_run {s : Supply} (named : s.IsNamed) {recycles allowPhantoms : Bool}
    {qs : List Request} {u : Universe}
    (reached : run (requests s qs) (.empty recycles allowPhantoms) = u) {name : String}
    {id : ClassId} (found : u.find? name = some id) (real : (u.record id).isPhantom = false) :
    ∃ d, s.lookup name = .ok (some d) ∧ d.name = name ∧ u.Shows d id ∧
      (.hierarchy ≤ (u.record id).level →
        u.Links d (u.catalog.superclass? id) (u.catalog.interfaces id)) := by
  subst reached
  have start := Universe.isWellFormed_empty recycles allowPhantoms
  have wf := isWellFormed_run start (requests s qs)
  have faithful :=
    isFaithful_run named start (Universe.isFaithful_empty recycles allowPhantoms s) qs
  obtain ⟨d, given, shows⟩ := faithful.shows found real
  exact ⟨d, given, named name d given, shows, fun linked => (shows.links linked).live wf⟩

/-- A class with a superclass, a parameter type and a mention that has no definition. -/
def smallSource : MemorySource :=
  (MemorySource.empty.add { name := "a.Base" }).add
    { name := "a.Task"
      superclass := some "a.Base"
      methods := [{ name := "run", parameterTypes := ["a.Base"], returnType := "void" }]
      bodyReferences := ["a.Helper"] }

/-- The universe after that class has been asked for with all that supports it. -/
def smallUniverse : Universe :=
  run (requests smallSource.supply [.loadWithSupport "a.Task"]) (.empty false true)

theorem shows_run_smallUniverse :
    ∃ d, smallSource.supply.lookup "a.Task" = .ok (some d) ∧ d.name = "a.Task" ∧
      smallUniverse.Shows d ⟨1⟩ ∧ (.hierarchy ≤ (smallUniverse.record ⟨1⟩).level →
        smallUniverse.Links d (smallUniverse.catalog.superclass? ⟨1⟩)
          (smallUniverse.catalog.interfaces ⟨1⟩)) :=
  shows_run smallSource.isNamed_supply (u := smallUniverse) rfl (by decide +kernel)
    (by decide +kernel)

end ClassUniverse
