import ClassUniverse.Proofs.CallGraph.Reachability
import ClassUniverse.Proofs.Search.Loops
import ClassUniverse.Workspace

/-!
# Transitive callees

The callees of a method are the signatures that calls lead to from its own signature, in one call or
in several.  So a method is a callee of itself exactly if it is on a cycle of calls.  The methods
that are reachable from a method are this method and its callees, though the one search begins with
the method and the other with its first callees.
-/

namespace ClassUniverse

namespace CallGraph

variable {g : CallGraph} {m : Method} {calls more : List Edge} {first middle last k : String}

/-! ## Walks along calls -/

/-- Calls of a graph that lead from one signature to another, each from where the one before it has
led to. -/
inductive Walk (g : CallGraph) : String → List Edge → String → Prop
  | stay {k : String} : Walk g k [] k
  | call {e : Edge} {calls : List Edge} {k : String} (he : e ∈ g.edges)
      (rest : Walk g e.target.signature calls k) : Walk g e.source.signature (e :: calls) k

/-- A signature that one or more calls lead back to, past no signature twice. -/
def IsOnCycle (g : CallGraph) (k : String) : Prop :=
  ∃ calls ≠ [], g.Walk k calls k ∧ (calls.map fun e => e.target.signature).Nodup

theorem Walk.eq_of_nil (h : g.Walk first [] last) : last = first := by
  generalize none : ([] : List Edge) = calls at h
  cases h with
  | stay => rfl
  | call => cases none

theorem Walk.append (h : g.Walk first calls middle) (further : g.Walk middle more last) :
    g.Walk first (calls ++ more) last := by
  induction h with
  | stay => exact further
  | call he _ ih => exact .call he (ih further)

/-- The end of a walk, from any call of it on. -/
theorem Walk.after {e : Edge} (h : g.Walk first (calls ++ e :: more) last) :
    g.Walk e.target.signature more last := by
  induction calls generalizing first with
  | nil =>
      cases h with
      | call _ rest => exact rest
  | cons other calls ih =>
      cases h with
      | call _ rest => exact ih rest

/-- A walk that passes a signature twice can be cut short. -/
theorem Walk.exists_nodup (h : g.Walk first calls last) (nonempty : calls ≠ []) :
    ∃ short ≠ [], g.Walk first short last ∧
      (short.map fun e => e.target.signature).Nodup := by
  induction h with
  | stay => exact absurd rfl nonempty
  | @call e calls last he rest ih =>
      by_cases one : calls = []
      · subst one
        exact ⟨[e], by simp, .call he rest, by simp⟩
      · obtain ⟨short, -, walk, nodup⟩ := ih one
        by_cases again : e.target.signature ∈ short.map fun e => e.target.signature
        · obtain ⟨back, hb, same⟩ := List.mem_map.mp again
          obtain ⟨before, after, rfl⟩ := List.append_of_mem hb
          have cut := walk.after
          rw [same] at cut
          rw [List.map_append, List.map_cons] at nodup
          have tail := (List.nodup_append.mp nodup).2.1
          rw [same] at tail
          exact ⟨e :: after, by simp, .call he cut, tail⟩
        · exact ⟨e :: short, by simp, .call he walk, List.nodup_cons.mpr ⟨again, nodup⟩⟩

theorem isOnCycle_iff : g.IsOnCycle k ↔ ∃ calls ≠ [], g.Walk k calls k := by
  constructor
  · rintro ⟨calls, nonempty, walk, -⟩
    exact ⟨calls, nonempty, walk⟩
  · rintro ⟨calls, nonempty, walk⟩
    exact walk.exists_nodup nonempty

/-! ## What a search among callees finds -/

theorem walk_of_mem_targets {t : Method} (h : t ∈ g.targets m) :
    ∃ e, g.Walk m.signature [e] t.signature := by
  obtain ⟨e, he, source, rfl⟩ := mem_targets.mp h
  refine ⟨e, ?_⟩
  rw [← source]
  exact .call he .stay

theorem walk_of_reaches {t : Method} (h : Search.Reaches g.targets (g.targets m) t) :
    ∃ calls ≠ [], g.Walk m.signature calls t.signature := by
  obtain ⟨head, hb, path⟩ := h
  induction path with
  | refl =>
      obtain ⟨e, walk⟩ := walk_of_mem_targets hb
      exact ⟨[e], by simp, walk⟩
  | tail _ step ih =>
      obtain ⟨calls, -, walk⟩ := ih
      obtain ⟨e, one⟩ := walk_of_mem_targets step
      exact ⟨calls ++ [e], by simp, walk.append one⟩

theorem reaches_of_walk (h : g.Walk first calls last) (nonempty : calls ≠ [])
    (source : m.signature = first) :
    ∃ t, Search.Reaches g.targets (g.targets m) t ∧ t.signature = last := by
  induction h generalizing m with
  | stay => exact absurd rfl nonempty
  | @call e calls last he rest ih =>
      have target : e.target ∈ g.targets m := mem_targets.mpr ⟨e, he, source.symm, rfl⟩
      by_cases one : calls = []
      · subst one
        exact ⟨e.target, .of_mem target, rest.eq_of_nil.symm⟩
      · obtain ⟨t, ⟨head, hb, path⟩, same⟩ := ih one rfl
        exact ⟨t, ⟨e.target, target, path.head hb⟩, same⟩

/-- Methods of one signature call the same methods. -/
theorem agrees_targets (g : CallGraph) (start : List Method) :
    Search.Agrees Method.signature g.targets start := by
  intro a b _ _ same c hc
  obtain ⟨e, he, source, rfl⟩ := mem_targets.mp hc
  exact ⟨e.target, mem_targets.mpr ⟨e, he, source.trans same, rfl⟩, rfl⟩

theorem within_targets (g : CallGraph) (start : List Method) :
    Search.Within Method.signature g.targets start
      (g.edges.map fun e => e.target.signature) := by
  intro a _ b hb
  exact Reachable.targets_within g hb

theorem isExploring_transitiveCallees (g : CallGraph) (m : Method) :
    Search.IsExploring Method.signature g.targets (g.targets m) (g.transitiveCallees m) [] :=
  Search.isExploring_reach (within_targets g _) (by simp [size])

/-- The loop that begins with the method itself, which it has not seen then. -/
theorem explores_transitiveCallees (g : CallGraph) (m : Method) :
    Search.Explores Method.signature g.targets [] [m] (g.transitiveCallees m) := by
  have fits : (g.edges.map fun e => e.target.signature).length ≤ g.size := by simp [size]
  exact .turn (Search.explores_reach (within_targets g (g.targets m)) fits)

theorem mem_transitiveCallees_iff : k ∈ (g.transitiveCallees m).map Method.signature ↔
    ∃ calls ≠ [], g.Walk m.signature calls k := by
  rw [(isExploring_transitiveCallees g m).key_mem_iff (agrees_targets g _)]
  constructor
  · rintro ⟨t, reached, rfl⟩
    exact walk_of_reaches reached
  · rintro ⟨calls, nonempty, walk⟩
    exact reaches_of_walk walk nonempty rfl

/-! ## Callees and reachable methods -/

theorem IsClosed.mem_of_walk {entries : List Method} {keys : Set String}
    (closed : g.IsClosed entries keys) (h : g.Walk first calls last) (begins : first ∈ keys) :
    last ∈ keys := by
  induction h with
  | stay => exact begins
  | call he _ ih => exact ih (closed.follows _ he begins)

/-- What walks from a method lead to is the least set that has its signature and follows all
calls. -/
theorem isLeast_walks (g : CallGraph) (m : Method) :
    IsLeast {keys | g.IsClosed [m] keys} {k | ∃ calls, g.Walk m.signature calls k} := by
  constructor
  · constructor
    · intro entry he
      rw [List.mem_singleton.mp he]
      exact ⟨[], .stay⟩
    · rintro e he ⟨calls, walk⟩
      exact ⟨calls ++ [e], walk.append (.call he .stay)⟩
  · rintro keys closed k ⟨calls, walk⟩
    exact closed.mem_of_walk walk (closed.begun m (List.mem_singleton_self m))

theorem mem_update_empty_iff : k ∈ (Reachable.empty.update g [m]).signatures ↔
    k = m.signature ∨ k ∈ (g.transitiveCallees m).map Method.signature := by
  have current := Reachable.isCurrent_update (Reachable.isCurrent_empty g) [m]
  have least := Reachable.least_of_isCurrent current
    (Reachable.edgesSeen_update (Nat.zero_le _) [m])
  rw [least.unique (isLeast_walks g m), mem_transitiveCallees_iff]
  constructor
  · rintro ⟨calls, walk⟩
    by_cases none : calls = []
    · subst none
      exact .inl walk.eq_of_nil
    · exact .inr ⟨calls, none, walk⟩
  · rintro (rfl | ⟨calls, -, walk⟩)
    · exact ⟨[], .stay⟩
    · exact ⟨calls, walk⟩

/-- The search for the transitive callees of a method ends.  It finds no signature twice, and just
those that one or more calls lead to from the signature of the method: this signature itself exactly
if it is on a cycle.  Together with it they are what one update of nothing finds from the method. -/
theorem callees_of_sideEffects (w : Workspace) (s : SideEffects) (m : Method) :
    let g := w.graph s.graph
    let callees := (w.transitiveCallees s m).map Method.signature
    Search.Explores Method.signature g.targets [] [m] (w.transitiveCallees s m) ∧
      callees.Nodup ∧
      (∀ k, k ∈ callees ↔ ∃ calls ≠ [], g.Walk m.signature calls k) ∧
      (m.signature ∈ callees ↔ g.IsOnCycle m.signature) ∧
      ∀ k, k ∈ (Reachable.empty.update g [m]).signatures ↔ k = m.signature ∨ k ∈ callees := by
  intro g callees
  have found := isExploring_transitiveCallees g m
  refine ⟨explores_transitiveCallees g m, ?_, fun k => mem_transitiveCallees_iff, ?_,
    fun k => mem_update_empty_iff⟩
  · have nodup := found.nodup
    rwa [List.append_nil] at nodup
  · rw [isOnCycle_iff]
    exact mem_transitiveCallees_iff

end CallGraph

end ClassUniverse
