import ClassUniverse.Proofs.CallGraph.Reachability

/-!
# Growing call graphs

A call that is added to a graph is kept unless the graph has the same call: one with its kind that
leads to the same method from a caller of the same signature.  So a graph has each call once, in
the order in which the calls came in, and what its index finds is what a walk through the whole list
would find.
-/

namespace ClassUniverse

/-- Whether two calls have the signature of the caller, the method called and the kind in common. -/
@[mk_iff]
structure Edge.IsSame (a b : Edge) : Prop where
  source : a.source.signature = b.source.signature
  target : a.target.serial = b.target.serial
  kind : a.kind = b.kind

instance (a b : Edge) : Decidable (a.IsSame b) := decidable_of_iff' _ (Edge.isSame_iff a b)

theorem Edge.isSame_comm {a b : Edge} : a.IsSame b ↔ b.IsSame a := by
  simp only [Edge.isSame_iff, eq_comm]

namespace CallGraph

variable {g : CallGraph} {e : Edge}

/-! ## One call -/

theorem contains_iff : g.contains e = true ↔ ∃ old ∈ g.edges, old.IsSame e := by
  simp only [contains, edgesFrom_eq_filter, List.any_eq_true, List.mem_filter, beq_iff_eq,
    Bool.and_eq_true]
  constructor
  · rintro ⟨old, ⟨listed, source⟩, kind, target⟩
    exact ⟨old, listed, source, target, kind⟩
  · rintro ⟨old, listed, same⟩
    exact ⟨old, ⟨listed, same.source⟩, same.kind, same.target⟩

theorem contains_append (g : CallGraph) (e other : Edge) :
    (g.append e).contains other = (g.contains other || decide (e.IsSame other)) := by
  rw [Bool.eq_iff_iff, Bool.or_eq_true, decide_eq_true_eq, contains_iff, contains_iff]
  simp [append, or_and_right, exists_or]

theorem add_fst_eq_false_iff : (g.add e).1 = false ↔ ∃ old ∈ g.edges, old.IsSame e := by
  rw [← contains_iff]
  cases stored : g.contains e <;> simp [add, stored]

theorem add_snd_eq_self_iff : (g.add e).2 = g ↔ ∃ old ∈ g.edges, old.IsSame e := by
  rw [← contains_iff]
  cases stored : g.contains e with
  | true => simp [add, stored]
  | false =>
      have longer : g.append e ≠ g := by
        intro same
        simpa [append] using congrArg (fun g => g.edges.length) same
      simpa [add, stored] using longer

/-- Whether a graph has no call twice. -/
def IsApart (g : CallGraph) : Prop := g.edges.Pairwise fun a b => ¬ a.IsSame b

theorem IsApart.add (h : g.IsApart) (e : Edge) : (g.add e).2.IsApart := by
  unfold CallGraph.add
  split
  · exact h
  · rename_i new
    rw [contains_iff] at new
    refine List.pairwise_append.mpr ⟨h, List.pairwise_singleton _ e, ?_⟩
    intro old listed last hl same
    rw [List.mem_singleton.mp hl] at same
    exact new ⟨old, listed, same⟩

/-! ## Runs -/

def addAll (g : CallGraph) (calls : List Edge) : CallGraph :=
  calls.foldl (fun g e => (g.add e).2) g

theorem IsApart.addAll (h : g.IsApart) (calls : List Edge) : (g.addAll calls).IsApart := by
  induction calls generalizing g with
  | nil => exact h
  | cons e calls ih => exact ih (h.add e)

/-- The calls of a list without those that are the same as an earlier one. -/
def firstCalls (calls : List Edge) : List Edge :=
  calls.eraseDupsBy fun a b => decide (a.IsSame b)

/-- What is new to the longer graph is new to the graph and not the same as its last call. -/
theorem filter_new_append (g : CallGraph) (e : Edge) (calls : List Edge) :
    (calls.filter fun other => !(g.append e).contains other) =
      (calls.filter fun other => !g.contains other).filter
        fun other => decide (decide (other.IsSame e) = false) := by
  rw [List.filter_filter]
  apply List.filter_congr
  intro other _
  rw [contains_append, decide_eq_decide.mpr Edge.isSame_comm]
  cases g.contains other <;> cases decide (other.IsSame e) <;> rfl

/-- Of the calls that come in, those are kept that are new to the graph and first of their sort. -/
theorem edges_addAll (g : CallGraph) (calls : List Edge) :
    (g.addAll calls).edges = g.edges ++ firstCalls (calls.filter fun e => !g.contains e) := by
  induction calls generalizing g with
  | nil => simp [addAll, firstCalls]
  | cons e calls ih =>
      change ((g.add e).2.addAll calls).edges = _
      rw [ih]
      cases stored : g.contains e with
      | true => simp [add, stored]
      | false =>
          have added : (g.add e).2 = g.append e := by simp [add, stored]
          rw [added, filter_new_append, List.filter_cons_of_pos (by simp [stored]), firstCalls,
            firstCalls, List.eraseDupsBy_cons]
          simp [append]

/-- A graph that begins empty has of each sort of call the first that came in and no other.  A call
is refused, and the graph stays as it is, exactly if the same call is stored; else it comes to the
end.  The calls from a method are the stored ones whose caller has its signature, in their order;
the calls since a position are the stored ones without as many first ones. -/
theorem calls_run (calls : List Edge) :
    let g := empty.addAll calls
    g.edges = firstCalls calls ∧ g.edges.Pairwise (fun a b => ¬ a.IsSame b) ∧
      (∀ e, ((g.add e).1 = false ↔ ∃ old ∈ g.edges, old.IsSame e) ∧
        ((g.add e).2 = g ↔ ∃ old ∈ g.edges, old.IsSame e) ∧
        (g.add e).2.edges = g.edges ++ if (g.add e).1 then [e] else []) ∧
      (∀ m, g.edgesFrom m = g.edges.filter fun e => e.source.signature = m.signature) ∧
      ∀ k, g.edges.take k ++ g.edgesSince k = g.edges ∧ (g.edgesSince k = [] ↔ g.size ≤ k) := by
  intro g
  have apart : IsApart empty := List.Pairwise.nil
  refine ⟨?_, apart.addAll calls, fun e => ?_, fun m => ?_, fun k => ?_⟩
  · have new : (calls.filter fun e => !empty.contains e) = calls :=
      List.filter_eq_self.mpr fun e _ => rfl
    rw [edges_addAll, new]
    rfl
  · exact ⟨add_fst_eq_false_iff, add_snd_eq_self_iff, g.edges_add e⟩
  · exact edgesFrom_eq_filter g m
  · exact ⟨List.take_append_drop k g.edges, List.drop_eq_nil_iff⟩

end CallGraph

end ClassUniverse
