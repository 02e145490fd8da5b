import ClassUniverse.CallGraph.Reachable
import ClassUniverse.Proofs.Search
import Mathlib.Order.Bounds.Basic

/-!
# Reachability while the call graph grows

Calls are added to a graph and entry points are handed in, in any order.  After an update the
reachable signatures are the least set that has the signatures of all entry points handed in so far
and follows every call of the graph.  An update looks at the calls that are new and skips those
whose caller is not reachable yet; the search that comes after them looks at all calls of a method
that it finds, so that a call that was skipped is followed once its caller is found.  The first calls
of a graph are taken for known, as many as were taken in before; a set that was found over another
graph need not follow them.
-/

namespace ClassUniverse

variable {g : CallGraph} {r : Reachable} {entries more : List Method} {keys : Set String}

/-! ## Closed sets of signatures -/

/-- Whether a set of signatures has the entry points and follows the calls of a graph. -/
@[mk_iff]
structure CallGraph.IsClosed (g : CallGraph) (entries : List Method) (keys : Set String) :
    Prop where
  begun : ∀ m ∈ entries, m.signature ∈ keys
  follows : ∀ e ∈ g.edges, e.source.signature ∈ keys → e.target.signature ∈ keys

namespace CallGraph

theorem mem_targets {m t : Method} : t ∈ g.targets m ↔
    ∃ e ∈ g.edges, e.source.signature = m.signature ∧ e.target = t := by
  simp [targets, edgesFrom_eq_filter, and_assoc]

theorem IsClosed.mem_of_reaches (h : g.IsClosed entries keys) {start : List Method}
    (begins : ∀ m ∈ start, m.signature ∈ keys) {m : Method}
    (reached : Search.Reaches g.targets start m) : m.signature ∈ keys := by
  obtain ⟨first, hf, path⟩ := reached
  induction path with
  | refl => exact begins first hf
  | tail _ last ih =>
      obtain ⟨e, he, from_, rfl⟩ := mem_targets.mp last
      apply h.follows e he
      rwa [from_]

theorem edges_add (g : CallGraph) (e : Edge) :
    (g.add e).2.edges = g.edges ++ if (g.add e).1 then [e] else [] := by
  unfold add
  split <;> simp [append]

/-- The graph of the first calls of a graph. -/
def upTo (g : CallGraph) (n : Nat) : CallGraph := (g.edges.take n).foldl append empty

theorem edges_foldl_append (g : CallGraph) (edges : List Edge) :
    (edges.foldl append g).edges = g.edges ++ edges := by
  induction edges generalizing g with
  | nil => simp
  | cons e edges ih => simp [ih, append]

theorem edges_upTo (g : CallGraph) (n : Nat) : (g.upTo n).edges = g.edges.take n := by
  rw [upTo, edges_foldl_append]
  rfl

theorem upTo_of_prefix {longer : CallGraph} {n : Nat} (grown : g.edges <+: longer.edges)
    (bound : n ≤ g.edges.length) : longer.upTo n = g.upTo n := by
  obtain ⟨more, longer_eq⟩ := grown
  rw [upTo, upTo, ← longer_eq, List.take_append_of_le_length bound]

theorem isClosed_upTo_length :
    (g.upTo g.edges.length).IsClosed entries keys ↔ g.IsClosed entries keys := by
  simp only [isClosed_iff, edges_upTo, List.take_length]

end CallGraph

namespace Reachable

/-- The signatures of the methods found. -/
def signatures (r : Reachable) : Set String := fun k => k ∈ r.methods.map Method.signature

theorem mem_signatures {k : String} : k ∈ r.signatures ↔ k ∈ r.methods.map Method.signature :=
  Iff.rfl

theorem contains_iff {m : Method} : r.contains m = true ↔ m.signature ∈ r.signatures :=
  Search.isSeen_iff

/-! ## The calls that are new -/

/-- What a list of calls makes of the methods that wait, when others have been looked at. -/
structure Queues (edges : List Edge) (done queue longer : List Method) : Prop where
  extends_queue : queue <+: longer
  nodup : ((done ++ queue).map Method.signature).Nodup →
    ((done ++ longer).map Method.signature).Nodup
  follows : ∀ e ∈ edges, e.source.signature ∈ (done ++ queue).map Method.signature →
    e.target.signature ∈ (done ++ longer).map Method.signature
  stays : ∀ keys : Set String,
    (∀ e ∈ edges, e.source.signature ∈ keys → e.target.signature ∈ keys) →
    (∀ m ∈ done ++ queue, m.signature ∈ keys) → ∀ m ∈ done ++ longer, m.signature ∈ keys

theorem queues_followNew (done queue : List Method) (e : Edge) :
    ∃ longer, followNew (done ++ queue, queue) e = (done ++ longer, longer) ∧
      Queues [e] done queue longer := by
  unfold followNew
  split
  · rename_i known
    rw [Search.isSeen_iff] at known
    let fresh := Search.unseen Method.signature (done ++ queue) [e.target]
    refine ⟨queue ++ fresh, by simp [fresh], ?_⟩
    constructor
    · exact List.prefix_append queue fresh
    · intro nodup
      rw [← List.append_assoc]
      exact Search.nodup_unseen nodup [e.target]
    · intro e' he' _
      rw [List.mem_singleton.mp he', ← List.append_assoc]
      exact Search.key_mem_unseen (done ++ queue) (List.mem_singleton_self e.target)
    · intro keys follows old m hm
      rw [← List.append_assoc] at hm
      rcases List.mem_append.mp hm with hm | hm
      · exact old m hm
      · have target : m = e.target := by
          simpa using Search.unseen_subset (done ++ queue) [e.target] hm
        obtain ⟨source, hs, same⟩ := List.mem_map.mp known
        have reached := old source hs
        rw [same] at reached
        rw [target]
        exact follows e (List.mem_singleton_self e) reached
  · rename_i unknown
    rw [Search.isSeen_iff] at unknown
    refine ⟨queue, rfl, List.prefix_refl queue, id, ?_, fun _ _ old => old⟩
    intro e' he' known
    rw [List.mem_singleton.mp he'] at known
    exact absurd known unknown

theorem queues_foldl (done queue : List Method) (edges : List Edge) :
    ∃ longer, edges.foldl followNew (done ++ queue, queue) = (done ++ longer, longer) ∧
      Queues edges done queue longer := by
  induction edges generalizing queue with
  | nil => exact ⟨queue, rfl, List.prefix_refl queue, id, by simp, fun _ _ old => old⟩
  | cons e edges ih =>
      obtain ⟨middle, hm, first⟩ := queues_followNew done queue e
      obtain ⟨longer, hl, rest⟩ := ih middle
      refine ⟨longer, by rw [List.foldl_cons, hm, hl], ?_⟩
      -- what was known after the first call is still known at the end
      have keeps {known late : List Method} (h : known <+: late) {k : String}
          (hk : k ∈ (done ++ known).map Method.signature) :
          k ∈ (done ++ late).map Method.signature := by
        obtain ⟨new, rfl⟩ := h
        rw [← List.append_assoc, List.map_append]
        exact List.mem_append_left _ hk
      constructor
      · exact first.extends_queue.trans rest.extends_queue
      · intro nodup
        exact rest.nodup (first.nodup nodup)
      · intro e' he' known
        rcases List.mem_cons.mp he' with rfl | he'
        · exact keeps rest.extends_queue (first.follows e' (List.mem_singleton_self e') known)
        · exact rest.follows e' he' (keeps first.extends_queue known)
      · intro keys follows old
        apply rest.stays keys fun e' he' => follows e' (List.mem_cons_of_mem e he')
        apply first.stays keys _ old
        intro e' he'
        rw [List.mem_singleton.mp he']
        exact follows e List.mem_cons_self

/-! ## One update -/

/-- The methods of an update come from a search that begins with the methods known before and those
that wait after the new calls. -/
theorem methods_update (r : Reachable) (g : CallGraph) (more : List Method) :
    ∃ queue, Queues (g.edges.drop r.edgesSeen) r.methods
        (Search.unseen Method.signature r.methods more) queue ∧
      (r.update g more).methods = Search.explore Method.signature g.targets
        (queue.length + g.size) (r.methods ++ queue) queue := by
  let fresh := Search.unseen Method.signature r.methods more
  obtain ⟨queue, hq, queues⟩ := queues_foldl r.methods fresh (g.edges.drop r.edgesSeen)
  refine ⟨queue, queues, ?_⟩
  simp only [update, CallGraph.edgesSince, fresh] at hq ⊢
  rw [hq]

theorem prefix_update (r : Reachable) (g : CallGraph) (more : List Method) :
    r.methods <+: (r.update g more).methods := by
  obtain ⟨queue, _, methods⟩ := methods_update r g more
  rw [methods]
  exact (List.prefix_append r.methods queue).trans (Search.prefix_explore _ _ _ _ _)

/-- The calls of a graph lead to the targets of its calls. -/
theorem targets_within (g : CallGraph) {m t : Method} (h : t ∈ g.targets m) :
    t.signature ∈ g.edges.map fun e => e.target.signature := by
  obtain ⟨e, he, _, rfl⟩ := CallGraph.mem_targets.mp h
  exact List.mem_map_of_mem he

theorem mem_update_of_mem {k : String} (h : k ∈ r.signatures) :
    k ∈ (r.update g more).signatures := by
  obtain ⟨new, longer⟩ := prefix_update r g more
  rw [mem_signatures, ← longer, List.map_append]
  exact List.mem_append_left _ h

/-- Entry points are found, whatever has been taken in before. -/
theorem mem_update_of_entry {m : Method} (h : m ∈ more) :
    m.signature ∈ (r.update g more).signatures := by
  obtain ⟨queue, queues, methods⟩ := methods_update r g more
  obtain ⟨new, longer⟩ :=
    Search.prefix_explore Method.signature g.targets (queue.length + g.size) (r.methods ++ queue)
      queue
  have waits : m.signature ∈ (r.methods ++
      Search.unseen Method.signature r.methods more).map Method.signature :=
    Search.key_mem_unseen r.methods h
  have known : m.signature ∈ (r.methods ++ queue).map Method.signature := by
    obtain ⟨later, hl⟩ := queues.extends_queue
    rw [← hl, ← List.append_assoc, List.map_append]
    exact List.mem_append_left _ waits
  rw [mem_signatures, methods, ← longer, List.map_append]
  exact List.mem_append_left _ known

/-- The search of an update finds all that can be reached from what is new, whether or not what was
known is closed. -/
theorem update_spec (nodup : (r.methods.map Method.signature).Nodup) (more : List Method) :
    ∃ queue, Queues (g.edges.drop r.edgesSeen) r.methods
        (Search.unseen Method.signature r.methods more) queue ∧
      Search.IsExploring Method.signature
        (fun m => if m ∈ r.methods then [] else g.targets m) (r.methods ++ queue)
        (r.update g more).methods [] := by
  obtain ⟨queue, queues, methods⟩ := methods_update r g more
  have all := queues.nodup (Search.nodup_unseen nodup more)
  let beyond : Method → List Method := fun m => if m ∈ r.methods then [] else g.targets m
  have exploring : Search.IsExploring Method.signature beyond (r.methods ++ queue) r.methods
      queue := by
    constructor
    · exact all
    · exact fun a ha => List.mem_map_of_mem ha
    · exact fun a ha => .of_mem ha
    · intro a ha b hb
      simp only [beyond, if_pos ha] at hb
      cases hb
  have within : Search.Within Method.signature beyond (r.methods ++ queue)
      (g.edges.map fun e => e.target.signature) := by
    intro a _ b hb
    by_cases ha : a ∈ r.methods
    · simp only [beyond, if_pos ha] at hb
      cases hb
    · simp only [beyond, if_neg ha] at hb
      exact targets_within g hb
  have apart : ∀ a ∈ queue, a ∉ r.methods := by
    intro a ha old
    rw [List.map_append] at all
    exact (List.nodup_append.mp all).2.2 _ (List.mem_map_of_mem old) _ (List.mem_map_of_mem ha) rfl
  refine ⟨queue, queues, ?_⟩
  have unchanged (a : Method) (ha : a ∉ r.methods) : beyond a = g.targets a := if_neg ha
  rw [methods, ← Search.explore_congr unchanged (List.subset_append_left r.methods queue) apart]
  apply exploring.explore within
  simp [CallGraph.size]
  omega

theorem nodup_update (nodup : (r.methods.map Method.signature).Nodup) (more : List Method) :
    ((r.update g more).methods.map Method.signature).Nodup := by
  obtain ⟨_, _, explored⟩ := update_spec nodup more
  simpa using explored.nodup

/-- An update follows the calls that are new and the calls of what it finds. -/
theorem follows_update (nodup : (r.methods.map Method.signature).Nodup) {e : Edge}
    (he : e ∈ g.edges) (looked : e ∈ g.edges.drop r.edgesSeen ∨ e.source.signature ∉ r.signatures)
    (source : e.source.signature ∈ (r.update g more).signatures) :
    e.target.signature ∈ (r.update g more).signatures := by
  obtain ⟨queue, queues, explored⟩ := update_spec nodup more
  by_cases known : e.source.signature ∈ r.signatures
  · have new := looked.resolve_right (not_not_intro known)
    have target : e.target.signature ∈ (r.methods ++ queue).map Method.signature := by
      apply queues.follows e new
      rw [List.map_append]
      exact List.mem_append_left _ known
    obtain ⟨first, hf, same⟩ := List.mem_map.mp target
    have found := explored.begun first hf
    rwa [List.append_nil, same] at found
  · obtain ⟨m, hm, same⟩ := List.mem_map.mp source
    have fresh : m ∉ r.methods := fun old => known (same ▸ List.mem_map_of_mem old)
    have leads : e.target ∈ g.targets m := CallGraph.mem_targets.mpr ⟨e, he, same.symm, rfl⟩
    have found := explored.closed m hm e.target (by rwa [if_neg fresh])
    rwa [List.append_nil] at found

/-- What an update finds follows all calls of a graph exactly if the calls that were taken for
known do not lead out of it. -/
theorem isClosed_update_iff (nodup : (r.methods.map Method.signature).Nodup) :
    g.IsClosed more (r.update g more).signatures ↔
      ∀ e ∈ g.edges.take r.edgesSeen, e.source.signature ∈ r.signatures →
        e.target.signature ∈ (r.update g more).signatures := by
  constructor
  · intro closed e he source
    exact closed.follows e (List.mem_of_mem_take he) (mem_update_of_mem source)
  · intro skipped
    refine ⟨fun m => mem_update_of_entry, fun e he source => ?_⟩
    by_cases known : e.source.signature ∈ r.signatures
    · rw [← List.take_append_drop r.edgesSeen g.edges] at he
      rcases List.mem_append.mp he with old | new
      · exact skipped e old known
      · exact follows_update nodup (List.mem_of_mem_drop new) (.inl new) source
    · exact follows_update nodup he (.inr known) source

/-! ## What is known between two updates -/

/-- What holds of the reachable methods between two updates: they are the least closed set for the
calls that have been taken in. -/
structure IsCurrent (r : Reachable) (g : CallGraph) (entries : List Method) : Prop where
  nodup : (r.methods.map Method.signature).Nodup
  least : IsLeast {keys | (g.upTo r.edgesSeen).IsClosed entries keys} r.signatures
  edgesSeen_le : r.edgesSeen ≤ g.edges.length

theorem isCurrent_empty (g : CallGraph) : empty.IsCurrent g [] where
  nodup := by simp [empty]
  least := by
    constructor
    · constructor
      · simp
      · simp [empty, CallGraph.edges_upTo]
    · intro keys _ k hk
      cases hk
  edgesSeen_le := Nat.zero_le _

theorem edgesSeen_update (h : r.edgesSeen ≤ g.edges.length) (entries : List Method) :
    (r.update g entries).edgesSeen = g.edges.length := by
  simp [update, CallGraph.edgesSince]
  omega

theorem isClosed_update (h : r.IsCurrent g entries) (more : List Method) :
    g.IsClosed (entries ++ more) (r.update g more).signatures := by
  have closed : g.IsClosed more (r.update g more).signatures :=
    (isClosed_update_iff h.nodup).mpr fun e he source =>
      mem_update_of_mem (h.least.1.follows e (by rwa [CallGraph.edges_upTo]) source)
  refine ⟨fun m hm => ?_, closed.follows⟩
  rcases List.mem_append.mp hm with old | new
  · exact mem_update_of_mem (h.least.1.begun m old)
  · exact closed.begun m new

/-- Whatever follows all calls and has all entry points has what an update finds. -/
theorem update_subset (h : r.IsCurrent g entries) (closed : g.IsClosed (entries ++ more) keys) :
    (r.update g more).signatures ⊆ keys := by
  obtain ⟨queue, queues, explored⟩ := update_spec h.nodup more
  have earlier : (g.upTo r.edgesSeen).IsClosed entries keys := by
    constructor
    · intro m hm
      exact closed.begun m (List.mem_append_left more hm)
    · intro e he
      rw [CallGraph.edges_upTo] at he
      exact closed.follows e (List.mem_of_mem_take he)
  have old : r.signatures ⊆ keys := h.least.2 earlier
  have begins : ∀ m ∈ r.methods ++ queue, m.signature ∈ keys := by
    apply queues.stays keys
    · intro e he
      exact closed.follows e (List.mem_of_mem_drop he)
    · intro m hm
      rcases List.mem_append.mp hm with known | fresh
      · exact old (List.mem_map_of_mem known)
      · exact closed.begun m (List.mem_append_right entries (Search.unseen_subset _ _ fresh))
  intro k hk
  obtain ⟨m, hm, rfl⟩ := List.mem_map.mp hk
  have reached := explored.found m (by simpa using hm)
  refine closed.mem_of_reaches begins (reached.mono fun a b hb => ?_)
  by_cases known : a ∈ r.methods
  · rw [if_pos known] at hb
    cases hb
  · rwa [if_neg known] at hb

theorem isCurrent_update (h : r.IsCurrent g entries) (more : List Method) :
    (r.update g more).IsCurrent g (entries ++ more) := by
  have seen := edgesSeen_update h.edgesSeen_le more
  constructor
  · exact nodup_update h.nodup more
  · simp only [seen, CallGraph.isClosed_upTo_length]
    constructor
    · exact isClosed_update h more
    · intro keys closed
      exact update_subset h closed
  · rw [seen]

/-- Calls that come to a graph later are calls that have not been taken in. -/
theorem IsCurrent.grow {longer : CallGraph} (h : r.IsCurrent g entries)
    (grown : g.edges <+: longer.edges) : r.IsCurrent longer entries := by
  have bound := h.edgesSeen_le
  constructor
  · exact h.nodup
  · rw [CallGraph.upTo_of_prefix grown bound]
    exact h.least
  · exact bound.trans grown.length_le

theorem least_of_isCurrent (h : r.IsCurrent g entries) (seen : r.edgesSeen = g.edges.length) :
    IsLeast {keys | g.IsClosed entries keys} r.signatures := by
  have least := h.least
  simpa only [seen, CallGraph.isClosed_upTo_length] using least

theorem unseen_of_known (known : ∀ m ∈ more, m.signature ∈ r.signatures) :
    Search.unseen Method.signature r.methods more = [] := by
  induction more with
  | nil => rfl
  | cons m more ih =>
      have seen : Search.isSeen Method.signature r.methods m = true :=
        Search.isSeen_iff.mpr (known m List.mem_cons_self)
      rw [Search.unseen, if_pos seen]
      exact ih fun m' hm => known m' (List.mem_cons_of_mem m hm)

/-- Without a new call and without a new entry point an update leaves all as it is. -/
theorem update_of_known (h : r.edgesSeen = g.edges.length)
    (known : ∀ m ∈ more, m.signature ∈ r.signatures) : r.update g more = r := by
  have none : g.edgesSince r.edgesSeen = [] := by
    rw [CallGraph.edgesSince, h, List.drop_length]
  unfold update
  rw [none, unseen_of_known known]
  simp only [List.foldl_nil, List.append_nil, List.length_nil, Nat.zero_add, Nat.add_zero]
  cases hs : g.size <;> rfl

end Reachable

/-! ## Runs -/

/-- A growing graph, the methods reachable over it, the entry points handed in so far, and the
calls that have come since the last update. -/
structure Tracking where
  graph : CallGraph
  reachable : Reachable
  entries : List Method
  news : List Edge

namespace Tracking

/-- What can happen to a graph and the methods reachable over it. -/
inductive Event
  | add (e : Edge)
  | update (entries : List Method)

def start (g : CallGraph) : Tracking := ⟨g, .empty, [], g.edges⟩

def step (t : Tracking) : Event → Tracking
  | .add e =>
      let (isNew, g) := t.graph.add e
      { t with graph := g, news := if isNew then t.news ++ [e] else t.news }
  | .update entries =>
      { t with
        reachable := t.reachable.update t.graph entries
        entries := t.entries ++ entries
        news := [] }

def run (t : Tracking) (events : List Event) : Tracking := events.foldl step t

/-- What holds between the events of a run. -/
structure IsKept (t : Tracking) : Prop where
  current : t.reachable.IsCurrent t.graph t.entries
  news : t.graph.edges.drop t.reachable.edgesSeen = t.news

variable {t : Tracking}

theorem isKept_start (g : CallGraph) : (start g).IsKept where
  current := Reachable.isCurrent_empty g
  news := by simp [start, Reachable.empty]

theorem IsKept.step (h : t.IsKept) (event : Event) : (t.step event).IsKept := by
  have bound := h.current.edgesSeen_le
  cases event with
  | add e =>
      have edges := t.graph.edges_add e
      constructor
      · exact h.current.grow (edges ▸ List.prefix_append _ _)
      · show (t.graph.add e).2.edges.drop t.reachable.edgesSeen = _
        rw [edges, List.drop_append_of_le_length bound, h.news]
        simp only [Tracking.step]
        split <;> simp
  | update entries =>
      constructor
      · exact Reachable.isCurrent_update h.current entries
      · show t.graph.edges.drop (t.reachable.update t.graph entries).edgesSeen = []
        rw [Reachable.edgesSeen_update bound, List.drop_length]

theorem IsKept.run (h : t.IsKept) (events : List Event) : (t.run events).IsKept := by
  induction events generalizing t with
  | nil => exact h
  | cons event events ih => exact ih (h.step event)

theorem prefix_step (t : Tracking) (event : Event) :
    t.reachable.methods <+: (t.step event).reachable.methods := by
  cases event with
  | add e => exact List.prefix_refl _
  | update entries => exact Reachable.prefix_update _ _ entries

theorem prefix_run (t : Tracking) (events : List Event) :
    t.reachable.methods <+: (t.run events).reachable.methods := by
  induction events generalizing t with
  | nil => exact List.prefix_refl _
  | cons event events ih => exact (prefix_step t event).trans (ih (t.step event))

theorem IsKept.edgesSeen (h : t.IsKept) (none : t.news = []) :
    t.reachable.edgesSeen = t.graph.edges.length := by
  have bound := h.current.edgesSeen_le
  have all := h.news
  rw [none, List.drop_eq_nil_iff] at all
  omega

/-- After each update of a run the reachable signatures are the least set that has the entry points
handed in so far and follows all calls of the graph, as one update of nothing with all these entry
points would find it.  Whatever happens later, what has been found stays in its place; and an update
without a new call and without a new entry point changes nothing. -/
theorem reachable_run (g : CallGraph) (past : List Event) (entries : List Method) :
    let before := (start g).run past
    let after := before.step (.update entries)
    IsLeast {keys | after.graph.IsClosed after.entries keys} after.reachable.signatures ∧
      after.reachable.signatures =
        (Reachable.empty.update after.graph after.entries).signatures ∧
      (∀ m, after.reachable.contains m = true ↔ m.signature ∈ after.reachable.signatures) ∧
      (∀ future, before.reachable.methods <+: (before.run future).reachable.methods) ∧
      (before.news = [] → (∀ m ∈ entries, m.signature ∈ before.reachable.signatures) →
        after.reachable = before.reachable) := by
  intro before after
  have kept : before.IsKept := (isKept_start g).run past
  have least : IsLeast {keys | after.graph.IsClosed after.entries keys}
      after.reachable.signatures :=
    Reachable.least_of_isCurrent (kept.step (.update entries)).current
      ((kept.step (.update entries)).edgesSeen rfl)
  have once : IsLeast {keys | after.graph.IsClosed after.entries keys}
      (Reachable.empty.update after.graph after.entries).signatures := by
    have current := Reachable.isCurrent_update (Reachable.isCurrent_empty after.graph) after.entries
    rw [List.nil_append] at current
    exact Reachable.least_of_isCurrent current
      (Reachable.edgesSeen_update (Nat.zero_le _) after.entries)
  refine ⟨least, least.unique once, fun m => Reachable.contains_iff, prefix_run before, ?_⟩
  intro none known
  exact Reachable.update_of_known (kept.edgesSeen none) known

end Tracking

end ClassUniverse
