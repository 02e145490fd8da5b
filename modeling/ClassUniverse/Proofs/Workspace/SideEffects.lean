import ClassUniverse.Proofs.Workspace.Upkeep
import Mathlib.Data.List.Induction

/-!
# The call graph of a side-effect analysis

A side-effect analysis is built over the call graph that is installed at that moment, and it is
handed out again until the number of changes moves or it is released.  It stays with its call graph:
another one may have been installed in the meantime, or none.
-/

namespace ClassUniverse

/-- What can happen between two uses of a side-effect analysis. -/
inductive AnalysisCall
  | onUniverse (c : Call)
  | makeGraph (g : CallGraph)
  | addEdge (id : GraphId) (e : Edge)
  | setCallGraph (id : GraphId)
  | releaseCallGraph
  | setPointsTo (p : PointsTo)
  | releasePointsTo
  | getSideEffects
  | releaseSideEffects

namespace AnalysisCall

def run : AnalysisCall → Workspace → Workspace
  | onUniverse c, w => w.change c
  | makeGraph g, w => (w.makeGraph g).2
  | addEdge id e, w => (w.addEdge id e).2
  | setCallGraph id, w => w.setCallGraph id
  | releaseCallGraph, w => w.releaseCallGraph
  | setPointsTo p, w => w.setPointsTo p
  | releasePointsTo, w => w.releasePointsTo
  | getSideEffects, w => after Workspace.getSideEffects w
  | releaseSideEffects, w => w.releaseSideEffects

/-- Whether a call installs a call graph or takes the installed one away. -/
def ReplacesGraph : AnalysisCall → Prop
  | setCallGraph _ => True
  | releaseCallGraph => True
  | _ => False

end AnalysisCall

namespace Workspace

/-- The workspace after some calls, one after the other. -/
def use (w : Workspace) (calls : List AnalysisCall) : Workspace :=
  calls.foldl (fun w c => c.run w) w

theorem use_append (w : Workspace) (first second : List AnalysisCall) :
    w.use (first ++ second) = (w.use first).use second :=
  List.foldl_append

variable {w : Workspace} {s : SideEffects} {x : Stamped SideEffects} {calls : List AnalysisCall}
  {c : AnalysisCall} {id : GraphId}

/-! ## Asking for the analysis -/

theorem getPointsTo_refreshPointsTo (w : Workspace) :
    w.refreshPointsTo.getPointsTo = w.getPointsTo := by
  have again : w.refreshPointsTo.current (w.current w.pointsTo) = w.current w.pointsTo := by
    show (w.pointsTo.filter _).filter (fun x : Stamped PointsTo => x.changes == w.changes) =
      w.pointsTo.filter _
    simp only [Option.filter_filter, Bool.and_self]
  show (((w.refreshPointsTo.current (w.current w.pointsTo)).map Stamped.value).getD _) = _
  rw [again]
  rfl

theorem currentSideEffects_of_graph (installed : w.callGraph = some id) :
    currentSideEffects w = .ok ⟨w.getPointsTo, id⟩ w.refreshPointsTo := by
  have installed' : w.refreshPointsTo.callGraph = some id := installed
  simp only [currentSideEffects, bind_apply, modify_apply, get_apply, expectGraph, installed',
    pure_apply, getPointsTo_refreshPointsTo]

theorem currentSideEffects_of_none (missing : w.callGraph = none) :
    currentSideEffects w = .error .noCallGraph w.refreshPointsTo := by
  have missing' : w.refreshPointsTo.callGraph = none := missing
  simp only [currentSideEffects, bind_apply, modify_apply, get_apply, expectGraph, missing',
    throw_apply]

/-- A workspace with the same universe and the same call graphs. -/
structure KeepsGraphs (w v : Workspace) : Prop where
  core : v.core = w.core
  graphs : v.graphs = w.graphs
  callGraph : v.callGraph = w.callGraph

/-- The three outcomes: the analysis that is stored, a new one over the installed call graph, and
a failure where there is neither. -/
inductive Asked (w : Workspace) : EStateM.Result Error Workspace SideEffects → Prop
  | stored (x : Stamped SideEffects) (v : Workspace) (found : w.sideEffects = some x)
      (upToDate : x.changes = w.changes) (kept : w.KeepsGraphs v) (still : v.sideEffects = some x) :
      Asked w (.ok x.value v)
  | built (id : GraphId) (v : Workspace) (absent : w.current w.sideEffects = none)
      (installed : w.callGraph = some id) (kept : w.KeepsGraphs v)
      (stored : v.sideEffects = some ⟨w.changes, w.stamps, ⟨w.getPointsTo, id⟩⟩) :
      Asked w (.ok ⟨w.getPointsTo, id⟩ v)
  | refused (v : Workspace) (absent : w.current w.sideEffects = none) (missing : w.callGraph = none)
      (kept : w.KeepsGraphs v) (dropped : v.sideEffects = none) :
      Asked w (.error .noCallGraph v)

theorem asked_getSideEffects (w : Workspace) : w.Asked (getSideEffects w) := by
  cases stored : w.current w.sideEffects with
  | some x =>
      have result : getSideEffects w = .ok x.value { w with sideEffects := some x } := by
        simp only [getSideEffects, bind_apply, modify_apply, get_apply, refreshSideEffects, stored,
          pure_apply]
      obtain ⟨found, upToDate⟩ := current_eq_some_iff.mp stored
      rw [result]
      exact .stored x _ found upToDate ⟨rfl, rfl, rfl⟩ rfl
  | none =>
      let bare : Workspace := { w with sideEffects := none }
      have begun : getSideEffects w = (do
          let s ← currentSideEffects
          modify (setSideEffects · s)
          return s) bare := by
        simp only [getSideEffects, bind_apply, modify_apply, get_apply, refreshSideEffects, stored,
          bare]
      rw [begun]
      cases graph : w.callGraph with
      | some id =>
          have points : bare.getPointsTo = w.getPointsTo := rfl
          simp only [bind_apply, currentSideEffects_of_graph (w := bare) graph, modify_apply,
            pure_apply, points]
          exact .built id _ stored graph ⟨rfl, rfl, rfl⟩ rfl
      | none =>
          simp only [bind_apply, currentSideEffects_of_none (w := bare) graph]
          exact .refused _ stored graph ⟨rfl, rfl, rfl⟩ rfl

/-! ## What a run keeps -/

theorem keepsGraphs_after (w : Workspace) : w.KeepsGraphs (after getSideEffects w) := by
  have asked := w.asked_getSideEffects
  unfold after
  cases outcome : getSideEffects w with
  | ok s v =>
      rw [outcome] at asked
      cases asked with
      | stored x v found upToDate kept still => exact kept
      | built id v absent installed kept stored => exact kept
  | error e v =>
      rw [outcome] at asked
      cases asked with
      | refused v absent missing kept dropped => exact kept

/-- A demand leaves the analysis that is up to date, or else a new one, or none. -/
theorem sideEffects_after (w : Workspace) :
    (after getSideEffects w).sideEffects = w.current w.sideEffects ∨
      w.current w.sideEffects = none ∧ ∃ id, w.callGraph = some id ∧
        (after getSideEffects w).sideEffects = some ⟨w.changes, w.stamps, ⟨w.getPointsTo, id⟩⟩ := by
  have asked := w.asked_getSideEffects
  unfold after
  cases outcome : getSideEffects w with
  | ok s v =>
      rw [outcome] at asked
      cases asked with
      | stored x v found upToDate kept still =>
          exact .inl (still.trans (current_eq_some_iff.mpr ⟨found, upToDate⟩).symm)
      | built id v absent installed kept stored => exact .inr ⟨absent, id, installed, stored⟩
  | error e v =>
      rw [outcome] at asked
      cases asked with
      | refused v absent missing kept dropped => exact .inl (dropped.trans absent.symm)

theorem keeps_run (wf : w.core.IsWellFormed) (c : AnalysisCall) :
    (c.run w).core.IsWellFormed ∧ w.changes ≤ (c.run w).changes := by
  cases c with
  | onUniverse c => exact ⟨isWellFormed_change wf c, changes_le_change wf c⟩
  | getSideEffects =>
      have core : (AnalysisCall.getSideEffects.run w).core = w.core := (keepsGraphs_after w).core
      unfold changes
      rw [core]
      exact ⟨wf, Nat.le_refl _⟩
  | _ => exact ⟨wf, Nat.le_refl _⟩

theorem isWellFormed_use (wf : w.core.IsWellFormed) (calls : List AnalysisCall) :
    (w.use calls).core.IsWellFormed := by
  induction calls generalizing w with
  | nil => exact wf
  | cons c calls ih => exact ih (keeps_run wf c).1

theorem changes_le_use (wf : w.core.IsWellFormed) (calls : List AnalysisCall) :
    w.changes ≤ (w.use calls).changes := by
  induction calls generalizing w with
  | nil => exact Nat.le_refl _
  | cons c calls ih => exact Nat.le_trans (keeps_run wf c).2 (ih (keeps_run wf c).1)

/-- A call graph stays installed until another one is or it is taken away. -/
theorem callGraph_run (keeps : ¬ c.ReplacesGraph) : (c.run w).callGraph = w.callGraph := by
  cases c with
  | onUniverse c =>
      show ({ w with core := c.run w.core }.letGo).callGraph = _
      rw [letGo_eq]
  | setCallGraph id => exact absurd trivial keeps
  | releaseCallGraph => exact absurd trivial keeps
  | getSideEffects => exact (keepsGraphs_after w).callGraph
  | _ => rfl

theorem callGraph_use (keep : ∀ c ∈ calls, ¬ c.ReplacesGraph) :
    (w.use calls).callGraph = w.callGraph := by
  induction calls generalizing w with
  | nil => rfl
  | cons c calls ih =>
      have rest := ih (w := c.run w) fun c' hc => keep c' (List.mem_cons_of_mem c hc)
      exact rest.trans (callGraph_run (keep c List.mem_cons_self))

/-- Only a demand builds an analysis, and only a demand and a release drop one. -/
theorem sideEffects_run (demand : c ≠ .getSideEffects) (release : c ≠ .releaseSideEffects) :
    (c.run w).sideEffects = w.sideEffects := by
  cases c with
  | onUniverse c =>
      show ({ w with core := c.run w.core }.letGo).sideEffects = _
      rw [letGo_eq]
  | getSideEffects => exact absurd rfl demand
  | releaseSideEffects => exact absurd rfl release
  | _ => rfl

/-- A stored analysis was built by a demand, over the call graph that was installed then. -/
theorem built_of_stored (new : w.sideEffects = none) (calls : List AnalysisCall)
    (stored : (w.use calls).sideEffects = some x) :
    ∃ before since, calls = before ++ .getSideEffects :: since ∧ .releaseSideEffects ∉ since ∧
      (w.use before).callGraph = some x.value.graph ∧ x.changes = (w.use before).changes := by
  induction calls using List.reverseRecOn with
  | nil => exact nomatch new.symm.trans stored
  | append_singleton calls c ih =>
      have last : w.use (calls ++ [c]) = c.run (w.use calls) := use_append w calls [c]
      rw [last] at stored
      have older (old : (w.use calls).sideEffects = some x) (quiet : c ≠ .releaseSideEffects) :
          ∃ before since, calls ++ [c] = before ++ .getSideEffects :: since ∧
            .releaseSideEffects ∉ since ∧ (w.use before).callGraph = some x.value.graph ∧
            x.changes = (w.use before).changes := by
        obtain ⟨before, since, split, unreleased, graph, changes⟩ := ih old
        refine ⟨before, since ++ [c], by rw [split]; simp, ?_, graph, changes⟩
        rw [List.mem_append, List.mem_singleton]
        intro h
        cases h with
        | inl h => exact unreleased h
        | inr h => exact quiet h.symm
      by_cases release : c = .releaseSideEffects
      · subst release
        cases stored
      by_cases demand : c = .getSideEffects
      · subst demand
        have stored : (after getSideEffects (w.use calls)).sideEffects = some x := stored
        cases sideEffects_after (w.use calls) with
        | inl kept =>
            obtain ⟨old, -⟩ := current_eq_some_iff.mp (kept.symm.trans stored)
            exact older old release
        | inr built =>
            obtain ⟨-, id, installed, fresh⟩ := built
            rw [← Option.some.inj (fresh.symm.trans stored)]
            exact ⟨calls, [], rfl, List.not_mem_nil, installed, rfl⟩
      · rw [sideEffects_run demand release] at stored
        exact older stored release

/-- An analysis that is up to date stays stored while the number of changes does not move and the
analysis is not released. -/
theorem stored_use (wf : w.core.IsWellFormed) (stored : w.sideEffects = some x)
    (upToDate : x.changes = w.changes) (unreleased : .releaseSideEffects ∉ calls)
    (same : (w.use calls).changes = w.changes) : (w.use calls).sideEffects = some x := by
  induction calls generalizing w with
  | nil => exact stored
  | cons c calls ih =>
      obtain ⟨wf', first⟩ := keeps_run wf c
      have rest : (c.run w).changes ≤ (w.use (c :: calls)).changes := changes_le_use wf' calls
      rw [List.mem_cons, not_or] at unreleased
      have still : (c.run w).sideEffects = some x := by
        by_cases demand : c = .getSideEffects
        · subst demand
          have current := current_eq_some_iff.mpr ⟨stored, upToDate⟩
          show (after getSideEffects w).sideEffects = some x
          cases sideEffects_after w with
          | inl kept => exact kept.trans current
          | inr built => cases built.1.symm.trans current
        · rw [sideEffects_run demand (Ne.symm unreleased.1), stored]
      apply ih wf' still
      · omega
      · exact unreleased.2
      · show (w.use (c :: calls)).changes = _
        omega

/-- What a demand has given is still stored while the number of changes does not move and nothing
is released. -/
theorem stored_of_given {u : Workspace} (wf : w.core.IsWellFormed)
    (given : getSideEffects w = .ok s u) (unreleased : .releaseSideEffects ∉ calls)
    (same : (u.use calls).changes = w.changes) :
    ∃ x, (u.use calls).sideEffects = some x ∧ x.changes = w.changes := by
  have kept : w.KeepsGraphs u := by
    rw [← after_of_ok given]
    exact keepsGraphs_after w
  have asked := w.asked_getSideEffects
  rw [given] at asked
  obtain ⟨x, stored, upToDate⟩ : ∃ x, u.sideEffects = some x ∧ x.changes = w.changes := by
    cases asked with
    | stored x u found upToDate kept still => exact ⟨x, still, upToDate⟩
    | built id u absent installed kept stored => exact ⟨_, stored, rfl⟩
  have count : u.changes = w.changes := by
    unfold changes
    rw [kept.core]
  have wf' : u.core.IsWellFormed := by
    rw [kept.core]
    exact wf
  refine ⟨x, stored_use wf' stored (upToDate.trans count.symm) unreleased ?_, upToDate⟩
  rw [same, count]

/-- An analysis that is handed out answers over the call graph that was installed when it was
built, as this graph is now.  It was built at the present number of changes and has not been
released since; if no call graph has been installed or taken away since either, its graph is the
one that is installed.  The demand fails exactly if no call graph is installed and no analysis is
left that was handed out at the present number of changes. -/
theorem getSideEffects_use (wf : w.core.IsWellFormed) (new : w.sideEffects = none)
    (calls : List AnalysisCall) :
    match getSideEffects (w.use calls) with
    | .ok s v => ∃ before since id, calls = before ++ since ∧
        (since = [] ∨ ∃ later, since = .getSideEffects :: later) ∧
        .releaseSideEffects ∉ since ∧ (w.use before).changes = (w.use calls).changes ∧
        (w.use before).callGraph = some id ∧
        (∀ m, v.transitiveCallees s m = (v.graph id).transitiveCallees m) ∧
        ((∀ c ∈ since, ¬ c.ReplacesGraph) → v.callGraph = some id)
    | .error e v => e = .noCallGraph ∧ v.callGraph = none ∧
        ∀ before since s u, calls = before ++ .getSideEffects :: since →
          getSideEffects (w.use before) = .ok s u → .releaseSideEffects ∉ since →
          (w.use before).changes < (w.use calls).changes := by
  have asked := (w.use calls).asked_getSideEffects
  cases outcome : getSideEffects (w.use calls) with
  | ok s v =>
      rw [outcome] at asked
      cases asked with
      | stored x v found upToDate kept still =>
          obtain ⟨before, since, split, unreleased, graph, changes⟩ := built_of_stored new calls found
          refine ⟨before, .getSideEffects :: since, x.value.graph, split, .inr ⟨since, rfl⟩, ?_,
            changes.symm.trans upToDate, graph, fun m => rfl, fun keep => ?_⟩
          · simpa using unreleased
          · rw [kept.callGraph, split, use_append, callGraph_use keep, graph]
      | built id v absent installed kept stored =>
          exact ⟨calls, [], id, (List.append_nil calls).symm, .inl rfl, List.not_mem_nil, rfl,
            installed, fun m => rfl, fun _ => kept.callGraph.trans installed⟩
  | error e v =>
      rw [outcome] at asked
      cases asked with
      | refused v absent missing kept dropped =>
          refine ⟨rfl, kept.callGraph.trans missing, ?_⟩
          intro before since s u split given unreleased
          have wf' := isWellFormed_use wf before
          have next : AnalysisCall.getSideEffects.run (w.use before) = u := after_of_ok given
          have later : w.use calls = u.use since := by
            rw [split, use_append, ← next]
            rfl
          have le : (w.use before).changes ≤ (w.use calls).changes := by
            rw [split, use_append]
            exact changes_le_use wf' _
          apply Nat.lt_of_le_of_ne le
          intro same
          rw [later] at same
          obtain ⟨x, left, upToDate⟩ := stored_of_given wf' given unreleased same.symm
          rw [← later] at left same
          exact current_eq_none_iff.mp absent x left (upToDate.trans same)

/-! ## A call graph that is not installed any more -/

section Replaced

def caller : Method := ⟨0, "a.Main", { name := "main", parameterTypes := [], returnType := "void" }⟩

def callee : Method := ⟨1, "a.Main", { name := "help", parameterTypes := [], returnType := "void" }⟩

/-- An analysis is asked for before an empty call graph takes the place of one with a call. -/
def replacement : List AnalysisCall :=
  [.makeGraph .empty, .makeGraph .empty, .addEdge ⟨0⟩ ⟨caller, callee, .static⟩, .setCallGraph ⟨0⟩,
    .getSideEffects, .setCallGraph ⟨1⟩]

/-- An analysis is asked for before the call graph is taken away. -/
def withdrawal : List AnalysisCall :=
  [.makeGraph .empty, .setCallGraph ⟨0⟩, .getSideEffects, .releaseCallGraph]

theorem getSideEffects_use_replacement :
    ∃ s v before since id, getSideEffects ((ofUniverse default).use replacement) = .ok s v ∧
      replacement = before ++ since ∧ ((ofUniverse default).use before).callGraph = some id ∧
      ∀ m, v.transitiveCallees s m = (v.graph id).transitiveCallees m := by
  have spec := getSideEffects_use (w := ofUniverse default)
    (Universe.isWellFormed_empty false false) rfl replacement
  cases outcome : getSideEffects ((ofUniverse default).use replacement) with
  | ok s v =>
      rw [outcome] at spec
      obtain ⟨before, since, id, split, -, -, -, graph, answers, -⟩ := spec
      exact ⟨s, v, before, since, id, rfl, split, graph, answers⟩
  | error e v => cases outcome

/-- The analysis need not be over the call graph that is installed, nor is one refused whenever no
call graph is. -/
theorem not_over_installed :
    ¬ (∀ s v, getSideEffects ((ofUniverse default).use replacement) = .ok s v →
      ∃ id, v.callGraph = some id ∧
        ∀ m, v.transitiveCallees s m = (v.graph id).transitiveCallees m) ∧
    ¬ (((ofUniverse default).use withdrawal).callGraph = none →
      ∃ v, getSideEffects ((ofUniverse default).use withdrawal) = .error .noCallGraph v) := by
  constructor
  · intro claimed
    obtain ⟨id, installed, answers⟩ := claimed _ _ rfl
    have second : id = ⟨1⟩ := Option.some.inj installed.symm
    have same := answers caller
    rw [second] at same
    revert same
    decide +kernel
  · intro claimed
    obtain ⟨v, refused⟩ := claimed rfl
    cases refused

end Replaced

end Workspace

end ClassUniverse
