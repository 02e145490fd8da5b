import ClassUniverse.Proofs.CallGraph.Reachability
import ClassUniverse.Proofs.Operation
import ClassUniverse.Workspace

/-!
# Reachable methods over the installed call graph

The reachable methods count how many calls of the call graph have been taken in.  The count belongs
to the graph over which the set was found: when the set is handed back while another graph is
installed, the calls up to that count are taken for known there.
-/

namespace ClassUniverse

/-- Sets of reachable methods that have been handed out, each with the call graph that was installed
then. -/
structure ReachableUse where
  workspace : Workspace
  handedOut : List (Option GraphId × Reachable)

/-- What can happen to the call graphs and the reachable methods of a workspace.  A set that is put
in the place of the present one is the one that was handed out at a position. -/
inductive ReachableCall
  | makeGraph (g : CallGraph)
  | addEdge (id : GraphId) (e : Edge)
  | setCallGraph (id : GraphId)
  | releaseCallGraph
  | reach (entries : List Method)
  | handBack (position : Nat)
  | releaseReachable

namespace ReachableUse

def start (u : Universe) : ReachableUse := ⟨.ofUniverse u, []⟩

def onWorkspace (s : ReachableUse) (f : Workspace → Workspace) : ReachableUse :=
  { s with workspace := f s.workspace }

def step (s : ReachableUse) : ReachableCall → ReachableUse
  | .makeGraph g => s.onWorkspace fun w => (w.makeGraph g).2
  | .addEdge id e => s.onWorkspace fun w => (w.addEdge id e).2
  | .setCallGraph id => s.onWorkspace (·.setCallGraph id)
  | .releaseCallGraph => s.onWorkspace (·.releaseCallGraph)
  | .reach entries =>
      match Workspace.reachFrom entries s.workspace with
      | .ok r w => ⟨w, s.handedOut ++ [(w.callGraph, r)]⟩
      | .error _ w => s.onWorkspace fun _ => w
  | .handBack position =>
      match s.handedOut[position]? with
      | some (_, r) => s.onWorkspace (·.setReachable r)
      | none => s
  | .releaseReachable => s.onWorkspace (·.releaseReachable)

def run (s : ReachableUse) (calls : List ReachableCall) : ReachableUse := calls.foldl step s

/-- Whether a call hands a set back, if it does, to the graph over which it was found. -/
def HandsToOwn (s : ReachableUse) : ReachableCall → Prop
  | .handBack position =>
      ∀ x, s.handedOut[position]? = some x → x.1 = s.workspace.callGraph
  | _ => True

/-- Whether all calls of a run hand sets back to the graphs over which they were found. -/
def KeepsToOwn : ReachableUse → List ReachableCall → Prop
  | _, [] => True
  | s, c :: calls => s.HandsToOwn c ∧ KeepsToOwn (s.step c) calls

variable {s : ReachableUse} {entries : List Method} {id : GraphId} {c : ReachableCall}

/-- The present set of reachable methods, which is empty at first. -/
def present (s : ReachableUse) : Reachable := s.workspace.reachable.getD .empty

theorem reachFrom_of_none (missing : s.workspace.callGraph = none) :
    Workspace.reachFrom entries s.workspace = .error .noCallGraph s.workspace := by
  simp only [Workspace.reachFrom, bind_apply, get_apply, Workspace.expectGraph, missing,
    throw_apply]

theorem reachFrom_of_some (installed : s.workspace.callGraph = some id) :
    Workspace.reachFrom entries s.workspace =
      .ok (s.present.update (s.workspace.graph id) entries)
        { s.workspace with
          reachable := some (s.present.update (s.workspace.graph id) entries) } := by
  simp only [Workspace.reachFrom, bind_apply, get_apply, Workspace.expectGraph, installed]
  rfl

/-! ## One call -/

theorem graph_makeGraph (w : Workspace) (g : CallGraph) (id : GraphId) :
    (w.graph id).edges <+: ((w.makeGraph g).2.graph id).edges := by
  unfold Workspace.graph Workspace.makeGraph
  rw [Array.getElem?_push]
  split
  next new =>
    rw [new, Array.getElem?_size]
    exact List.nil_prefix
  · exact List.prefix_refl _

theorem graph_addEdge (w : Workspace) (changed : GraphId) (e : Edge) (id : GraphId) :
    (w.graph id).edges <+: ((w.addEdge changed e).2.graph id).edges := by
  have grown := (w.graph changed).edges_add e
  unfold Workspace.addEdge
  dsimp only
  unfold Workspace.graph at grown ⊢
  rw [Array.getElem?_modify]
  split
  next same =>
    rw [← same]
    cases found : w.graphs[changed.serial]? with
    | none => exact List.prefix_refl _
    | some g =>
        rw [found] at grown
        exact ⟨_, grown.symm⟩
  · exact List.prefix_refl _

/-- What a call does to the present set and the ones that have been handed out, where `own` stands
for a set being handed back to its own graph. -/
inductive Stepped (own : Prop) (s t : ReachableUse) : Prop
  | kept (handed : t.handedOut = s.handedOut)
      (graph : t.workspace.callGraph = s.workspace.callGraph) (same : t.present = s.present)
  | dropped (handed : t.handedOut = s.handedOut) (none : t.present = .empty)
  | handedBack (x : Option GraphId × Reachable) (old : x ∈ s.handedOut)
      (handed : t.handedOut = s.handedOut)
      (graph : t.workspace.callGraph = s.workspace.callGraph) (put : t.present = x.2)
      (toOwn : own → x.1 = s.workspace.callGraph)
  | reached (id : GraphId) (entries : List Method) (installed : s.workspace.callGraph = some id)
      (graph : t.workspace.callGraph = s.workspace.callGraph)
      (handed : t.handedOut = s.handedOut ++ [(some id, t.present)])
      (found : t.present = s.present.update (s.workspace.graph id) entries)

theorem stepped_step (s : ReachableUse) (c : ReachableCall) :
    (∀ id, (s.workspace.graph id).edges <+: ((s.step c).workspace.graph id).edges) ∧
      Stepped (s.HandsToOwn c) s (s.step c) := by
  cases c with
  | makeGraph g => exact ⟨graph_makeGraph s.workspace g, .kept rfl rfl rfl⟩
  | addEdge changed e => exact ⟨graph_addEdge s.workspace changed e, .kept rfl rfl rfl⟩
  | setCallGraph id => exact ⟨fun _ => List.prefix_refl _, .dropped rfl rfl⟩
  | releaseCallGraph => exact ⟨fun _ => List.prefix_refl _, .dropped rfl rfl⟩
  | releaseReachable => exact ⟨fun _ => List.prefix_refl _, .dropped rfl rfl⟩
  | reach entries =>
      unfold step
      cases graph : s.workspace.callGraph with
      | none =>
          simp only [reachFrom_of_none graph]
          exact ⟨fun _ => List.prefix_refl _, .kept rfl rfl rfl⟩
      | some id =>
          simp only [reachFrom_of_some graph]
          exact ⟨fun _ => List.prefix_refl _, .reached id entries graph rfl (by rw [graph]; rfl) rfl⟩
  | handBack position =>
      unfold step
      dsimp only
      cases old : s.handedOut[position]? with
      | none => exact ⟨fun _ => List.prefix_refl _, .kept rfl rfl rfl⟩
      | some x =>
          exact ⟨fun _ => List.prefix_refl _,
            .handedBack x (List.mem_of_getElem? old) rfl rfl rfl fun own => own x old⟩

/-! ## Runs -/

/-- Whether the present set and those handed out have each signature once. -/
structure IsSingle (s : ReachableUse) : Prop where
  present : (s.present.methods.map Method.signature).Nodup
  handedOut : ∀ x ∈ s.handedOut, (x.2.methods.map Method.signature).Nodup

theorem IsSingle.step (h : s.IsSingle) (c : ReachableCall) : (s.step c).IsSingle := by
  cases (stepped_step s c).2 with
  | kept handed _ same => exact ⟨same ▸ h.present, handed ▸ h.handedOut⟩
  | dropped handed none => exact ⟨by rw [none]; exact List.nodup_nil, handed ▸ h.handedOut⟩
  | handedBack x old handed _ put _ => exact ⟨put ▸ h.handedOut x old, handed ▸ h.handedOut⟩
  | reached id entries _ _ handed found =>
      have new : ((s.step c).present.methods.map Method.signature).Nodup :=
        found ▸ Reachable.nodup_update h.present entries
      refine ⟨new, fun x hx => ?_⟩
      rw [handed, List.mem_append, List.mem_singleton] at hx
      rcases hx with old | rfl
      · exact h.handedOut x old
      · exact new

/-- Whether the present set belongs to the installed graph and each set handed out to its own. -/
structure IsOwn (s : ReachableUse) : Prop where
  present : ∀ id, s.workspace.callGraph = some id →
    ∃ begun, s.present.IsCurrent (s.workspace.graph id) begun
  handedOut : ∀ x ∈ s.handedOut, ∀ id, x.1 = some id →
    ∃ begun, x.2.IsCurrent (s.workspace.graph id) begun

theorem IsOwn.step (h : s.IsOwn) (own : s.HandsToOwn c) : (s.step c).IsOwn := by
  obtain ⟨grown, stepped⟩ := stepped_step s c
  have later (x : Option GraphId × Reachable) (old : x ∈ s.handedOut) (id : GraphId)
      (graph : x.1 = some id) : ∃ begun, x.2.IsCurrent ((s.step c).workspace.graph id) begun := by
    obtain ⟨begun, current⟩ := h.handedOut x old id graph
    exact ⟨begun, current.grow (grown id)⟩
  cases stepped with
  | kept handed graph same =>
      refine ⟨fun id installed => ?_, handed ▸ later⟩
      obtain ⟨begun, current⟩ := h.present id (graph.symm.trans installed)
      exact ⟨begun, same ▸ current.grow (grown id)⟩
  | dropped handed none =>
      exact ⟨fun id _ => ⟨[], none ▸ Reachable.isCurrent_empty _⟩, handed ▸ later⟩
  | handedBack x old handed graph put toOwn =>
      refine ⟨fun id installed => ?_, handed ▸ later⟩
      rw [put]
      exact later x old id ((toOwn own).trans (graph.symm.trans installed))
  | reached id entries installed graph handed found =>
      obtain ⟨begun, current⟩ := h.present id installed
      have new : (s.step c).present.IsCurrent ((s.step c).workspace.graph id) (begun ++ entries) :=
        found ▸ (Reachable.isCurrent_update current entries).grow (grown id)
      constructor
      · intro other installed'
        cases installed.symm.trans (graph.symm.trans installed')
        exact ⟨_, new⟩
      · intro x hx other graph'
        rw [handed, List.mem_append, List.mem_singleton] at hx
        rcases hx with old | rfl
        · exact later x old other graph'
        · cases graph'
          exact ⟨_, new⟩

theorem IsSingle.run (h : s.IsSingle) (calls : List ReachableCall) : (s.run calls).IsSingle := by
  induction calls generalizing s with
  | nil => exact h
  | cons c calls ih => exact ih (h.step c)

theorem IsOwn.run (h : s.IsOwn) (calls : List ReachableCall) (own : s.KeepsToOwn calls) :
    (s.run calls).IsOwn := by
  induction calls generalizing s with
  | nil => exact h
  | cons c calls ih => exact ih (h.step own.1) own.2

/-- After any calls, reachable methods are found exactly if a call graph is installed.  What is found
has the entry points.  It follows the calls of the installed graph exactly if the calls that the
present set takes for known do not lead out of it, and so it does if sets have been handed back to
the graphs over which they were found alone. -/
theorem reachFrom_run (u : Universe) (calls : List ReachableCall) (entries : List Method) :
    let s := (start u).run calls
    match s.workspace.callGraph with
    | none => Workspace.reachFrom entries s.workspace = .error .noCallGraph s.workspace
    | some id => ∃ r,
        Workspace.reachFrom entries s.workspace =
          .ok r { s.workspace with reachable := some r } ∧
        (∀ m ∈ entries, m.signature ∈ r.signatures) ∧
        ((s.workspace.graph id).IsClosed entries r.signatures ↔
          ∀ e ∈ (s.workspace.graph id).edges.take s.present.edgesSeen,
            e.source.signature ∈ s.present.signatures → e.target.signature ∈ r.signatures) ∧
        ((start u).KeepsToOwn calls → (s.workspace.graph id).IsClosed entries r.signatures) := by
  intro s
  have bare : (start u).IsSingle := ⟨List.nodup_nil, nofun⟩
  have single : s.IsSingle := bare.run calls
  cases installed : s.workspace.callGraph with
  | none => exact reachFrom_of_none installed
  | some id =>
      refine ⟨_, reachFrom_of_some installed, fun m => Reachable.mem_update_of_entry,
        Reachable.isClosed_update_iff single.present, fun own => ?_⟩
      have first : (start u).IsOwn := ⟨nofun, nofun⟩
      obtain ⟨begun, current⟩ := (first.run calls own).present id installed
      have closed := Reachable.isClosed_update current entries
      exact ⟨fun m hm => closed.begun m (List.mem_append_right begun hm), closed.follows⟩

/-! ## A set over another graph -/

def task : Method := ⟨0, "a.Main", { name := "main", parameterTypes := [], returnType := "void" }⟩

def aid : Method := ⟨1, "a.Main", { name := "help", parameterTypes := [], returnType := "void" }⟩

def errand : Method := ⟨2, "a.Main", { name := "run", parameterTypes := [], returnType := "void" }⟩

/-- A set found over one call graph is handed back after another one has been installed. -/
def exchange : List ReachableCall :=
  [.makeGraph .empty, .addEdge ⟨0⟩ ⟨task, aid, .static⟩, .makeGraph .empty,
    .addEdge ⟨1⟩ ⟨aid, errand, .static⟩, .setCallGraph ⟨0⟩, .reach [task], .setCallGraph ⟨1⟩,
    .handBack 0]

/-- The only call of the installed graph is taken for known, so it is not followed. -/
theorem not_closed_after_exchange :
    ∃ r v, Workspace.reachFrom [] ((start default).run exchange).workspace = .ok r v ∧
      v.callGraph = some ⟨1⟩ ∧ ¬ (v.graph ⟨1⟩).IsClosed [] r.signatures := by
  refine ⟨_, _, rfl, rfl, fun closed => ?_⟩
  have followed := closed.follows ⟨aid, errand, .static⟩ (List.mem_singleton.mpr rfl)
    (by rw [Reachable.mem_signatures]; decide +kernel)
  rw [Reachable.mem_signatures] at followed
  revert followed
  decide +kernel

end ReachableUse

end ClassUniverse
