import ClassUniverse.Proofs.Resolution.Placed
import ClassUniverse.Proofs.Resolution.Requests
import ClassUniverse.Scene.Loading

/-!
# Operations on a scene while it is being loaded

Over definitions in memory the source of a scene never changes, and what a scene does with its
universe is resolution to `hierarchy` and above and moves of classes between the partitions.
-/

namespace ClassUniverse

namespace Scene

variable {α : Type} {env : Surroundings} {o : Options} {m : MemorySource} {sc t : Scene}
  {u : Universe} {name : String} {id : ClassId} {p : Partition} {apps full : String → Prop}

/-- The scene with another universe. -/
def withCore (sc : Scene) (u : Universe) : Scene :=
  { sc with workspace := { sc.workspace with core := u } }

/-- As long as everything is held from outside, an operation on the universe lets go of nothing. -/
theorem onUniverse_apply (held : sc.workspace.holders = .everything) (action : Action α) :
    onUniverse action sc = match action sc.core with
      | .ok a u => .ok a (sc.withCore u)
      | .error e u => .error e (sc.withCore u) := by
  have kept (u : Universe) : Workspace.letGo { sc.workspace with core := u } =
      { sc.workspace with core := u } := by
    unfold Workspace.letGo
    simp only [held]
  simp only [onUniverse, onWorkspace, Workspace.onUniverse, Scene.core]
  cases action sc.workspace.core <;> simp only [kept] <;> rfl

theorem after_onUniverse (held : sc.workspace.holders = .everything) (action : Action α) :
    after (onUniverse action) sc = sc.withCore (after action sc.core) := by
  unfold after
  rw [onUniverse_apply held]
  cases action sc.core <;> rfl

theorem succeeds_onUniverse (held : sc.workspace.holders = .everything) (action : Action α) :
    succeeds (onUniverse action) sc = succeeds action sc.core := by
  unfold succeeds
  rw [onUniverse_apply held]
  cases action sc.core <;> rfl

theorem resolving_apply (source : sc.source = .memory m) (action : Supply → Action α) :
    resolving env action sc = onUniverse (action m.supply) sc := by
  have same (w : Workspace) : ({ sc with workspace := w } : Scene) =
      { sc with workspace := w, source := sc.source.asked env.files } := by
    rw [source]
    simp only [ClassSource.asked]
  have supply : sc.source.supply env.files = m.supply := by rw [source]; rfl
  simp only [resolving, onUniverse, onWorkspace, supply]
  cases Workspace.onUniverse (action m.supply) sc.workspace with
  | ok a w | error e w =>
      simp only
      split
      · rw [same]
      · rfl

/-! ## Loading -/

/-- What holds of a scene with some options over definitions in memory while it is being loaded:
nobody lets go of anything, its universe is built from the definitions, and it is known which
classes are application classes. -/
structure IsLoading (sc : Scene) (o : Options) (m : MemorySource) (apps full : String → Prop) :
    Prop where
  options : sc.options = o
  source : sc.source = .memory m
  excluded : sc.excluded = excludedPackages o
  held : sc.workspace.holders = .everything
  built : sc.core.IsBuilt m.supply
  placed : sc.core.IsPlaced apps full

theorem isLoading_ofSource (o : Options) (m : MemorySource) :
    (ofSource o (.memory m)).IsLoading o m (fun _ => False) fun _ => False where
  options := rfl
  source := rfl
  excluded := rfl
  held := rfl
  built := Universe.isBuilt_empty _ _ _
  placed := Universe.isPlaced_empty _ _

namespace IsLoading

variable {apps' full' : String → Prop}

theorem withCore (h : sc.IsLoading o m apps full) (built : u.IsBuilt m.supply)
    (placed : u.IsPlaced apps' full') : (sc.withCore u).IsLoading o m apps' full' where
  options := h.options
  source := h.source
  excluded := h.excluded
  held := h.held
  built := built
  placed := placed

theorem of_placed (h : sc.IsLoading o m apps full) (placed : sc.core.IsPlaced apps' full') :
    sc.IsLoading o m apps' full' :=
  h.withCore h.built placed

theorem of_eq (h : sc.IsLoading o m apps full) (options : t.options = sc.options)
    (source : t.source = sc.source) (excluded : t.excluded = sc.excluded)
    (workspace : t.workspace = sc.workspace) : t.IsLoading o m apps full := by
  have core : t.core = sc.core := congrArg Workspace.core workspace
  refine ⟨options.trans h.options, source.trans h.source, excluded.trans h.excluded, ?_, ?_, ?_⟩
  · rw [workspace]
    exact h.held
  · rw [core]
    exact h.built
  · rw [core]
    exact h.placed

theorem of_iff (h : sc.IsLoading o m apps full) (happs : ∀ n, apps n ↔ apps' n)
    (hfull : ∀ n, full n ↔ full' n) : sc.IsLoading o m apps' full' := by
  have ha : apps = apps' := funext fun n => propext (happs n)
  have hf : full = full' := funext fun n => propext (hfull n)
  rwa [ha, hf] at h

theorem resolving {action : Supply → Action α} {post : α → Universe → Prop}
    (h : sc.IsLoading o m apps full)
    (keeps : Keeps (Moves m.supply .hierarchy) (action m.supply) sc.core post) :
    Ends (Scene.resolving env action) sc fun a t =>
      t.IsLoading o m apps full ∧ sc.core.Grows t.core ∧ post a t.core := by
  unfold Ends Keeps
  rw [resolving_apply h.source, onUniverse_apply h.held]
  cases hr : action m.supply sc.core with
  | error e u => trivial
  | ok a u =>
      obtain ⟨moves, hp⟩ := keeps.ok hr
      refine ⟨trivial, h.withCore ?_ ?_, Moves.grows h.built.wf moves, hp⟩
      · exact h.built.moves m.isNamed_supply moves
      · exact h.placed.moves h.built.wf moves

theorem loadWithSupport (h : sc.IsLoading o m apps full) (env : Surroundings) (name : String) :
    Ends (Scene.resolving env fun s => Universe.loadWithSupport s name) sc fun id t =>
      t.IsLoading o m apps full ∧ sc.core.Grows t.core ∧ t.core.Serves name .bodies id := by
  refine (h.resolving (Universe.loadWithSupport_keeps h.built.wf (Nat.le_refl _))).mono ?_
  intro id t _ ⟨ht, grows, served⟩
  exact ⟨ht, grows, served (m.isNamed_supply name)⟩

theorem tryLoad (h : sc.IsLoading o m apps full) (env : Surroundings) {level : Level}
    (high : .hierarchy ≤ level) (name : String) :
    Ends (Scene.resolving env fun s => Universe.tryLoad s name level) sc fun _ t =>
      t.IsLoading o m apps full := by
  refine (h.resolving (Universe.tryLoad_keeps h.built.wf (Nat.le_refl _) high)).mono ?_
  intro _ t _ ⟨ht, _, _⟩
  exact ht

theorem reclassify (h : sc.IsLoading o m apps full) (found : sc.core.find? name = some id)
    (real : (sc.record id).isPhantom = false) (p : Partition) (kind : p ≠ .phantom) :
    Ends (onUniverse (Universe.reclassify id p)) sc fun _ t =>
      t.IsLoading o m (Function.update apps name (p = .application)) full ∧
        (∀ other, t.core.find? other = sc.core.find? other) ∧ (t.record id).isPhantom = false := by
  have moved : Universe.reclassify id p sc.core = .ok () (sc.core.moved id p) := by
    have real' : (sc.core.record id).isPhantom = false := real
    rw [Universe.reclassify_apply, h.built.wf.isManaged_iff.mpr ⟨name, found⟩, real']
    rfl
  unfold Ends Keeps
  rw [onUniverse_apply h.held, moved]
  refine ⟨trivial, h.withCore ?_ ?_, ?_, ?_⟩
  · exact h.built.moved found fun phantom => absurd phantom (Bool.eq_false_iff.mp real)
  · exact h.placed.moved h.built.wf found p
  · exact Universe.find?_moved _ _ _
  · change ((sc.core.moved id p).record id).isPhantom = false
    rw [Universe.record_moved_self (h.built.wf.stands found).made]
    exact Bool.or_eq_false_iff.mpr ⟨real, by simpa using kind⟩

end IsLoading

end Scene

end ClassUniverse
