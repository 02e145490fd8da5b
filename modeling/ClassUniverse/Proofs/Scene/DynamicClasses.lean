import ClassUniverse.Proofs.Scene.Stages

/-!
# The dynamic classes of a scene

The list of dynamic classes is made once and is not kept up afterwards.  What is listed stays
neither abstract nor an interface.  A class that is listed with a definition stays at `bodies`; it
stays registered until it is removed, and it is no phantom until it is moved to the phantoms, and
neither takes it off the list.
-/

namespace ClassUniverse

/-- A call that loads classes into a scene or changes which ones are registered. -/
inductive SceneCall
  | loadDynamic
  | load
  | remove (id : ClassId)
  | request (q : Request)
  | phantom (name : String)
  | reclassify (id : ClassId) (p : Partition)
  deriving DecidableEq

namespace SceneCall

def perform (env : Surroundings) : SceneCall → SceneAction Unit
  | loadDynamic => Scene.loadDynamic env
  | load => Scene.load env
  | remove id => Scene.removeClass id
  | request q => discard (Scene.resolving env fun s => q.perform s)
  | phantom name => discard (Scene.onUniverse (Universe.getOrCreatePhantom name))
  | reclassify id p => Scene.onUniverse (Universe.reclassify id p)

/-- The scene after a call, failed or not. -/
def next (c : SceneCall) (env : Surroundings) (sc : Scene) : Scene := after (c.perform env) sc

/-- Whether a call is a given one and succeeds. -/
def Does (c : SceneCall) (env : Surroundings) (sc : Scene) (what : SceneCall) : Prop :=
  c = what ∧ succeeds (c.perform env) sc = true

instance (c : SceneCall) (env : Surroundings) (sc : Scene) (what : SceneCall) :
    Decidable (c.Does env sc what) :=
  inferInstanceAs (Decidable (_ ∧ _))

/-- Whether a call neither removes a class nor moves one to the phantoms. -/
def IsGentle (c : SceneCall) : Prop := ∀ id, c ≠ .remove id ∧ c ≠ .reclassify id .phantom

/-- Whether a call removes a class or moves one to a partition. -/
def Rearranges : SceneCall → Prop
  | remove _ | reclassify _ _ => True
  | loadDynamic | load | request _ | phantom _ => False

end SceneCall

namespace Scene

/-- The scene after some calls, each in its own surroundings. -/
def run (calls : List (SceneCall × Surroundings)) (sc : Scene) : Scene :=
  calls.foldl (fun sc call => call.1.next call.2 sc) sc

/-- Whether one of some calls is a given one and succeeds. -/
def HasDone (what : SceneCall) : List (SceneCall × Surroundings) → Scene → Prop
  | [], _ => False
  | (c, env) :: calls, sc => c.Does env sc what ∨ HasDone what calls (c.next env sc)

instance decidableHasDone (what : SceneCall) :
    (calls : List (SceneCall × Surroundings)) → (sc : Scene) → Decidable (HasDone what calls sc)
  | [], _ => inferInstanceAs (Decidable False)
  | (c, env) :: calls, sc =>
      have := decidableHasDone what calls (c.next env sc)
      inferInstanceAs (Decidable (_ ∨ _))

/-- Whether at each of some calls the source keeps each definition under its own name. -/
def NamedAlong : List (SceneCall × Surroundings) → Scene → Prop
  | [], _ => True
  | (c, env) :: calls, sc =>
      (sc.source.supply env.files).IsNamed ∧ NamedAlong calls (c.next env sc)

variable {α : Type} {env : Surroundings} {sc t v : Scene} {id : ClassId} {c : SceneCall}
  {calls first second : List (SceneCall × Surroundings)} {p : Partition} {m : MemorySource}

theorem run_append : run (first ++ second) sc = run second (run first sc) := List.foldl_append

theorem namedAlong_append :
    NamedAlong (first ++ second) sc ↔ NamedAlong first sc ∧ NamedAlong second (run first sc) := by
  induction first generalizing sc with
  | nil => exact (iff_of_eq (true_and _)).symm
  | cons call first ih =>
      change _ ∧ NamedAlong (first ++ second) _ ↔ (_ ∧ NamedAlong first _) ∧ _
      rw [ih, and_assoc]
      rfl

/-! ## Calls that neither remove a class nor make it a phantom -/

/-- What becomes of a scene where every class is spared and what is put on the list is admitted. -/
structure Upholds (env : Surroundings) (sc t : Scene) : Prop where
  ready : t.IsReady env
  spares : ∀ {id}, sc.core.catalog.IsMade id → sc.core.Spares t.core id
  listed : ∀ {id}, id ∈ t.dynamic → id ∈ sc.dynamic ∨ t.core.Admits id
  memory : ∀ {m}, sc.source = .memory m → t.source = .memory m

namespace Upholds

theorem refl (ready : sc.IsReady env) : Upholds env sc sc where
  ready := ready
  spares made := .refl made
  listed := .inl
  memory h := h

theorem trans (first : Upholds env sc t) (second : Upholds env t v) : Upholds env sc v where
  ready := second.ready
  spares made := (first.spares made).trans (second.spares (first.spares made).made)
  listed {id} hm := by
    rcases second.listed hm with before | admitted
    · refine (first.listed before).imp_right fun admitted => ?_
      have made := first.ready.wellFormed.isMade_of_isRegistered admitted.registered
      exact admitted.spares (second.spares made)
    · exact .inr admitted
  memory h := second.memory (first.memory h)

end Upholds

theorem Stage.upholds (step : Stage env sc t) (ready : sc.IsReady env) : Upholds env sc t where
  ready := step.isReady ready
  spares := step.spares ready
  listed {id} hm := by
    cases step with
    | basic | asked | request | reclassify => exact .inl hm
    | dynamic ids admitted => exact .inr (admitted id hm)
  memory h := by
    cases step with
    | basic | dynamic | request | reclassify => exact h
    | asked =>
        change sc.source.asked env.files = _
        rw [h]
        rfl

/-- What a ready scene becomes when it is upheld. -/
def Cares (env : Surroundings) (sc t : Scene) : Prop := sc.IsReady env → Upholds env sc t

instance (env : Surroundings) : IsPreorder Scene (Cares env) where
  refl _ := .refl
  trans _ _ _ first second ready := (first ready).trans (second (first ready).ready)

theorem Leads.cares (leads : Leads env sc t) : Cares env sc t := by
  intro ready
  have steps := leads ready
  induction steps with
  | refl => exact .refl ready
  | @tail t v before step ih =>
      have upheld := ih fun _ => before
      exact upheld.trans (step.upholds upheld.ready)

theorem SettlesMain.cares (settles : sc.SettlesMain t) : Cares env sc t := by
  intro ready
  refine ⟨⟨settles.holders.trans ready.held, ?_, ?_⟩, ?_, ?_, ?_⟩
  · rw [settles.core]
    exact ready.wellFormed
  · rw [settles.source]
    exact ready.named
  · rw [settles.core]
    exact fun made => .refl made
  · rw [settles.dynamic]
    exact .inl
  · rw [settles.source]
    exact fun h => h

theorem Stages.cares {x : SceneAction α} (stages : Stages env x sc) :
    Keeps (Cares env) x sc fun _ _ => True :=
  stages.weaken fun _ leads => leads.cares

theorem load_cares : Keeps (Cares env) (load env) sc fun _ _ => True := by
  by_cases ready : sc.IsReady env
  · unfold load
    apply gather_stages.cares.bind
    intro _ t cares _
    have ready := (cares ready).ready
    apply prepare_stages.cares.bind
    intro _ t cares _
    have ready := (cares ready).ready
    have closes : Stages env (onUniverse Universe.close) t := onUniverse_stages (.request .close)
    apply closes.cares.bind
    intro _ t cares _
    have ready := (cares ready).ready
    exact (setMainFromOptions_settles ready.held).weaken fun _ settles => settles.cares
  · have cares (t : Scene) : Cares env sc t := fun h => absurd h ready
    unfold Keeps
    cases load env sc with
    | ok a t => exact ⟨cares t, trivial⟩
    | error e t => exact cares t

theorem phantom_upholds (ready : sc.IsReady env) (name : String) :
    Upholds env sc (sc.withCore (after (Universe.getOrCreatePhantom name) sc.core)) where
  ready := ⟨ready.held, (Call.phantom name).isWellFormed_run ready.wellFormed, ready.named⟩
  spares made := Universe.spares_getOrCreatePhantom ready.wellFormed name made
  listed := .inl
  memory h := h

theorem after_discard {x : SceneAction α} : after (discard x) sc = after x sc := by
  have same : Functor.discard x = x >>= fun _ => Pure.pure PUnit.unit := rfl
  rw [same, after_bind]
  unfold answer after
  cases x sc <;> rfl

theorem next_upholds (gentle : c.IsGentle) (ready : sc.IsReady env) :
    Upholds env sc (c.next env sc) := by
  unfold SceneCall.next
  cases c with
  | loadDynamic => exact loadDynamic_stages.cares.after_rel ready
  | load => exact load_cares.after_rel ready
  | remove id => exact absurd rfl (gentle id).1
  | request q =>
      have requested : Stages env (resolving env fun s => q.perform s) sc :=
        resolving_stages q fun _ _ => rfl
      change Upholds env sc (after (discard _) sc)
      rw [after_discard]
      exact requested.cares.after_rel ready
  | phantom name =>
      change Upholds env sc (after (discard _) sc)
      rw [after_discard, after_onUniverse ready.held]
      exact phantom_upholds ready name
  | reclassify id p =>
      have kind : p ≠ .phantom := fun phantom => (gentle id).2 (by rw [phantom])
      exact (reclassify_stages id kind).cares.after_rel ready

/-! ## One call -/

/-- What a call does to the classes of a ready scene and to the list. -/
structure Turns (c : SceneCall) (env : Surroundings) (sc t : Scene) : Prop where
  held : t.workspace.holders = .everything
  wellFormed : t.core.IsWellFormed
  retains : ∀ {id}, sc.core.catalog.IsMade id → sc.core.Retains t.core id
  registered : ∀ {id}, sc.core.catalog.IsMade id →
    (t.core.IsRegistered id ↔ sc.core.IsRegistered id ∧ ¬ c.Does env sc (.remove id))
  phantom : ∀ {id}, sc.core.catalog.IsMade id → sc.core.isLoaded id .bodies = true →
    ((t.record id).isPhantom = true ↔
      (sc.record id).isPhantom = true ∨ c.Does env sc (.reclassify id .phantom))
  listed : ∀ {id}, id ∈ t.dynamic → id ∈ sc.dynamic ∨ t.core.Admits id
  memory : ∀ {m}, sc.source = .memory m → t.source = .memory m

theorem Upholds.turns (h : Upholds env sc t) (gentle : c.IsGentle) : Turns c env sc t where
  held := h.ready.held
  wellFormed := h.ready.wellFormed
  retains made := (h.spares made).toRetains
  registered {id} made := by
    have other : ¬ c.Does env sc (.remove id) := fun does => (gentle id).1 does.1
    rw [(h.spares made).registered]
    exact (and_iff_left other).symm
  phantom {id} made loaded := by
    have other : ¬ c.Does env sc (.reclassify id .phantom) := fun does => (gentle id).2 does.1
    have same : (t.record id).isPhantom = (sc.record id).isPhantom := (h.spares made).settled loaded
    rw [same]
    exact (or_iff_left other).symm
  listed := h.listed
  memory := h.memory

theorem succeeds_removeClass (ready : sc.IsReady env) (id : ClassId) :
    succeeds (removeClass id) sc = succeeds (Universe.removeClass id) sc.core := by
  rw [← succeeds_onUniverse ready.held]
  unfold succeeds removeClass
  rw [bind_apply]
  cases onUniverse (Universe.removeClass id) sc <;> rfl

/-- A removal is one on the universe, whatever it does to the main class. -/
theorem after_removeClass (ready : sc.IsReady env) (id : ClassId) :
    (after (removeClass id) sc).core = after (Universe.removeClass id) sc.core ∧
      (after (removeClass id) sc).workspace.holders = .everything ∧
      (after (removeClass id) sc).dynamic = sc.dynamic ∧
      (after (removeClass id) sc).source = sc.source := by
  have removed := onUniverse_apply ready.held (Universe.removeClass id)
  unfold after removeClass
  rw [bind_apply, removed]
  cases Universe.removeClass id sc.core with
  | ok _ u | error e u => exact ⟨rfl, ready.held, rfl, rfl⟩

theorem remove_turns (ready : sc.IsReady env) (id : ClassId) :
    Turns (.remove id) env sc ((SceneCall.remove id).next env sc) := by
  obtain ⟨core, held, dynamic, source⟩ := after_removeClass ready id
  have does (other : ClassId) : (SceneCall.remove id).Does env sc (.remove other) ↔
      id = other ∧ succeeds (Universe.removeClass id) sc.core = true := by
    unfold SceneCall.Does
    rw [SceneCall.remove.injEq]
    exact and_congr_right fun _ => by rw [← succeeds_removeClass ready]; rfl
  change Turns (.remove id) env sc (after (removeClass id) sc)
  refine ⟨held, ?_, fun made => ?_, fun {other} made => ?_, fun {other} made _ => ?_, ?_, ?_⟩
  · rw [core]
    exact (Call.remove id).isWellFormed_run ready.wellFormed
  · rw [core]
    exact Universe.retains_removeClass made id
  · rw [core, does]
    exact Universe.isRegistered_removeClass ready.wellFormed other id
  · unfold Scene.record
    rw [core, Universe.isPhantom_removeClass made id]
    exact (or_iff_left fun does => nomatch does.1).symm
  · rw [dynamic]
    exact .inl
  · rw [source]
    exact fun h => h

/-- Neither a removal nor a move to a partition changes the list. -/
theorem dynamic_next_of_rearranges (ready : sc.IsReady env) (rearranges : c.Rearranges) :
    (c.next env sc).dynamic = sc.dynamic := by
  cases c with
  | remove id => exact (after_removeClass ready id).2.2.1
  | reclassify id p =>
      have next : (SceneCall.reclassify id p).next env sc =
          sc.withCore (after (Universe.reclassify id p) sc.core) := after_onUniverse ready.held _
      rw [next]
      rfl
  | loadDynamic | load | request | phantom => exact rearranges.elim

theorem registered_of_does (ready : sc.IsReady env) (does : c.Does env sc (.remove id)) :
    sc.core.IsRegistered id := by
  obtain ⟨rfl, succeeded⟩ := does
  have removed : succeeds (removeClass id) sc = true := succeeded
  rw [succeeds_removeClass ready, Universe.succeeds_removeClass] at removed
  exact ready.wellFormed.isManaged_iff.mp removed

theorem haunt_turns (ready : sc.IsReady env) (id : ClassId) :
    Turns (.reclassify id .phantom) env sc ((SceneCall.reclassify id .phantom).next env sc) := by
  have next : (SceneCall.reclassify id .phantom).next env sc =
      sc.withCore (after (Universe.reclassify id .phantom) sc.core) :=
    after_onUniverse ready.held _
  rw [next]
  refine ⟨ready.held, ?_, fun made => ?_, fun {other} made => ?_, fun {other} made loaded => ?_,
    .inl, fun h => h⟩
  · exact (Call.reclassify id .phantom).isWellFormed_run ready.wellFormed
  · exact Universe.retains_reclassify made .phantom
  · refine (Universe.isRegistered_reclassify sc.core other id .phantom).trans ?_
    exact (and_iff_left fun does => nomatch does.1).symm
  · have does : (SceneCall.reclassify id .phantom).Does env sc (.reclassify other .phantom) ↔
        id = other ∧ succeeds (Universe.reclassify id .phantom) sc.core = true := by
      unfold SceneCall.Does
      rw [SceneCall.reclassify.injEq, ← succeeds_onUniverse ready.held]
      exact and_congr_left' (and_iff_left rfl)
    rw [does]
    by_cases same : id = other
    · subst same
      exact (Universe.isPhantom_reclassify made).trans (or_congr_right (and_iff_right rfl).symm)
    · have spared : sc.core.Spares (after (Universe.reclassify id .phantom) sc.core) other :=
        Universe.spares_reclassify made fun h => absurd h.symm same
      change ((after (Universe.reclassify id .phantom) sc.core).record other).isPhantom = true ↔ _
      rw [spared.settled loaded]
      exact (or_iff_left fun does => same does.1).symm

theorem next_turns (ready : sc.IsReady env) (c : SceneCall) : Turns c env sc (c.next env sc) := by
  by_cases gentle : c.IsGentle
  · exact (next_upholds gentle ready).turns gentle
  · unfold SceneCall.IsGentle at gentle
    push Not at gentle
    obtain ⟨id, harsh⟩ := gentle
    by_cases removal : c = .remove id
    · rw [removal]
      exact remove_turns ready id
    · rw [harsh removal]
      exact haunt_turns ready id

/-! ## Runs -/

/-- What is known of a scene and its list after some removals. -/
structure IsKept (sc : Scene) (removed : ClassId → Prop) : Prop where
  held : sc.workspace.holders = .everything
  wellFormed : sc.core.IsWellFormed
  made : ∀ {id}, id ∈ sc.dynamic → sc.core.catalog.IsMade id
  concrete : ∀ {id}, id ∈ sc.dynamic → (sc.record id).modifiers.isConcrete = true
  loaded : ∀ {id}, id ∈ sc.dynamic → sc.core.isLoaded id .bodies = true
  registered : ∀ {id}, id ∈ sc.dynamic → sc.core.IsRegistered id ∨ removed id
  gone : ∀ {id}, removed id → sc.core.catalog.IsMade id ∧ ¬ sc.core.IsRegistered id

theorem isKept_ofSource (o : Options) (source : ClassSource) :
    (ofSource o source).IsKept fun _ => False where
  held := rfl
  wellFormed := Universe.isWellFormed_empty _ _
  made hm := nomatch hm
  concrete hm := nomatch hm
  loaded hm := nomatch hm
  registered hm := nomatch hm
  gone h := h.elim

namespace IsKept

variable {removed : ClassId → Prop}

theorem isReady (h : sc.IsKept removed) (named : (sc.source.supply env.files).IsNamed) :
    sc.IsReady env :=
  ⟨h.held, h.wellFormed, named⟩

/-- What is on the list after a call was there before, or it is admitted. -/
theorem listed (h : sc.IsKept removed) (turns : Turns c env sc t) (hm : id ∈ t.dynamic) :
    (id ∈ sc.dynamic ∧ sc.core.Retains t.core id) ∨ t.core.Admits id :=
  (turns.listed hm).imp_left fun before => ⟨before, turns.retains (h.made before)⟩

theorem next (h : sc.IsKept removed) (named : (sc.source.supply env.files).IsNamed)
    (c : SceneCall) :
    (c.next env sc).IsKept fun id => removed id ∨ c.Does env sc (.remove id) := by
  have turns := next_turns (h.isReady named) c
  generalize c.next env sc = t at turns ⊢
  refine ⟨turns.held, turns.wellFormed, fun hm => ?_, fun hm => ?_, fun hm => ?_,
    fun {id} hm => ?_, fun {id} before => ?_⟩
  · rcases h.listed turns hm with old | admitted
    · exact old.2.made
    · exact turns.wellFormed.isMade_of_isRegistered admitted.registered
  · rcases h.listed turns hm with old | admitted
    · exact old.2.modifiers ▸ h.concrete old.1
    · exact admitted.concrete
  · rcases h.listed turns hm with old | admitted
    · exact old.2.isLoaded (h.loaded old.1)
    · exact admitted.loaded
  · rcases h.listed turns hm with old | admitted
    · rw [turns.registered (h.made old.1)]
      have := h.registered old.1
      tauto
    · exact .inl admitted.registered
  · rcases before with gone | does
    · obtain ⟨made, unregistered⟩ := h.gone gone
      refine ⟨(turns.retains made).made, ?_⟩
      rw [turns.registered made]
      exact fun both => unregistered both.1
    · have made : sc.core.catalog.IsMade id :=
        h.wellFormed.isMade_of_isRegistered (registered_of_does (h.isReady named) does)
      refine ⟨(turns.retains made).made, ?_⟩
      rw [turns.registered made]
      exact fun both => both.2 does

theorem run (h : sc.IsKept removed) (named : NamedAlong calls sc) :
    (Scene.run calls sc).IsKept fun id => removed id ∨ HasDone (.remove id) calls sc := by
  induction calls generalizing sc removed with
  | nil =>
      simp only [HasDone, or_false]
      exact h
  | cons call calls ih =>
      have rest := ih (h.next named.1 call.1) named.2
      simp only [or_assoc] at rest
      exact rest

/-- A class that has been made keeps its flags and its level over a run. -/
theorem retains_run (h : sc.IsKept removed) (named : NamedAlong calls sc)
    (made : sc.core.catalog.IsMade id) : sc.core.Retains (Scene.run calls sc).core id := by
  induction calls generalizing sc removed with
  | nil => exact .of_record made rfl
  | cons call calls ih =>
      have first := (next_turns (h.isReady named.1) call.1).retains made
      exact first.trans (ih (h.next named.1 call.1) named.2 first.made)

/-- A class with bodies becomes a phantom over a run if it is moved to the phantoms. -/
theorem isPhantom_run (h : sc.IsKept removed) (named : NamedAlong calls sc)
    (made : sc.core.catalog.IsMade id) (loaded : sc.core.isLoaded id .bodies = true) :
    ((Scene.run calls sc).record id).isPhantom = true ↔
      (sc.record id).isPhantom = true ∨ HasDone (.reclassify id .phantom) calls sc := by
  induction calls generalizing sc removed with
  | nil => exact (or_iff_left not_false).symm
  | cons call calls ih =>
      have turns := next_turns (h.isReady named.1) call.1
      have first := turns.retains made
      have rest := ih (h.next named.1 call.1) named.2 first.made (first.isLoaded loaded)
      rw [turns.phantom made loaded, or_assoc] at rest
      exact rest

/-- A class with bodies that is no phantom stays at `bodies` over a run. -/
theorem level_run (h : sc.IsKept removed) (named : NamedAlong calls sc)
    (made : sc.core.catalog.IsMade id) (loaded : sc.core.isLoaded id .bodies = true)
    (real : (sc.record id).isPhantom = false) :
    ((Scene.run calls sc).record id).level = .bodies := by
  have high : Level.bodies ≤ (sc.core.record id).level :=
    (Universe.isLoaded_iff.mp loaded).resolve_left (Bool.eq_false_iff.mp real)
  have still := Level.le_trans high (h.retains_run named made).level
  exact Level.rank_injective (Nat.le_antisymm (Level.le_bodies _) still)

end IsKept

theorem namedAlong_memory {removed : ClassId → Prop} (h : sc.IsKept removed)
    (source : sc.source = .memory m) (calls : List (SceneCall × Surroundings)) :
    NamedAlong calls sc := by
  induction calls generalizing sc removed with
  | nil => trivial
  | cons call calls ih =>
      have named : (sc.source.supply call.2.files).IsNamed := by
        rw [source]
        exact m.isNamed_supply
      have still := (next_turns (h.isReady named) call.1).memory source
      exact ⟨named, ih (h.next named call.1) still⟩

/-- What is known of the listed classes after a run from the start of a scene: they are neither
abstract nor interfaces, and they are registered unless they have been removed.  One that was listed
at some moment without being a phantom is at `bodies`, and it is a phantom only if it has been moved
to the phantoms since.  No removal and no move to a partition on the way changes the list. -/
theorem dynamicClasses_run (o : Options) (source : ClassSource)
    (calls : List (SceneCall × Surroundings)) (named : NamedAlong calls (ofSource o source)) :
    (∀ id ∈ (run calls (ofSource o source)).dynamic,
      ((run calls (ofSource o source)).record id).modifiers.isConcrete = true ∧
      ((run calls (ofSource o source)).core.IsRegistered id ↔
        ¬ HasDone (.remove id) calls (ofSource o source)) ∧
      ∀ before since, calls = before ++ since → id ∈ (run before (ofSource o source)).dynamic →
        ((run before (ofSource o source)).record id).isPhantom = false →
          ((run calls (ofSource o source)).record id).level = .bodies ∧
          (((run calls (ofSource o source)).record id).isPhantom = true ↔
            HasDone (.reclassify id .phantom) since (run before (ofSource o source)))) ∧
    ∀ before c env since, calls = before ++ (c, env) :: since → c.Rearranges →
      (run (before ++ [(c, env)]) (ofSource o source)).dynamic =
        (run before (ofSource o source)).dynamic := by
  have start := isKept_ofSource o source
  have last := start.run named
  refine ⟨fun id listed => ⟨last.concrete listed, ?_, ?_⟩, ?_⟩
  · constructor
    · intro registered removed
      exact (last.gone (.inr removed)).2 registered
    · intro kept
      rcases last.registered listed with registered | removed
      · exact registered
      · exact absurd (removed.resolve_left not_false) kept
  · intro before since split earlier real
    subst split
    rw [namedAlong_append] at named
    rw [run_append]
    have middle := start.run named.1
    have made := middle.made earlier
    have loaded := middle.loaded earlier
    constructor
    · exact middle.level_run named.2 made loaded real
    · rw [middle.isPhantom_run named.2 made loaded, real]
      simp
  · intro before c env since split rearranges
    subst split
    rw [namedAlong_append] at named
    rw [run_append]
    exact dynamic_next_of_rearranges ((start.run named.1).isReady named.2.1) rearranges

/-- A scene with a dynamic class. -/
def pluginScene : Scene :=
  ofSource { dynamicClasses := ["a.Plugin"] }
    (.memory (MemorySource.empty.add { name := "a.Plugin" }))

/-- A scene with a dynamic class that has no definition, where phantoms are allowed. -/
def ghostScene : Scene :=
  ofSource { dynamicClasses := ["a.Plugin"], allowPhantoms := true } (.memory .empty)

/-- Surroundings without files. -/
def bareSurroundings : Surroundings := ⟨.directory [], []⟩

/-- Loads the dynamic classes, and does something else then. -/
def loadAndThen (calls : List SceneCall) : List (SceneCall × Surroundings) :=
  (.loadDynamic :: calls).map fun c => (c, bareSurroundings)

theorem dynamicClasses_run_pluginScene :
    ⟨0⟩ ∈ (run (loadAndThen [.reclassify ⟨0⟩ .phantom]) pluginScene).dynamic ∧
    (run (loadAndThen [.reclassify ⟨0⟩ .phantom]) pluginScene).core.IsRegistered ⟨0⟩ ∧
    ((run (loadAndThen [.reclassify ⟨0⟩ .phantom]) pluginScene).record ⟨0⟩).level = .bodies ∧
    ((run (loadAndThen [.reclassify ⟨0⟩ .phantom]) pluginScene).record ⟨0⟩).isPhantom = true ∧
    (run (loadAndThen [.reclassify ⟨0⟩ .phantom]) pluginScene).dynamic =
      (run (loadAndThen []) pluginScene).dynamic := by
  have named : NamedAlong (loadAndThen [.reclassify ⟨0⟩ .phantom]) pluginScene :=
    namedAlong_memory (isKept_ofSource _ _) rfl _
  have listed : ⟨0⟩ ∈ (run (loadAndThen [.reclassify ⟨0⟩ .phantom]) pluginScene).dynamic := by
    decide +kernel
  obtain ⟨all, same⟩ := dynamicClasses_run _ _ _ named
  obtain ⟨-, registered, since⟩ := all ⟨0⟩ listed
  obtain ⟨level, phantom⟩ := since (loadAndThen [])
    [(.reclassify ⟨0⟩ .phantom, bareSurroundings)] rfl (by decide +kernel) (by decide +kernel)
  exact ⟨listed, registered.mpr (by decide +kernel), level, phantom.mpr (by decide +kernel),
    same (loadAndThen []) _ bareSurroundings [] rfl trivial⟩

/-- A listed class may be a phantom that was never more, it may have been removed, and it may have
been moved to the phantoms. -/
theorem not_usable_dynamicClasses :
    (NamedAlong (loadAndThen []) ghostScene ∧ ∃ id ∈ (run (loadAndThen []) ghostScene).dynamic,
      ((run (loadAndThen []) ghostScene).record id).isPhantom = true ∧
        ((run (loadAndThen []) ghostScene).record id).level ≠ .bodies) ∧
    (NamedAlong (loadAndThen [.remove ⟨0⟩]) pluginScene ∧
      ∃ id ∈ (run (loadAndThen [.remove ⟨0⟩]) pluginScene).dynamic,
        ¬ (run (loadAndThen [.remove ⟨0⟩]) pluginScene).core.IsRegistered id) ∧
    (NamedAlong (loadAndThen [.reclassify ⟨0⟩ .phantom]) pluginScene ∧
      ∃ id ∈ (run (loadAndThen [.reclassify ⟨0⟩ .phantom]) pluginScene).dynamic,
        ((run (loadAndThen [.reclassify ⟨0⟩ .phantom]) pluginScene).record id).isPhantom = true)
    := by
  have named (o : Options) (m : MemorySource) (calls : List SceneCall) :
      NamedAlong (loadAndThen calls) (ofSource o (.memory m)) :=
    namedAlong_memory (isKept_ofSource _ _) rfl _
  refine ⟨⟨named _ _ _, by decide +kernel⟩, ⟨named _ _ _, ⟨0⟩, by decide +kernel, ?_⟩, named _ _ _,
    by decide +kernel⟩
  intro registered
  exact absurd (Registry.mem_ids_iff.mpr registered) (by decide +kernel)

end Scene

end ClassUniverse
