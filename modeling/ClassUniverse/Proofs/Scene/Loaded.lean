import ClassUniverse.Proofs.Scene.Settling

/-!
# Loaded scenes

Loading a scene over definitions in memory comes to an end, and when it succeeds every class is in
the partition that the options want it in and is loaded as far as that needs.
-/

namespace ClassUniverse

namespace Universe

/-- Whether every class of a universe is in the partition that the options want it in, application
classes have bodies and all that they refer to is registered, resolution is closed, and hierarchies
can be built, for which every chain of superclasses has to end. -/
structure IsArranged (u : Universe) (o : Options) (m : MemorySource) : Prop where
  phantom : ∀ {name id}, u.find? name = some id → (u.record id).isPhantom = true →
    (u.record id).partition = some .phantom
  linked : ∀ {name id}, u.find? name = some id → (u.record id).isPhantom = false →
    .hierarchy ≤ (u.record id).level
  application : ∀ {name id}, u.find? name = some id → (u.record id).isPhantom = false →
    o.Takes m name → (u.record id).partition = some .application
  library : ∀ {name id}, u.find? name = some id → (u.record id).isPhantom = false →
    ¬ o.Takes m name → (u.record id).partition = some .library
  bodies : ∀ {name id}, u.find? name = some id → (u.record id).partition = some .application →
    (u.record id).level = .bodies
  references : ∀ {name id}, u.find? name = some id →
    (u.record id).partition = some .application → ∃ d, m.supply.lookup name = .ok (some d) ∧
      ∀ reference ∈ d.signatureReferences ++ d.bodyReferences, ∃ id, u.find? reference = some id
  closed : u.isClosed = true
  ends : ∀ {name id}, u.find? name = some id → ∃ last,
    (u.catalog.ancestry id).getLast? = some last ∧ u.catalog.superclass? last = none
  tree : ∃ tree, Hierarchy.build u = .ok tree
  index : ∃ index, SubtypeIndex.build u = .ok index

variable {u : Universe} {o : Options} {m : MemorySource} {name : String} {id : ClassId}

theorem IsWellFormed.isPhantom_iff (wf : u.IsWellFormed) (found : u.find? name = some id) :
    (u.record id).isPhantom = true ↔ (u.record id).partition = some .phantom := by
  obtain ⟨p, placed, -, phantom⟩ := (wf.stands found).placed
  rw [placed, ← phantom, Option.some_inj]

theorem IsBuilt.references (h : u.IsBuilt m.supply) (found : u.find? name = some id)
    (real : (u.record id).isPhantom = false) (bodies : .bodies ≤ (u.record id).level) :
    ∃ d, m.supply.lookup name = .ok (some d) ∧
      ∀ reference ∈ d.signatureReferences ++ d.bodyReferences,
        ∃ id, u.find? reference = some id := by
  obtain ⟨d, given, shows⟩ := h.faithful.shows found real
  refine ⟨d, given, fun reference hm => ?_⟩
  rcases List.mem_append.mp hm with hm | hm
  · obtain ⟨id', served⟩ := shows.signatures (Level.le_trans (by decide) bodies) reference hm
    exact ⟨id', served.found⟩
  · by_cases self : reference = d.name
    · exact ⟨id, by rw [self, m.isNamed_supply name d given, found]⟩
    · obtain ⟨id', served⟩ := shows.mentions bodies reference
        (List.mem_filter.mpr ⟨hm, by simpa using self⟩)
      exact ⟨id', served.found⟩

theorem IsBuilt.isArranged (h : u.IsBuilt m.supply) {apps : String → Prop}
    (placed : u.IsPlaced apps apps)
    (rule : ∀ name id, u.find? name = some id → (apps name ↔ o.Takes m name))
    (closed : u.isClosed = true) : u.IsArranged o m := by
  have bodies {name : String} {id : ClassId} (found : u.find? name = some id)
      (app : (u.record id).partition = some .application) :
      (u.record id).isPhantom = false ∧ .bodies ≤ (u.record id).level := by
    have real : (u.record id).isPhantom = false := by
      rw [Bool.eq_false_iff, Ne, h.wf.isPhantom_iff found, app]
      decide
    exact ⟨real, placed.bodies found real ((placed.application found real).mp app)⟩
  exact {
    phantom := fun found => (h.wf.isPhantom_iff found).mp
    linked := h.linked.level
    application := fun found real takes =>
      (placed.application found real).mpr ((rule _ _ found).mpr takes)
    library := fun found real out => placed.library h.wf found real ((rule _ _ found).not.mpr out)
    bodies := fun found app => Level.rank_injective (Nat.le_antisymm (Level.le_bodies _)
      (bodies found app).2)
    references := fun found app => h.references found (bodies found app).1 (bodies found app).2
    closed := closed
    ends := h.linked.ancestry_ends h.wf
    tree := h.linked.builds.1
    index := h.linked.builds.2 }

theorem IsBuilt.close (h : u.IsBuilt m.supply) : { u with isClosed := true }.IsBuilt m.supply where
  wf := h.wf.of_eq rfl rfl rfl
  faithful := h.faithful.of_eq h.wf rfl rfl rfl rfl
  linked := {
    level := h.linked.level
    precedes := fun found link => (h.linked.precedes found link).grows (.of_eq rfl rfl rfl rfl) }

end Universe

namespace Scene

variable {env : Surroundings} {o : Options} {m : MemorySource} {sc t : Scene} {name : String}
  {id : ClassId} {apps : String → Prop}

/-! ## The main class -/

/-- A name is looked up without a change. -/
theorem expect_keeps (held : sc.workspace.holders = .everything) (name : String) :
    Keeps (· = ·) (onUniverse (Universe.expect name)) sc fun id _ =>
      sc.core.find? name = some id := by
  unfold Keeps
  rw [onUniverse_apply held, Universe.expect_apply]
  cases found : sc.core.find? name with
  | none => rfl
  | some id => exact ⟨rfl, rfl⟩

/-- What settling the main class leaves alone. -/
structure SettlesMain (sc t : Scene) : Prop where
  core : t.core = sc.core
  holders : t.workspace.holders = sc.workspace.holders
  source : t.source = sc.source
  dynamic : t.dynamic = sc.dynamic

instance : IsPreorder Scene SettlesMain where
  refl _ := ⟨rfl, rfl, rfl, rfl⟩
  trans _ _ _ first second := ⟨second.core.trans first.core, second.holders.trans first.holders,
    second.source.trans first.source, second.dynamic.trans first.dynamic⟩

theorem setMain_settles (id : ClassId) : Keeps SettlesMain (setMain id) sc fun _ _ => True := by
  unfold setMain
  apply Keeps.get_bind
  exact .optional (P := fun _ => True) (fun _ => .throw _) (fun _ => trivial)
    fun t _ _ => .of_ok rfl ⟨rfl, rfl, rfl, rfl⟩ trivial

theorem expect_settles (held : sc.workspace.holders = .everything) (name : String) :
    Keeps SettlesMain (onUniverse (Universe.expect name)) sc fun _ t =>
      t.workspace.holders = .everything := by
  have same (t : Scene) (h : sc = t) : sc.SettlesMain t := h ▸ refl_of SettlesMain sc
  refine ((expect_keeps held name).weaken same).mono fun _ t settled _ => ?_
  exact settled.holders.trans held

theorem setMainFromOptions_settles (held : sc.workspace.holders = .everything) :
    Keeps SettlesMain setMainFromOptions sc fun _ _ => True := by
  unfold setMainFromOptions
  apply Keeps.get_bind
  by_cases isSet : sc.main.isSome
  · rw [if_pos isSet]
    exact .pure trivial
  rw [if_neg isSet]
  cases sc.options.mainClass.filter fun name => !name.isEmpty with
  | some name =>
      apply (expect_settles held name).bind
      intro id t _ _
      exact setMain_settles id
  | none =>
      refine (Keeps.mapM_of (I := fun t => t.workspace.holders = .everything) _ held
        fun name _ t ht => expect_settles ht name).bind fun named t _ _ => ?_
      cases sc.inferredMain named with
      | some id => exact setMain_settles id
      | none => exact .pure trivial

/-! ## Loading -/

/-- Applies the rules to all classes, and does something else where the rounds run out. -/
def prepareOr (stop : SceneAction Unit) (env : Surroundings) : SceneAction Unit := do
  let definitions := ((← get).source.supply env.files).size
  settleClassesOr stop env (definitions + 2) []

/-- Loads what the options ask for, and does something else where the rounds run out. -/
def loadOr (stop : SceneAction Unit) (env : Surroundings) : SceneAction Unit := do
  gather env
  prepareOr stop env
  onUniverse Universe.close
  setMainFromOptions

theorem IsLoading.prepare (h : sc.IsLoading o m (o.Chooses m) (o.Chooses m))
    (stop : SceneAction Unit) (env : Surroundings) :
    prepareOr stop env sc = Scene.prepare env sc ∧ Ends (Scene.prepare env) sc fun _ t => ∃ met,
      t.IsLoading o m (o.Places m met) (o.Places m met) ∧ t.pending met = [] := by
  have start : sc.IsLoading o m (o.Places m []) (o.Places m []) :=
    h.of_iff Options.places_nil Options.places_nil
  have size : (sc.source.supply env.files).size = m.supply.size := by rw [h.source]; rfl
  have enough : m.unmet [] + 2 ≤ (sc.source.supply env.files).size + 2 := by
    have := m.unmet_le []
    omega
  exact start.settle enough stop env

theorem IsLoading.close {met : List String} (h : sc.IsLoading o m (o.Places m met) (o.Places m met))
    (settled : sc.pending met = []) :
    Ends (onUniverse Universe.close) sc fun _ t =>
      t.core.IsArranged o m ∧ t.workspace.holders = .everything := by
  have done : onUniverse Universe.close sc =
      .ok () (sc.withCore { sc.core with isClosed := true }) := by
    rw [onUniverse_apply h.held]
    rfl
  have placed : { sc.core with isClosed := true }.IsPlaced (o.Places m met) (o.Places m met) :=
    ⟨h.placed.application, h.placed.bodies, h.placed.known⟩
  refine .of_ok done trivial ⟨h.built.close.isArranged placed ?_ rfl, h.held⟩
  intro name id found
  have named : (sc.record id).name = name := (h.built.wf.stands found).named
  have isMet : name ∈ met := by
    by_contra new
    have pending : id ∈ sc.pending met := mem_pending_iff.mpr ⟨⟨name, found⟩, named ▸ new⟩
    rw [settled] at pending
    cases pending
  simp [Options.Places, isMet]

theorem load_ends (env : Surroundings) (o : Options) (m : MemorySource) :
    Ends (load env) (ofSource o (.memory m)) fun _ t => t.core.IsArranged o m := by
  unfold load
  refine ((isLoading_ofSource o m).gather env).bind fun _ t _ ht => ?_
  refine (ht.prepare (pure ()) env).2.bind fun _ t _ ⟨met, ht, settled⟩ => ?_
  refine (ht.close settled).bind fun _ t _ ⟨arranged, held⟩ => ?_
  exact (setMainFromOptions_settles held).ends fun _ v settled _ => settled.core ▸ arranged

theorem loadOr_eq (stop : SceneAction Unit) (env : Surroundings) (o : Options) (m : MemorySource) :
    loadOr stop env (ofSource o (.memory m)) = load env (ofSource o (.memory m)) := by
  have gathered := (isLoading_ofSource o m).gather env
  unfold Ends Keeps at gathered
  simp only [loadOr, load, bind_apply]
  cases hg : gather env (ofSource o (.memory m)) with
  | error e t => rfl
  | ok a t =>
      rw [hg] at gathered
      simp only [(gathered.2.prepare stop env).1]

/-- Over definitions in memory neither resolution nor the rounds of the rules ever reach their
bounds, so that loading a scene ends by itself, and when it succeeds all classes are as the options
want them. -/
theorem isArranged_load (env : Surroundings) (o : Options) (m : MemorySource) :
    (∀ stop mode name level, Universe.resolveOr stop m.supply mode name level =
      Universe.resolve m.supply mode name level) ∧
    (∀ stop, loadOr stop env (ofSource o (.memory m)) = load env (ofSource o (.memory m))) ∧
    ∀ sc, load env (ofSource o (.memory m)) = .ok () sc → sc.core.IsArranged o m :=
  ⟨fun stop mode name level => Universe.resolveOr_eq stop m.isBounded_supply mode name level,
    fun stop => loadOr_eq stop env o m, fun _ loaded => ((load_ends env o m).ok loaded).2⟩

/-- Options that name a class, list a directory and exclude a package. -/
def smallOptions : Options :=
  { classes := ["a.Task"], processDirs := ["classes"], excluded := ["b.*"] }

/-- A source with a basic class, a class to name, and a class of a package in a directory. -/
def smallLibrary : MemorySource :=
  ((MemorySource.empty.add { name := "java.lang.Object" }).add
    { name := "a.Task", superclass := some "java.lang.Object" }).addAt "classes"
      { name := "b.Left" }

theorem isArranged_load_smallLibrary :
    ∃ sc, load ⟨.directory [], []⟩ (ofSource smallOptions (.memory smallLibrary)) = .ok () sc ∧
      sc.core.IsArranged smallOptions smallLibrary := by
  have succeeds : succeeds (load ⟨.directory [], []⟩)
      (ofSource smallOptions (.memory smallLibrary)) = true := by decide +kernel
  obtain ⟨_, sc, loaded⟩ := exists_of_succeeds succeeds
  exact ⟨sc, loaded, (isArranged_load _ smallOptions smallLibrary).2.2 sc loaded⟩

end Scene

end ClassUniverse
