import ClassUniverse.Proofs.Resolution.Order
import ClassUniverse.Proofs.Resolution.Retained
import ClassUniverse.Proofs.Scene.Loaded

/-!
# The steps of loading

Before the main class is settled, loading changes a scene in few ways: it puts down the basic and
the dynamic classes, it asks the source for classes, and it moves classes to the application and to
the library.  Whatever these keep, loading keeps.
-/

namespace ClassUniverse

open Relation (ReflTransGen)

namespace Universe

/-- A registered class of which instances can be made, loaded with bodies. -/
structure Admits (u : Universe) (id : ClassId) : Prop where
  registered : u.IsRegistered id
  concrete : (u.record id).modifiers.isConcrete = true
  loaded : u.isLoaded id .bodies = true

variable {u v : Universe} {id : ClassId}

theorem IsWellFormed.isMade_of_isRegistered (wf : u.IsWellFormed) (h : u.IsRegistered id) :
    u.catalog.IsMade id := by
  obtain ⟨name, found⟩ := h
  exact (wf.stands found).made

theorem Admits.spares (h : u.Admits id) (spares : u.Spares v id) : v.Admits id where
  registered := spares.registered.mpr h.registered
  concrete := by rw [spares.modifiers, h.concrete]
  loaded := spares.isLoaded h.loaded

end Universe

namespace Scene

variable {α : Type} {env : Surroundings} {m : MemorySource} {sc t : Scene}

/-- One step of loading. -/
inductive Stage (env : Surroundings) (sc : Scene) : Scene → Prop
  | basic (basic : OrderedMap Level) : Stage env sc { sc with basic := basic }
  | dynamic (ids : List ClassId) (admitted : ∀ id ∈ ids, sc.core.Admits id) :
      Stage env sc { sc with dynamic := ids }
  | asked : Stage env sc { sc with source := sc.source.asked env.files }
  | request (q : Request) :
      Stage env sc (sc.withCore (q.run (sc.source.supply env.files) sc.core))
  | reclassify (id : ClassId) (p : Partition) (kind : p ≠ .phantom) :
      Stage env sc (sc.withCore ((Call.reclassify id p).run sc.core))

/-- A scene where everything is held from outside, over a source that keeps each definition under
its own name. -/
structure IsReady (env : Surroundings) (sc : Scene) : Prop where
  held : sc.workspace.holders = .everything
  wellFormed : sc.core.IsWellFormed
  named : (sc.source.supply env.files).IsNamed

theorem Stage.isReady (step : Stage env sc t) (h : sc.IsReady env) : t.IsReady env := by
  cases step with
  | basic | dynamic => exact ⟨h.held, h.wellFormed, h.named⟩
  | asked =>
      refine ⟨h.held, h.wellFormed, ?_⟩
      rw [ClassSource.supply_asked]
      exact h.named
  | request q =>
      have wf : (q.run (sc.source.supply env.files) sc.core).IsWellFormed :=
        (Call.request _ q).isWellFormed_run h.wellFormed
      exact ⟨h.held, wf, h.named⟩
  | reclassify id p kind =>
      have wf := (Call.reclassify id p).isWellFormed_run h.wellFormed
      exact ⟨h.held, wf, h.named⟩

/-- What becomes of a scene by steps of loading. -/
def Leads (env : Surroundings) (sc t : Scene) : Prop :=
  sc.IsReady env → ReflTransGen (Stage env) sc t

theorem IsReady.steps (h : sc.IsReady env) (steps : ReflTransGen (Stage env) sc t) :
    t.IsReady env := by
  induction steps with
  | refl => exact h
  | tail _ step ih => exact step.isReady ih

instance (env : Surroundings) : IsPreorder Scene (Leads env) where
  refl _ _ := .refl
  trans _ _ _ first second ready := by
    have steps := first ready
    exact steps.trans (second (ready.steps steps))

theorem Stage.spares {id : ClassId} (step : Stage env sc t) (h : sc.IsReady env)
    (made : sc.core.catalog.IsMade id) : sc.core.Spares t.core id := by
  cases step with
  | basic | dynamic | asked => exact .refl made
  | request q => exact Request.spares h.wellFormed _ q made
  | reclassify other p kind => exact Universe.spares_reclassify made fun _ => kind

theorem IsReady.spares {id : ClassId} (h : sc.IsReady env)
    (steps : ReflTransGen (Stage env) sc t) (made : sc.core.catalog.IsMade id) :
    sc.core.Spares t.core id := by
  induction steps with
  | refl => exact .refl made
  | @tail v w before step ih => exact ih.trans (step.spares (h.steps before) ih.made)

/-! ## Loading by steps -/

/-- Whether an operation does nothing to a scene but steps of loading. -/
abbrev Stages (env : Surroundings) (x : SceneAction α) (sc : Scene) : Prop :=
  Keeps (Leads env) x sc fun _ _ => True

theorem after_return_some (x : Action α) (u : Universe) :
    after (do return some (← x)) u = after x u := by
  unfold after
  rw [bind_apply]
  cases x u <;> rfl

theorem stages_of_not_isReady {x : SceneAction α} (h : ¬ sc.IsReady env) : Stages env x sc := by
  have leads (t : Scene) : Leads env sc t := fun ready => absurd ready h
  unfold Stages Keeps
  cases x sc with
  | ok a t => exact ⟨leads t, trivial⟩
  | error e t => exact leads t

theorem onUniverse_stages {x : Action α} (step : Stage env sc (sc.withCore (after x sc.core))) :
    Stages env (onUniverse x) sc := by
  by_cases ready : sc.IsReady env
  · unfold Stages Keeps
    rw [onUniverse_apply ready.held]
    unfold after at step
    cases outcome : x sc.core with
    | ok a u =>
        rw [outcome] at step
        exact ⟨fun _ => .single step, trivial⟩
    | error e u =>
        rw [outcome] at step
        exact fun _ => .single step
  · exact stages_of_not_isReady ready

theorem resolving_stages {action : Supply → Action α} (q : Request)
    (asks : ∀ s u, after (action s) u = q.run s u) : Stages env (resolving env action) sc := by
  have requested : Stages env (onUniverse (action (sc.source.supply env.files))) sc := by
    apply onUniverse_stages
    rw [asks]
    exact .request q
  have settled {t : Scene} (steps : Leads env sc t) : Leads env sc
      (if t.core.hasAsked then { t with source := t.source.asked env.files } else t) := by
    intro ready
    split
    · exact (steps ready).tail .asked
    · exact steps ready
  unfold Stages Keeps at requested ⊢
  unfold resolving
  cases outcome : onUniverse (action (sc.source.supply env.files)) sc with
  | ok a t =>
      rw [outcome] at requested
      exact ⟨settled requested.1, trivial⟩
  | error e t =>
      rw [outcome] at requested
      exact settled requested

theorem reclassify_stages (id : ClassId) {p : Partition} (kind : p ≠ .phantom) :
    Stages env (onUniverse (Universe.reclassify id p)) sc :=
  onUniverse_stages (.reclassify id p kind)

theorem loadWithSupport_stages (name : String) :
    Stages env (resolving env fun s => Universe.loadWithSupport s name) sc :=
  resolving_stages (.loadWithSupport name) fun _ _ => (after_return_some _ _).symm

/-- What an operation on the universe gives holds of the scene. -/
theorem resolving_ends {action : Supply → Action α} {R : Universe → Universe → Prop}
    {post : α → Universe → Prop} (held : sc.workspace.holders = .everything)
    (keeps : Keeps R (action (sc.source.supply env.files)) sc.core post) :
    Ends (resolving env action) sc fun a t => post a t.core := by
  unfold Ends Keeps resolving
  rw [onUniverse_apply held]
  cases outcome : action (sc.source.supply env.files) sc.core with
  | error e u => trivial
  | ok a u =>
      refine ⟨trivial, ?_⟩
      dsimp only
      split <;> exact (keeps.ok outcome).2

theorem loadWithSupport_serves (ready : sc.IsReady env) (name : String) :
    Keeps (Leads env) (resolving env fun s => Universe.loadWithSupport s name) sc fun id t =>
      t.core.Serves name .bodies id := by
  have loads : Keeps (Moves (sc.source.supply env.files) .hierarchy)
      (Universe.loadWithSupport (sc.source.supply env.files) name) sc.core fun id v =>
        (sc.source.supply env.files).IsTrueTo name → v.Serves name .bodies id :=
    Universe.loadWithSupport_keeps ready.wellFormed (Nat.le_refl _)
  refine ((loadWithSupport_stages name).and (resolving_ends ready.held loads)).mono ?_
  intro id t _ both
  exact both.2 (ready.named name)

theorem tryLoad_stages (name : String) (level : Level) :
    Stages env (resolving env fun s => Universe.tryLoad s name level) sc :=
  resolving_stages (.tryLoad name level) fun _ _ => rfl

/-- One operation after the other for some entries. -/
theorem forM_stages {γ : Type} {g : γ → SceneAction Unit} (l : List γ)
    (each : ∀ a t, Stages env (g a) t) : Stages env (l.forM g) sc :=
  Keeps.forM_prefix (I := fun _ _ => True) l trivial fun _ a _ t _ => each a t

theorem foldlM_stages {β γ : Type} {g : β → γ → SceneAction β} (l : List γ) (b : β)
    (each : ∀ b a t, Stages env (g b a) t) : Stages env (l.foldlM g b) sc :=
  Keeps.foldlM (I := fun _ _ => True) l b trivial fun b a _ t _ => each b a t

theorem mapM_stages {β γ : Type} {g : γ → SceneAction β} (l : List γ)
    (each : ∀ a t, Stages env (g a) t) : Stages env (l.mapM g) sc :=
  Keeps.mapM_of (I := fun _ => True) l trivial fun a _ t _ => each a t

theorem addBasic_stages (name : String) (level : Level) : Stages env (addBasic name level) sc :=
  .of_ok rfl (fun _ => .single (.basic _)) trivial

theorem addTraceClasses_stages : Stages env (addTraceClasses env) sc := by
  unfold addTraceClasses
  apply Keeps.get_bind
  cases sc.options.reflectionLog with
  | none => exact .pure trivial
  | some log =>
      dsimp only
      cases env.files.readText log with
      | error problem => exact .throw _
      | ok text =>
          dsimp only
          cases ReflectionTrace.classes text with
          | error e => exact .throw e
          | ok names => exact forM_stages names fun name _ => addBasic_stages name .bodies

theorem loadBasicAt_stages (basic : List (String × Level)) (level : Level) :
    Stages env (loadBasicAt env basic level) sc := by
  unfold loadBasicAt
  apply foldlM_stages
  intro loaded entry t
  apply (tryLoad_stages entry.1 level).bind
  intro answer v _ _
  cases answer with
  | none => exact .pure trivial
  | some id => exact .get_bind (.pure trivial)

theorem loadBasic_stages : Stages env (loadBasic env) sc := by
  unfold loadBasic
  apply addTraceClasses_stages.bind
  intro _ t _ _
  apply Keeps.get_bind
  apply (forM_stages _ fun name _ => addBasic_stages name .hierarchy).bind
  intro _ t _ _
  apply Keeps.get_bind
  apply (loadBasicAt_stages _ .bodies).bind
  intro bodies t _ _
  apply (loadBasicAt_stages _ .signatures).bind
  intro signatures t _ _
  apply (loadBasicAt_stages _ .hierarchy).bind
  intro hierarchy t _ _
  exact .optional (P := fun _ => True) (fun _ => .throw _) (fun _ => trivial)
    fun _ _ _ => .pure trivial

theorem loadApplication_stages (name : String) : Stages env (loadApplication env name) sc := by
  unfold loadApplication
  apply (loadWithSupport_stages name).bind
  intro id t _ _
  apply Keeps.get_bind
  split
  · exact reclassify_stages id (by decide)
  · exact .pure trivial

theorem classesUnder_stages (location : String) : Stages env (classesUnder env location) sc := by
  unfold classesUnder
  apply Keeps.get_bind
  split
  · exact .pure trivial
  · exact .throw _

theorem classesIn_stages (package : String) : Stages env (classesIn env package) sc :=
  .of_ok rfl (fun _ => .single .asked) trivial

/-- The class of one more name is kept or left out, and those kept before are admitted still. -/
theorem keepConcrete_admits {kept : List ClassId} (ready : sc.IsReady env)
    (admitted : ∀ id ∈ kept, sc.core.Admits id) (name : String) :
    Keeps (Leads env) (do
      let id ← resolving env fun s => Universe.loadWithSupport s name
      return if ((← get).record id).modifiers.isConcrete then kept ++ [id] else kept) sc
      fun kept t => t.IsReady env ∧ ∀ id ∈ kept, t.core.Admits id := by
  apply (loadWithSupport_serves ready name).bind
  intro id t leads served
  have steps := leads ready
  have still : ∀ other ∈ kept, t.core.Admits other := by
    intro other hm
    have before := admitted other hm
    have made := ready.wellFormed.isMade_of_isRegistered before.registered
    exact before.spares (ready.spares steps made)
  refine .get_bind (.pure ⟨ready.steps steps, ?_⟩)
  split
  next concrete =>
    intro other hm
    rcases List.mem_append.mp hm with hm | hm
    · exact still other hm
    · rw [List.mem_singleton] at hm
      subst hm
      exact ⟨⟨name, served.found⟩, concrete, served.loaded⟩
  next => exact still

theorem loadDynamic_stages : Stages env (loadDynamic env) sc := by
  by_cases ready : sc.IsReady env
  · unfold loadDynamic
    apply Keeps.get_bind
    apply (mapM_stages _ fun location _ => classesUnder_stages location).bind
    intro ofDirs t leads _
    have ready := ready.steps (leads ready)
    apply (mapM_stages _ fun package _ => classesIn_stages package).bind
    intro ofPackages t leads _
    have ready := ready.steps (leads ready)
    refine (Keeps.foldlM (I := fun kept v => v.IsReady env ∧ ∀ id ∈ kept, v.core.Admits id) _ []
      ⟨ready, fun _ none => nomatch none⟩ fun kept name _ t so => ?_).bind ?_
    · exact keepConcrete_admits so.1 so.2 name
    · intro ids t _ so
      exact .of_ok rfl (fun _ => .single (.dynamic ids so.2)) trivial
  · exact stages_of_not_isReady ready

theorem gather_stages : Stages env (gather env) sc := by
  unfold gather
  apply loadBasic_stages.bind
  intro _ t _ _
  apply Keeps.get_bind
  apply (forM_stages _ fun name _ => loadApplication_stages name).bind
  intro _ t _ _
  apply loadDynamic_stages.bind
  intro _ t _ _
  apply Keeps.get_bind
  apply forM_stages
  intro directory t
  apply (classesUnder_stages directory).bind
  intro names t _ _
  exact forM_stages names fun name _ => loadApplication_stages name

/-- A class that is moved to a partition under a condition. -/
theorem reclassifyIf_stages {β : Type} {c : Prop} [Decidable c] {f : PUnit → SceneAction β}
    {id : ClassId} {p : Partition} (kind : p ≠ .phantom) (rest : ∀ t, Stages env (f ⟨⟩) t) :
    Stages env (if c then onUniverse (Universe.reclassify id p) >>= f else f ⟨⟩) sc :=
  .optional (P := fun _ => True) (fun _ => reclassify_stages id kind) (fun _ => trivial)
    fun t _ _ => rest t

theorem applyRules_stages (id : ClassId) : Stages env (applyRules env id) sc := by
  unfold applyRules
  apply Keeps.get_bind
  apply Keeps.get_bind
  apply reclassifyIf_stages (by decide)
  intro t
  split
  · exact reclassify_stages id (by decide)
  apply Keeps.get_bind
  apply Keeps.get_bind
  apply reclassifyIf_stages (by decide)
  intro t
  apply Keeps.get_bind
  apply reclassifyIf_stages (by decide)
  intro t
  apply Keeps.get_bind
  split
  · apply (loadWithSupport_stages _).bind
    intro _ t _ _
    exact .pure trivial
  · exact .pure trivial

theorem settleClasses_stages (rounds : Nat) (met : List String) :
    Stages env (settleClasses env rounds met) sc := by
  induction rounds generalizing sc met with
  | zero => exact .pure trivial
  | succ rounds ih =>
      unfold settleClasses
      apply Keeps.get_bind
      split
      · exact .pure trivial
      apply (forM_stages _ fun id t => ?_).bind
      · intro _ t _ _
        exact ih _
      · apply Keeps.get_bind
        split
        · exact applyRules_stages id
        · exact .pure trivial

theorem prepare_stages : Stages env (prepare env) sc := by
  unfold prepare
  apply Keeps.get_bind
  exact settleClasses_stages _ []

end Scene

/-! ## What the steps keep -/

namespace Universe

/-- What holds of a universe of classes from one supply, whatever levels they are at. -/
structure IsDrawnFrom (u : Universe) (s : Supply) : Prop where
  wellFormed : u.IsWellFormed
  faithful : u.IsFaithful s
  kinded : u.IsKinded s
  bare : u.IsBare

variable {s : Supply} {u v : Universe} {id : ClassId} {p : Partition}

theorem isDrawnFrom_empty (recycles allowPhantoms : Bool) (s : Supply) :
    (empty recycles allowPhantoms).IsDrawnFrom s :=
  ⟨isWellFormed_empty _ _, isFaithful_empty _ _ s, isKinded_empty _ _ s, isBare_empty _ _⟩

namespace IsDrawnFrom

theorem moves (h : u.IsDrawnFrom s) (named : s.IsNamed) {floor : Level} (m : Moves s floor u v) :
    v.IsDrawnFrom s where
  wellFormed := Moves.isWellFormed h.wellFormed m
  faithful := Moves.isFaithful h.wellFormed named h.faithful m
  kinded := Moves.isKinded h.wellFormed named h.faithful h.kinded m
  bare := Moves.isBare h.wellFormed named h.faithful h.bare m

theorem close (h : u.IsDrawnFrom s) : { u with isClosed := true }.IsDrawnFrom s where
  wellFormed := h.wellFormed.of_eq rfl rfl rfl
  faithful := h.faithful.of_eq h.wellFormed rfl rfl rfl rfl
  kinded := h.kinded.of_eq rfl rfl
  bare := h.bare

/-- A class that is moved to the application or to the library was no phantom and becomes none. -/
theorem moved {name : String} (h : u.IsDrawnFrom s) (found : u.find? name = some id)
    (real : (u.record id).isPhantom = false) (kind : p ≠ .phantom) :
    (u.moved id p).IsDrawnFrom s := by
  have record := record_moved_self (h.wellFormed.stands found).made p
  have still : ((u.moved id p).record id).isPhantom = false := by
    rw [record]
    exact Bool.or_eq_false_iff.mpr ⟨real, by simpa using kind⟩
  constructor
  · exact h.wellFormed.moved found fun phantom => absurd phantom (Bool.eq_false_iff.mp real)
  · exact h.faithful.moved h.wellFormed found p
  · apply h.kinded.of_touches h.wellFormed (touches_moved u id p)
    intro other found'
    rw [find?_moved] at found'
    constructor
    · intro _ d given
      rw [record]
      exact (h.kinded other id found').flags real d given
    · intro phantom
      rw [still] at phantom
      cases phantom
  · apply h.bare.of_touches h.wellFormed (touches_moved u id p)
    intro other found'
    constructor
    · intro phantom
      rw [still] at phantom
      cases phantom
    · rw [record]
      exact (h.bare name id found).dangling

theorem request (h : u.IsDrawnFrom s) (named : s.IsNamed) (q : Request) :
    (q.run s u).IsDrawnFrom s := by
  cases run_request h.wellFormed s q with
  | inl moves => exact h.moves named moves
  | inr closed =>
      rw [closed]
      exact h.close

theorem reclassify (h : u.IsDrawnFrom s) (id : ClassId) (kind : p ≠ .phantom) :
    ((Call.reclassify id p).run u).IsDrawnFrom s := by
  simp only [Call.run]
  rw [after_reclassify]
  split
  next allowed =>
    rw [Bool.and_eq_true, Bool.not_eq_true', Bool.and_eq_false_iff] at allowed
    obtain ⟨name, found⟩ := h.wellFormed.isManaged_iff.mp allowed.1
    have real := allowed.2.resolve_right (by simpa using kind)
    exact h.moved found real kind
  next => exact h

end IsDrawnFrom

end Universe

namespace Scene

variable {env : Surroundings} {m : MemorySource} {sc t : Scene}

/-- What holds of a scene over definitions in memory before its main class is settled. -/
structure IsMainless (sc : Scene) (m : MemorySource) : Prop where
  source : sc.source = .memory m
  held : sc.workspace.holders = .everything
  main : sc.main = none
  rule : sc.rule = .standard
  core : sc.core.IsDrawnFrom m.supply

theorem isMainless_ofSource (o : Options) (m : MemorySource) :
    (ofSource o (.memory m)).IsMainless m :=
  ⟨rfl, rfl, rfl, rfl, Universe.isDrawnFrom_empty _ _ _⟩

theorem IsMainless.isReady (h : sc.IsMainless m) (env : Surroundings) : sc.IsReady env where
  held := h.held
  wellFormed := h.core.wellFormed
  named := by
    rw [h.source]
    exact m.isNamed_supply

theorem IsMainless.withCore {u : Universe} (h : sc.IsMainless m) (core : u.IsDrawnFrom m.supply) :
    (sc.withCore u).IsMainless m :=
  ⟨h.source, h.held, h.main, h.rule, core⟩

theorem Stage.isMainless (h : sc.IsMainless m) (step : Stage env sc t) : t.IsMainless m := by
  have supply : sc.source.supply env.files = m.supply := by
    rw [h.source]
    rfl
  cases step with
  | basic | dynamic => exact ⟨h.source, h.held, h.main, h.rule, h.core⟩
  | asked =>
      have source : sc.source.asked env.files = .memory m := by
        rw [h.source]
        rfl
      exact ⟨source, h.held, h.main, h.rule, h.core⟩
  | request q =>
      rw [supply]
      exact h.withCore (h.core.request m.isNamed_supply q)
  | reclassify id p kind => exact h.withCore (h.core.reclassify id kind)

theorem IsMainless.steps (h : sc.IsMainless m) (steps : ReflTransGen (Stage env) sc t) :
    t.IsMainless m := by
  induction steps with
  | refl => exact h
  | tail _ step ih => exact step.isMainless ih

/-- Steps of loading leave a scene without a main class. -/
theorem Stages.isMainless {α : Type} {x : SceneAction α} (stages : Stages env x sc)
    (h : sc.IsMainless m) : Ends x sc fun _ t => t.IsMainless m :=
  Keeps.ends stages fun _ _ leads _ => h.steps (leads (h.isReady env))

end Scene

end ClassUniverse
