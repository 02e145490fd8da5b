import ClassUniverse.Proofs.Resolution.Supplied
import ClassUniverse.Proofs.Scene.Traces
import ClassUniverse.Proofs.Workspace.Upkeep
import ClassUniverse.Scene.Loading

/-!
# The basic classes

The table of basic classes takes up the classes of the reflection log and those of the runtime, and
is loaded from the highest level down.  What counts is which of its names have definitions: each of
them is loaded to its level and counted, whichever classes were there before.
-/

namespace ClassUniverse

namespace Level

theorem max_bodies (a : Level) : a.max bodies = bodies := by
  cases a <;> rfl

theorem max_eq_left {a b : Level} (h : b ≤ a) : a.max b = a := by
  revert h
  cases a <;> cases b <;> decide

theorem max_max (a b : Level) : (a.max b).max b = a.max b := by
  cases a <;> cases b <;> rfl

end Level

/-! ## The table -/

namespace OrderedMap

variable {α : Type} {pairs : List (String × α)} {m : OrderedMap α} {key : String} {value : α}

theorem mem_or_of_get?_foldl_insert
    (found : (pairs.foldl (fun m pair => m.insert pair.1 pair.2) m).get? key = some value) :
    (key, value) ∈ pairs ∨ m.get? key = some value := by
  induction pairs generalizing m with
  | nil => exact .inr found
  | cons pair pairs ih =>
      rcases ih found with later | held
      · exact .inl (List.mem_cons_of_mem _ later)
      · rw [get?_insert] at held
        split at held
        · rename_i same
          cases held
          exact .inl (List.mem_cons.mpr (.inl (by rw [same])))
        · exact .inr held

/-- Whatever keys come twice, a table of pairs has no other pairs. -/
theorem mem_of_get?_ofList (found : (ofList pairs).get? key = some value) : (key, value) ∈ pairs :=
  (mem_or_of_get?_foldl_insert found).resolve_right nofun

end OrderedMap

namespace BasicClasses

variable {basic : OrderedMap Level} {names : List String} {name other : String} {level : Level}

theorem get?_raise : (raise basic name level).get? other =
    if other = name then some (((basic.get? other).getD level).max level)
    else basic.get? other := by
  unfold raise
  rw [OrderedMap.get?_insert]
  split
  · rename_i same
    rw [same]
  · rfl

/-- The table in which some classes have at least a level. -/
def raiseAll (basic : OrderedMap Level) (names : List String) (level : Level) : OrderedMap Level :=
  names.foldl (fun basic name => raise basic name level) basic

theorem get?_raiseAll : (raiseAll basic names level).get? other =
    if other ∈ names then some (((basic.get? other).getD level).max level)
    else basic.get? other := by
  induction names generalizing basic with
  | nil => rfl
  | cons name names ih =>
      change (raiseAll (raise basic name level) names level).get? other = _
      rw [ih, get?_raise]
      by_cases same : other = name
      · rw [if_pos same, if_pos (List.mem_cons.mpr (.inl same)), Option.getD_some, Level.max_max,
          ite_self]
      · rw [if_neg same]
        simp only [List.mem_cons, same, false_or]

/-- A scene begins with basic classes at `hierarchy` and above. -/
theorem hierarchy_le_of_table (found : table.get? name = some level) : .hierarchy ≤ level := by
  have listed := OrderedMap.mem_of_get?_ofList found
  rcases List.mem_append.mp listed with linked | shaped
  · obtain ⟨_, -, ⟨⟩⟩ := List.mem_map.mp linked
    decide
  · obtain ⟨_, -, ⟨⟩⟩ := List.mem_map.mp shaped
    decide

end BasicClasses

/-- A source is honest, unless it is given from outside and is not. -/
theorem ClassSource.isHonest_supply {source : ClassSource} {t : FileTree}
    (given : ∀ answers, source = .other answers → (answers t).IsHonest) :
    (source.supply t).IsHonest := by
  cases source with
  | memory m => exact m.isHonest_supply
  | path p => exact p.isHonest_supply t
  | other answers => exact given answers rfl

namespace Scene

variable {α : Type} {env : Surroundings} {s : Supply} {sc t : Scene} {name : String}
  {level : Level} {names : List String} {entries : List (String × Level)}

theorem addBasic_forM (names : List String) (level : Level) (sc : Scene) :
    (names.forM fun name => addBasic name level) sc =
      .ok () { sc with basic := BasicClasses.raiseAll sc.basic names level } := by
  induction names generalizing sc with
  | nil => rfl
  | cons name names ih =>
      exact ih { sc with basic := BasicClasses.raise sc.basic name level }

/-- Whether a line of the reflection log of a scene names a class. -/
def IsLogged (sc : Scene) (env : Surroundings) (name : String) : Prop :=
  ∃ log text, sc.options.reflectionLog = some log ∧ env.files.readText log = .ok text ∧
    ∃ line ∈ ReflectionTrace.lines text, ∃ named, ReflectionTrace.Names line named ∧ name ∈ named

/-- The classes of the log are added with bodies, or nothing is. -/
theorem addTraceClasses_cases (env : Surroundings) (sc : Scene) :
    (∃ e, addTraceClasses env sc = .error e sc ∧ e ≠ .noBasicClassesLoaded) ∨
      ∃ names, (∀ name, name ∈ names ↔ sc.IsLogged env name) ∧ addTraceClasses env sc =
        .ok () { sc with basic := BasicClasses.raiseAll sc.basic names .bodies } := by
  unfold addTraceClasses IsLogged
  rw [bind_apply, get_apply]
  dsimp only
  cases isLog : sc.options.reflectionLog with
  | none => exact .inr ⟨[], fun name => by simp, rfl⟩
  | some log =>
      dsimp only
      cases read : env.files.readText log with
      | error problem => exact .inl ⟨_, rfl, nofun⟩
      | ok text =>
          dsimp only
          cases traced : ReflectionTrace.classes text with
          | error e => exact .inl ⟨e, rfl, ReflectionTrace.ne_of_classes_eq_error traced⟩
          | ok names =>
              refine .inr ⟨names, fun name => ?_, addBasic_forM names .bodies sc⟩
              rw [(ReflectionTrace.names_of_classes_eq_ok traced).2 name]
              constructor
              · exact fun named => ⟨log, text, rfl, read, named⟩
              · rintro ⟨_, _, ⟨⟩, read', named⟩
                cases read.symm.trans read'
                exact named

theorem addTraceClasses_unreadable {log line : String} {text : List Char}
    (isLog : sc.options.reflectionLog = some log) (read : env.files.readText log = .ok text)
    (hm : line ∈ ReflectionTrace.lines text)
    (unreadable : ∀ named, ¬ ReflectionTrace.Names line named) :
    ∃ e, addTraceClasses env sc = .error e sc := by
  obtain ⟨e, failed⟩ := ReflectionTrace.exists_error_of_unreadable hm unreadable
  refine ⟨e, ?_⟩
  unfold addTraceClasses
  rw [bind_apply, get_apply]
  dsimp only
  rw [isLog]
  dsimp only
  rw [read]
  dsimp only
  rw [failed]
  rfl

/-- Whether a table has the basic classes of a scene: those of the log with bodies, and the others
at the level that they had, those of the runtime at least at `hierarchy`. -/
structure Gathers (sc : Scene) (env : Surroundings) (basic : OrderedMap Level) : Prop where
  logged : ∀ name, sc.IsLogged env name → basic.get? name = some .bodies
  unlogged : ∀ name, ¬ sc.IsLogged env name → basic.get? name = (sc.basic.get? name).or
    (if name ∈ sc.classPath.runtimeClasses then some .hierarchy else none)

theorem gathers_raiseAll (high : ∀ name level, sc.basic.get? name = some level → .hierarchy ≤ level)
    (named : ∀ name, name ∈ names ↔ sc.IsLogged env name) :
    sc.Gathers env (BasicClasses.raiseAll (BasicClasses.raiseAll sc.basic names .bodies)
      sc.classPath.runtimeClasses .hierarchy) where
  logged name isLogged := by
    rw [BasicClasses.get?_raiseAll, BasicClasses.get?_raiseAll, if_pos ((named name).mpr isLogged),
      Level.max_bodies, Option.getD_some]
    exact ite_self _
  unlogged name isUnlogged := by
    rw [BasicClasses.get?_raiseAll, BasicClasses.get?_raiseAll,
      if_neg (mt (named name).mp isUnlogged)]
    cases old : sc.basic.get? name with
    | none => rfl
    | some level =>
        rw [Option.getD_some, Level.max_eq_left (high name level old)]
        exact ite_self _

theorem Gathers.high {basic : OrderedMap Level} (h : sc.Gathers env basic)
    (high : ∀ name level, sc.basic.get? name = some level → .hierarchy ≤ level)
    (found : basic.get? name = some level) : .hierarchy ≤ level := by
  by_cases isLogged : sc.IsLogged env name
  · rw [h.logged name isLogged] at found
    cases found
    decide
  · rw [h.unlogged name isLogged] at found
    cases old : sc.basic.get? name with
    | some level' =>
        rw [old] at found
        cases found
        exact high name _ old
    | none =>
        rw [old, Option.none_or] at found
        split at found <;> cases found
        decide

/-! ## Loading one class -/

/-- A scene whose source answers as a supply does and whose classes come from that supply. -/
structure IsSuppliedBy (sc : Scene) (env : Surroundings) (s : Supply) : Prop where
  supply : sc.source.supply env.files = s
  core : sc.core.IsSupplied s

/-- A change of a scene that leaves the table alone and keeps classes loaded. -/
structure Sustains (sc t : Scene) : Prop where
  basic : t.basic = sc.basic
  serves : ∀ {name level id}, sc.core.Serves name level id → t.core.Serves name level id

instance : IsPreorder Scene Sustains where
  refl _ := ⟨rfl, fun h => h⟩
  trans _ _ _ first second :=
    ⟨second.basic.trans first.basic, fun h => second.serves (first.serves h)⟩

/-- The scene after an operation that has left a universe. -/
def settled (sc : Scene) (env : Surroundings) (u : Universe) : Scene :=
  let t := { sc with workspace := Workspace.letGo { sc.workspace with core := u } }
  if t.core.hasAsked then { t with source := t.source.asked env.files } else t

theorem resolving_eq (env : Surroundings) (action : Supply → Action α) (sc : Scene) :
    resolving env action sc = match action (sc.source.supply env.files) sc.core with
      | .ok a u => .ok a (sc.settled env u)
      | .error e u => .error e (sc.settled env u) := by
  unfold resolving onUniverse onWorkspace Workspace.onUniverse Scene.core
  cases action (sc.source.supply env.files) sc.workspace.core <;> rfl

theorem settled_core (sc : Scene) (env : Surroundings) (u : Universe) :
    (sc.settled env u).core = u ∨
      ∃ held members, (sc.settled env u).core = u.letGo held members := by
  have core : (sc.settled env u).core =
      (Workspace.letGo { sc.workspace with core := u }).core := by
    unfold settled
    dsimp only
    split <;> rfl
  rw [core]
  cases holders : sc.workspace.holders with
  | everything =>
      left
      unfold Workspace.letGo
      rw [holders]
  | these classes members =>
      right
      obtain ⟨released, h⟩ := Workspace.core_letGo (w := { sc.workspace with core := u }) holders
      exact ⟨_, released, h⟩

theorem settled_basic (sc : Scene) (env : Surroundings) (u : Universe) :
    (sc.settled env u).basic = sc.basic := by
  unfold settled
  dsimp only
  split <;> rfl

theorem settled_supply (sc : Scene) (env : Surroundings) (u : Universe) :
    (sc.settled env u).source.supply env.files = sc.source.supply env.files := by
  unfold settled
  dsimp only
  split
  · exact ClassSource.supply_asked env.files sc.source
  · rfl

theorem serves_settled {u : Universe} {id : ClassId} (served : u.Serves name level id) :
    (sc.settled env u).core.Serves name level id := by
  rcases settled_core sc env u with same | ⟨held, members, same⟩
  · rw [same]
    exact served
  · rw [same]
    exact ⟨served.found, served.loaded⟩

namespace IsSuppliedBy

theorem settled {u : Universe} (h : sc.IsSuppliedBy env s) (core : u.IsSupplied s) :
    (sc.settled env u).IsSuppliedBy env s where
  supply := (settled_supply sc env u).trans h.supply
  core := by
    rcases settled_core sc env u with same | ⟨held, members, same⟩
    · rw [same]
      exact core
    · rw [same]
      exact core.letGo held members

/-- A basic class is loaded to its level, or it has no definition. -/
theorem tryLoad (h : sc.IsSuppliedBy env s) (named : s.IsNamed) (honest : s.IsHonest)
    (name : String) (level : Level) :
    Keeps Sustains (resolving env fun s => Universe.tryLoad s name level) sc fun answer t =>
      t.IsSuppliedBy env s ∧
        match answer with
        | some id => t.core.Serves name level id
        | none => s.defines name = false := by
  have loads : Keeps (Moves s .dangling) (Universe.tryLoad s name level) sc.core _ :=
    Universe.tryLoad_answers named honest h.core
  have sustains {u : Universe} (moves : Moves s .dangling sc.core u) :
      sc.Sustains (sc.settled env u) :=
    ⟨settled_basic sc env u, fun served =>
      serves_settled (moves.serves h.core.wellFormed served)⟩
  unfold Keeps at loads ⊢
  rw [resolving_eq, h.supply]
  cases outcome : Universe.tryLoad s name level sc.core with
  | error e u =>
      rw [outcome] at loads
      exact sustains loads
  | ok answer u =>
      rw [outcome] at loads
      refine ⟨sustains loads.1, h.settled (loads.1.isSupplied named h.core), ?_⟩
      cases answer with
      | some id => exact serves_settled loads.2
      | none => exact loads.2

theorem tryLoad_failsBy (h : sc.IsSuppliedBy env s) (named : s.IsNamed) (honest : s.IsHonest)
    (name : String) (level : Level) :
    FailsBy (resolving env fun s => Universe.tryLoad s name level) sc s.Bears := by
  intro e t failed
  rw [resolving_eq, h.supply] at failed
  cases outcome : Universe.tryLoad s name level sc.core with
  | ok answer u =>
      rw [outcome] at failed
      cases failed
  | error e' u =>
      rw [outcome] at failed
      cases failed
      exact Universe.tryLoad_failsBy named honest h.core.wellFormed _ _ outcome

end IsSuppliedBy

/-! ## Loading the classes of one level -/

/-- Loads one basic class, and adds it to a count if it has a source. -/
def loadCounted (env : Surroundings) (level : Level) (loaded : Nat) (entry : String × Level) :
    SceneAction Nat := do
  match ← resolving env fun s => Universe.tryLoad s entry.1 level with
  | some id => return if ((← get).record id).isPhantom then loaded else loaded + 1
  | none => return loaded

theorem loadBasicAt_eq (env : Surroundings) (entries : List (String × Level)) (level : Level) :
    loadBasicAt env entries level =
      (entries.filter fun entry => entry.2 == level).foldlM (loadCounted env level) 0 := rfl

/-- Whether the names of some entries that have a definition are loaded to a level. -/
def HasLoaded (sc : Scene) (s : Supply) (entries : List (String × Level)) (level : Level) : Prop :=
  ∀ entry ∈ entries, s.defines entry.1 = true → ∃ id, sc.core.Serves entry.1 level id

namespace IsSuppliedBy

theorem loadCounted (h : sc.IsSuppliedBy env s) (named : s.IsNamed) (honest : s.IsHonest)
    (level : Level) (n : Nat) (entry : String × Level) :
    Keeps Sustains (Scene.loadCounted env level n entry) sc fun m t => t.IsSuppliedBy env s ∧
      m = n + [entry].countP (fun entry => s.defines entry.1) ∧ t.HasLoaded s [entry] level := by
  unfold Scene.loadCounted
  refine (h.tryLoad named honest entry.1 level).bind fun answer t _ ⟨ht, outcome⟩ => ?_
  rw [List.countP_singleton]
  cases answer with
  | none =>
      have undefined : s.defines entry.1 = false := outcome
      refine .pure ⟨ht, by simp [undefined], fun other hm defined => ?_⟩
      rw [List.mem_singleton.mp hm, undefined] at defined
      cases defined
  | some id =>
      have served : t.core.Serves entry.1 level id := outcome
      have kind := ht.core.kind served.found
      refine .get_bind (.pure ⟨ht, ?_, fun other hm _ => ?_⟩)
      · change (if (t.core.record id).isPhantom = true then _ else _) = _
        rw [kind]
        cases s.defines entry.1 <;> rfl
      · rw [List.mem_singleton.mp hm]
        exact ⟨id, served⟩

theorem loadCounted_failsBy (h : sc.IsSuppliedBy env s) (named : s.IsNamed) (honest : s.IsHonest)
    (level : Level) (n : Nat) (entry : String × Level) :
    FailsBy (Scene.loadCounted env level n entry) sc s.Bears := by
  refine (h.tryLoad_failsBy named honest entry.1 level).bind fun answer t _ => ?_
  cases answer with
  | none => exact .of_ok rfl
  | some id => exact .of_ok rfl

/-- The entries of one level that have a definition are loaded to it and counted. -/
theorem loadBasicAt (h : sc.IsSuppliedBy env s) (named : s.IsNamed) (honest : s.IsHonest)
    (entries : List (String × Level)) (level : Level) :
    Keeps Sustains (Scene.loadBasicAt env entries level) sc fun n t => t.IsSuppliedBy env s ∧
      n = (entries.filter fun entry => entry.2 == level).countP (fun entry => s.defines entry.1) ∧
      t.HasLoaded s (entries.filter fun entry => entry.2 == level) level := by
  rw [loadBasicAt_eq]
  refine Keeps.foldlM_prefix (I := fun done n (t : Scene) => t.IsSuppliedBy env s ∧
    n = done.countP (fun entry => s.defines entry.1) ∧ t.HasLoaded s done level) _ 0
    ⟨h, rfl, nofun⟩ fun done n entry _ t ⟨ht, count, before⟩ => ?_
  refine (ht.loadCounted named honest level n entry).mono fun m v sustains ⟨hv, added, own⟩ => ?_
  refine ⟨hv, by rw [added, count, List.countP_append], fun other hm defined => ?_⟩
  rcases List.mem_append.mp hm with hm | hm
  · exact (before other hm defined).imp fun _ => sustains.serves
  · exact own other hm defined

theorem loadBasicAt_failsBy (h : sc.IsSuppliedBy env s) (named : s.IsNamed) (honest : s.IsHonest)
    (entries : List (String × Level)) (level : Level) :
    FailsBy (Scene.loadBasicAt env entries level) sc s.Bears := by
  rw [loadBasicAt_eq]
  exact FailsBy.foldlM (I := fun t : Scene => t.IsSuppliedBy env s) _ 0 h
    (fun n entry _ t ht => ht.loadCounted_failsBy named honest level n entry)
    fun n entry t m v ht done => ((ht.loadCounted named honest level n entry).ok done).2.1

end IsSuppliedBy

/-! ## Loading all levels -/

/-- Loads the basic classes of a table, highest level first, and counts those that have a source;
fails when none has. -/
def loadTable (env : Surroundings) (entries : List (String × Level)) : SceneAction Nat := do
  let bodies ← loadBasicAt env entries .bodies
  let signatures ← loadBasicAt env entries .signatures
  let hierarchy ← loadBasicAt env entries .hierarchy
  let loaded := bodies + signatures + hierarchy
  if loaded = 0 then throw .noBasicClassesLoaded
  return loaded

theorem loadBasic_of_ok (traced : addTraceClasses env sc = .ok () t) :
    loadBasic env sc =
      loadTable env (BasicClasses.raiseAll t.basic t.classPath.runtimeClasses .hierarchy).entries
        { t with basic := BasicClasses.raiseAll t.basic t.classPath.runtimeClasses .hierarchy } := by
  unfold loadBasic
  rw [bind_apply, traced]
  dsimp only
  rw [bind_apply, get_apply]
  dsimp only
  rw [bind_apply, addBasic_forM]
  rfl

/-- Entries at `hierarchy` and above are at one of three levels. -/
theorem countP_levels (high : ∀ entry ∈ entries, .hierarchy ≤ entry.2)
    (p : String × Level → Bool) :
    (entries.filter fun entry => entry.2 == .bodies).countP p +
      (entries.filter fun entry => entry.2 == .signatures).countP p +
      (entries.filter fun entry => entry.2 == .hierarchy).countP p = entries.countP p := by
  induction entries with
  | nil => rfl
  | cons entry entries ih =>
      have rest := ih fun other hm => high other (List.mem_cons_of_mem _ hm)
      have own := high entry List.mem_cons_self
      rw [List.countP_cons, ← rest]
      obtain ⟨name, level⟩ := entry
      cases level with
      | dangling => exact absurd own (show ¬ Level.hierarchy ≤ .dangling by decide)
      | hierarchy | signatures | bodies =>
          simp [List.countP_cons]
          omega

/-- Whether all names of a table that have a definition are loaded to their levels. -/
def HasLoadedAll (sc : Scene) (s : Supply) (entries : List (String × Level)) : Prop :=
  ∀ entry ∈ entries, s.defines entry.1 = true → ∃ id, sc.core.Serves entry.1 entry.2 id

theorem hasLoadedAll_of_levels (high : ∀ entry ∈ entries, .hierarchy ≤ entry.2)
    (each : ∀ level, .hierarchy ≤ level →
      sc.HasLoaded s (entries.filter fun entry => entry.2 == level) level) :
    sc.HasLoadedAll s entries := fun entry hm defined =>
  each entry.2 (high entry hm) entry (List.mem_filter.mpr ⟨hm, beq_self_eq_true _⟩) defined

theorem HasLoaded.sustains (h : sc.HasLoaded s entries level) (sustains : sc.Sustains t) :
    t.HasLoaded s entries level :=
  fun entry hm defined => (h entry hm defined).imp fun _ => sustains.serves

namespace IsSuppliedBy

theorem loadTable (h : sc.IsSuppliedBy env s) (named : s.IsNamed) (honest : s.IsHonest)
    (high : ∀ entry ∈ entries, .hierarchy ≤ entry.2) :
    Keeps Sustains (Scene.loadTable env entries) sc fun n t => t.IsSuppliedBy env s ∧
      n = entries.countP (fun entry => s.defines entry.1) ∧ t.HasLoadedAll s entries := by
  unfold Scene.loadTable
  refine (h.loadBasicAt named honest entries .bodies).bind fun b t _ ⟨ht, hb, bodies⟩ => ?_
  refine (ht.loadBasicAt named honest entries .signatures).bind fun g v tv ⟨hv, hg, shapes⟩ => ?_
  refine (hv.loadBasicAt named honest entries .hierarchy).bind fun l w vw ⟨hw, hl, links⟩ => ?_
  refine .optional (P := fun t => t = w) (fun _ => .throw _) (fun _ => rfl) fun _ _ same => ?_
  subst same
  refine .pure ⟨hw, ?_, hasLoadedAll_of_levels high fun level above => ?_⟩
  · rw [hb, hg, hl]
    exact countP_levels high _
  · cases level with
    | dangling => exact absurd above (by decide)
    | hierarchy => exact links
    | signatures => exact shapes.sustains vw
    | bodies => exact (bodies.sustains tv).sustains vw

/-- It is only told that no basic class was loaded when none has a definition. -/
theorem loadTable_failsBy (h : sc.IsSuppliedBy env s) (named : s.IsNamed) (honest : s.IsHonest)
    (high : ∀ entry ∈ entries, .hierarchy ≤ entry.2) :
    FailsBy (Scene.loadTable env entries) sc fun e => e = .noBasicClassesLoaded →
      ∀ entry ∈ entries, s.defines entry.1 = false := by
  have other {e : Error} (bears : s.Bears e) (same : e = .noBasicClassesLoaded) :
      ∀ entry ∈ entries, s.defines entry.1 = false := absurd same bears.1
  refine ((h.loadBasicAt_failsBy named honest entries .bodies).mono fun _ => other).bind
    fun b t first => ?_
  obtain ⟨-, ht, hb, -⟩ := (h.loadBasicAt named honest entries .bodies).ok first
  refine ((ht.loadBasicAt_failsBy named honest entries .signatures).mono fun _ => other).bind
    fun g v second => ?_
  obtain ⟨-, hv, hg, -⟩ := (ht.loadBasicAt named honest entries .signatures).ok second
  refine ((hv.loadBasicAt_failsBy named honest entries .hierarchy).mono fun _ => other).bind
    fun l w third => ?_
  obtain ⟨-, -, hl, -⟩ := (hv.loadBasicAt named honest entries .hierarchy).ok third
  have count := countP_levels high fun entry => s.defines entry.1
  rw [← hb, ← hg, ← hl] at count
  dsimp only
  split
  · rename_i none
    refine .of_error rfl fun _ entry hm => ?_
    rw [none] at count
    exact Bool.eq_false_iff.mpr (List.countP_eq_zero.mp count.symm entry hm)
  · exact .of_ok rfl

end IsSuppliedBy

end Scene

/-! ## What is loaded -/

/-- Whether a class that is no phantom is registered under a name. -/
def Universe.hasClass (u : Universe) (name : String) : Bool :=
  (u.find? name).any fun id => !(u.record id).isPhantom

namespace Scene

variable {env : Surroundings} {s : Supply} {sc t : Scene} {entries : List (String × Level)}

theorem HasLoadedAll.hasClass_iff (loaded : t.HasLoadedAll s entries) (h : t.core.IsSupplied s)
    {entry : String × Level} (hm : entry ∈ entries) :
    t.core.hasClass entry.1 = s.defines entry.1 := by
  unfold Universe.hasClass
  cases defined : s.defines entry.1 with
  | true =>
      obtain ⟨id, served⟩ := loaded entry hm defined
      rw [served.found, Option.any_some, h.kind served.found, defined]
      rfl
  | false =>
      cases found : t.core.find? entry.1 with
      | none => rfl
      | some id =>
          rw [Option.any_some, h.kind found, defined]
          rfl

theorem HasLoadedAll.level_le (loaded : t.HasLoadedAll s entries) (h : t.core.IsSupplied s)
    {name : String} {level : Level} {id : ClassId} (hm : (name, level) ∈ entries)
    (found : t.core.find? name = some id) (real : (t.core.record id).isPhantom = false) :
    level ≤ (t.core.record id).level := by
  have defined : s.defines name = true := by
    rwa [h.kind found, Bool.not_eq_false'] at real
  obtain ⟨id', served⟩ := loaded _ hm defined
  obtain rfl : id = id' := Option.some.inj (found.symm.trans served.found)
  exact served.level_le real

theorem loadBasic_of_error {e : Error} (failed : addTraceClasses env sc = .error e sc) :
    loadBasic env sc = .error e sc := by
  unfold loadBasic
  rw [bind_apply, failed]

/-- Loading the basic classes fails before anything is changed, or loads a table that has them. -/
theorem loadBasic_cases (env : Surroundings)
    (high : ∀ name level, sc.basic.get? name = some level → .hierarchy ≤ level) :
    (∃ e, loadBasic env sc = .error e sc ∧ e ≠ .noBasicClassesLoaded) ∨
      ∃ basic, sc.Gathers env basic ∧
        loadBasic env sc = loadTable env basic.entries { sc with basic := basic } := by
  rcases addTraceClasses_cases env sc with ⟨e, failed, other⟩ | ⟨names, logged, traced⟩
  · exact .inl ⟨e, loadBasic_of_error failed, other⟩
  · exact .inr ⟨_, gathers_raiseAll high logged, loadBasic_of_ok traced⟩

/-- How loading the basic classes ends in a scene whose classes have come from requests alone.  A
line of the log that is not blank and cannot be read makes it fail and leaves the scene as it is.

The rest holds where a source that is given from outside does not report a class as missing that it
has, nor says itself that no basic class was loaded (definitions in memory and a class path do
neither).  When loading succeeds, the number that it gives is that of the names in the table, with
the classes of the log, under which classes other than phantoms are registered, and these are at the
levels of the table.  When it tells that nothing was loaded, no name of the table has a definition.
-/
theorem loadBasic_outcome {recycles allowPhantoms : Bool} {calls : List Call}
    (named : (sc.source.supply env.files).IsNamed)
    (filled : sc.core = run calls (.empty recycles allowPhantoms))
    (asked : ∀ c ∈ calls, c.IsOver (sc.source.supply env.files))
    (high : ∀ name level, sc.basic.get? name = some level → .hierarchy ≤ level) :
    (∀ log text, sc.options.reflectionLog = some log → env.files.readText log = .ok text →
      ∀ line ∈ ReflectionTrace.lines text, (∀ classes, ¬ ReflectionTrace.Names line classes) →
        ∃ e, loadBasic env sc = .error e sc) ∧
      ((∀ answers, sc.source = .other answers → (answers env.files).IsHonest) →
        (∀ n t, loadBasic env sc = .ok n t → sc.Gathers env t.basic ∧
          n = t.basic.keys.countP t.core.hasClass ∧
          ∀ name level id, t.basic.get? name = some level → t.core.find? name = some id →
            (t.core.record id).isPhantom = false → level ≤ (t.core.record id).level) ∧
        ∀ t, loadBasic env sc = .error .noBasicClassesLoaded t → sc.Gathers env t.basic ∧
          ∀ name ∈ t.basic.keys, ∀ d, (sc.source.supply env.files).lookup name ≠ .ok (some d)) := by
  refine ⟨fun log text isLog read line hm unreadable => ?_, fun honest => ?_⟩
  · obtain ⟨e, failed⟩ := addTraceClasses_unreadable isLog read hm unreadable
    exact ⟨e, loadBasic_of_error failed⟩
  have honest := ClassSource.isHonest_supply honest
  generalize hs : sc.source.supply env.files = s at named honest asked
  have core : sc.core.IsSupplied s :=
    filled ▸ isSupplied_run named (Universe.isSupplied_empty _ _ s) calls asked
  rcases loadBasic_cases env high with ⟨e, outcome, other⟩ | ⟨basic, gathers, outcome⟩
  · rw [outcome]
    constructor
    · intro n t done
      cases done
    · intro t failed
      exact absurd (EStateM.Result.error.inj failed).1 other
  have supplied : IsSuppliedBy { sc with basic := basic } env s := ⟨hs, core⟩
  have above : ∀ entry ∈ basic.entries, .hierarchy ≤ entry.2 := fun entry hm =>
    gathers.high high ((OrderedMap.get?_eq_some_iff basic).mpr hm)
  have loads := supplied.loadTable named honest above
  rw [outcome]
  constructor
  · intro n t done
    obtain ⟨sustains, ht, count, loaded⟩ := loads.ok done
    rw [show t.basic = basic from sustains.basic]
    refine ⟨gathers, ?_, fun name level id found => ?_⟩
    · rw [count, OrderedMap.keys, List.countP_map]
      exact List.countP_congr fun entry hm => by
        rw [Function.comp_apply, loaded.hasClass_iff ht.core hm]
    · exact loaded.level_le ht.core ((OrderedMap.get?_eq_some_iff basic).mp found)
  · intro t failed
    have none := supplied.loadTable_failsBy named honest above _ _ failed rfl
    have left := loads.after_rel
    rw [after_of_error failed] at left
    rw [show t.basic = basic from left.basic]
    refine ⟨gathers, fun name hn d given => ?_⟩
    obtain ⟨level, found⟩ := (OrderedMap.mem_keys_iff basic).mp hn
    have undefined := none _ ((OrderedMap.get?_eq_some_iff basic).mp found)
    rw [Supply.defines_of_given given] at undefined
    cases undefined

/-- Definitions of a class, of its superclass and of the root of all. -/
def tracedSource : MemorySource :=
  ((MemorySource.empty.add { name := "java.lang.Object" }).add
    { name := "a.Base", superclass := some "java.lang.Object" }).add
      { name := "a.Used", superclass := some "a.Base" }

/-- A log of which one line names a class that is defined and one that is not. -/
def tracedFiles : Surroundings where
  files := .directory [("trace", .file (Text.encode "\nClass.forName;a.Used;b.User.run;7\n"))]
  settings := []

def tracedCalls : List Call :=
  [.request tracedSource.supply (.tryLoad "a.Base" .signatures),
    .request tracedSource.supply (.resolve .regular "b.Missing" .hierarchy)]

/-- A scene with that log in which some requests have been made. -/
def tracedScene : Scene :=
  { ofSource { reflectionLog := some "trace" } (.memory tracedSource) with
    workspace := .ofUniverse (run tracedCalls (.empty false true)) }

theorem isOver_tracedCalls : ∀ c ∈ tracedCalls, c.IsOver tracedSource.supply := by
  intro c hm
  rcases List.mem_cons.mp hm with rfl | hm
  · exact .request _
  · rw [List.mem_singleton.mp hm]
    exact .request _

theorem loadBasic_outcome_tracedScene : ∃ n t, loadBasic tracedFiles tracedScene = .ok n t ∧
    tracedScene.Gathers tracedFiles t.basic ∧ n = t.basic.keys.countP t.core.hasClass := by
  have named : (tracedScene.source.supply tracedFiles.files).IsNamed :=
    tracedSource.isNamed_supply
  have honest (answers : FileTree → Supply) (given : tracedScene.source = .other answers) :
      (answers tracedFiles.files).IsHonest := nomatch given
  have filled : tracedScene.core = run tracedCalls (.empty false true) := rfl
  have high (name : String) (level : Level) (found : tracedScene.basic.get? name = some level) :
      .hierarchy ≤ level := by
    dsimp only [tracedScene, ofSource] at found
    exact BasicClasses.hierarchy_le_of_table found
  obtain ⟨n, t, done⟩ := exists_of_succeeds
    (by decide +kernel : succeeds (loadBasic tracedFiles) tracedScene = true)
  obtain ⟨gathers, count, -⟩ :=
    ((loadBasic_outcome named filled isOver_tracedCalls high).2 honest).1 n t done
  exact ⟨n, t, done, gathers, count⟩

/-- Definitions of two classes that mention one without a definition, and of a third class. -/
def troubledSource : MemorySource :=
  ((MemorySource.empty.add { name := "a.A", superclass := some "a.Base" }).add
    { name := "a.B", bodyReferences := ["a.Base"] }).add { name := "a.C" }

/-- The answers of those definitions, but what they mention cannot be asked for. -/
def troubledSupply (e : Error) : Supply :=
  { troubledSource.supply with
    lookup := fun name =>
      if name = "a.Base" then .error e else troubledSource.supply.lookup name }

theorem isNamed_troubledSupply (e : Error) : (troubledSupply e).IsNamed := by
  intro name d given
  dsimp only [troubledSupply] at given
  split at given
  · cases given
  · exact troubledSource.isNamed_supply name d given

def troubledScene (e : Error) (table : List (String × Level)) : Scene :=
  { ofSource {} (.other fun _ => troubledSupply e) with basic := .ofList table }

/-- A source from outside that reports a class as missing which it has, or says itself that no basic
class was loaded, makes the loading tell so although a name of the table has a definition, or leaves
a class out of the number that is registered. -/
theorem not_outcome_troubledScene :
    (∀ e, (troubledSupply e).IsNamed) ∧
    (∃ t, loadBasic tracedFiles (troubledScene (.classNotFound "a.A") [("a.A", .hierarchy)]) =
        .error .noBasicClassesLoaded t ∧ t.basic.keys = ["a.A"] ∧
      ∃ d, (troubledSupply (.classNotFound "a.A")).lookup "a.A" = .ok (some d)) ∧
    (∃ t, loadBasic tracedFiles (troubledScene .noBasicClassesLoaded [("a.A", .hierarchy)]) =
        .error .noBasicClassesLoaded t ∧ t.basic.keys = ["a.A"] ∧
      ∃ d, (troubledSupply .noBasicClassesLoaded).lookup "a.A" = .ok (some d)) ∧
    ∃ n t, loadBasic tracedFiles (troubledScene (.classNotFound "a.B")
        [("a.B", .bodies), ("a.C", .hierarchy)]) = .ok n t ∧
      n < t.basic.keys.countP t.core.hasClass := by
  refine ⟨isNamed_troubledSupply, ⟨_, rfl, by decide +kernel, _, rfl⟩,
    ⟨_, rfl, by decide +kernel, _, rfl⟩, ?_⟩
  obtain ⟨n, t, done⟩ := exists_of_succeeds
    (by decide +kernel : succeeds (loadBasic tracedFiles) (troubledScene (.classNotFound "a.B")
      [("a.B", .bodies), ("a.C", .hierarchy)]) = true)
  have fewer : (match loadBasic tracedFiles (troubledScene (.classNotFound "a.B")
      [("a.B", .bodies), ("a.C", .hierarchy)]) with
    | .ok n t => decide (n < t.basic.keys.countP t.core.hasClass)
    | .error _ _ => true) = true := by decide +kernel
  rw [done] at fewer
  exact ⟨n, t, done, of_decide_eq_true fewer⟩

end Scene

end ClassUniverse
