import ClassUniverse.Proofs.Resolution.Settled
import ClassUniverse.Proofs.Resolution.Termination

/-!
# How resolution to `hierarchy` ends

Over a supply that answers every question, resolution to `hierarchy` fails for two reasons alone:
the declared names lead from a class to a cycle, or, where no phantoms are allowed, to a name
without definition.  It succeeds whenever there is no such reason, whatever has been asked for
before.
-/

namespace ClassUniverse

open Relation (ReflTransGen TransGen)

namespace Supply

/-- Whether a supply answers every question. -/
def IsTotal (s : Supply) : Prop := ∀ name, ∃ found, s.lookup name = .ok found

/-- What hinders the resolution of a name, and the error that tells it. -/
inductive Hinders (s : Supply) (allowPhantoms : Bool) (name : String) : Error → Prop
  | cycle {other : String} (path : ReflTransGen s.Declares name other)
      (back : TransGen s.Declares other other) :
      Hinders s allowPhantoms name (.cyclicHierarchy other)
  | missing {other : String} (disallowed : allowPhantoms = false)
      (path : ReflTransGen s.Declares name other) (absent : s.lookup other = .ok none) :
      Hinders s allowPhantoms name (.classNotFound other)

variable {s : Supply} {allowPhantoms : Bool} {name parent : String} {e : Error}

theorem Hinders.of_above (step : s.Declares name parent) (h : s.Hinders allowPhantoms parent e) :
    s.Hinders allowPhantoms name e := by
  cases h with
  | cycle path back => exact .cycle (.head step path) back
  | missing disallowed path absent => exact .missing disallowed (.head step path) absent

theorem Hinders.not_isSound (h : s.Hinders allowPhantoms name e) :
    ¬ s.IsSound allowPhantoms name := by
  intro sound
  cases h with
  | cycle path back => exact sound.acyclic _ path back
  | missing disallowed path absent =>
      obtain ⟨d, given⟩ := sound.defined disallowed _ path
      rw [absent] at given
      cases given

end Supply

namespace Universe

/-- A well-formed universe in which resolution is open. -/
structure IsOpen (u : Universe) (allowPhantoms : Bool) : Prop where
  wellFormed : u.IsWellFormed
  unclosed : u.isClosed = false
  allowPhantoms : u.allowPhantoms = allowPhantoms

variable {s : Supply} {u v : Universe} {mode : Mode} {path : List String}
  {name : String} {level : Level} {d : ClassDefinition} {a : Addition} {allowPhantoms : Bool}
  {why : Error → Prop}

theorem IsOpen.moves (h : u.IsOpen allowPhantoms) (m : Moves s .dangling u v) :
    v.IsOpen allowPhantoms where
  wellFormed := m.isWellFormed h.wellFormed
  unclosed := m.isClosed.trans h.unclosed
  allowPhantoms := (m.grows h.wellFormed).allowPhantoms.trans h.allowPhantoms

/-! ## Why the steps of resolution fail -/

theorem substitutePhantom_failsBy (h : u.IsOpen allowPhantoms) :
    FailsBy (substitutePhantom name) u
      fun e => allowPhantoms = false ∧ e = .classNotFound name := by
  have outcome := substitutePhantom_apply h.wellFormed name
  rw [h.allowPhantoms] at outcome
  cases allowPhantoms with
  | false => exact .of_error outcome ⟨rfl, rfl⟩
  | true =>
      rw [if_pos rfl] at outcome
      cases found : u.find? name with
      | some id =>
          rw [found] at outcome
          exact .of_ok outcome
      | none =>
          rw [found] at outcome
          exact .of_ok outcome

/-- A definition is only demanded in vain where there is none and no phantom is allowed. -/
theorem demand_failsBy (total : s.IsTotal) (h : u.IsOpen allowPhantoms) :
    FailsBy (demand s name) u fun e =>
      allowPhantoms = false ∧ s.lookup name = .ok none ∧ e = .classNotFound name := by
  obtain ⟨answer, given⟩ := total name
  have asked := ask_apply s name u
  rw [given] at asked
  refine (FailsBy.of_ok asked).bind fun found v hv => ?_
  have h' : v.IsOpen allowPhantoms := h.moves (ask_keeps.ok hv).1
  cases found with
  | some d => exact .of_ok rfl
  | none =>
      have absent := (Keeps.ok (R := Moves s .dangling) ask_keeps hv).2.1
      refine ((substitutePhantom_failsBy h').mono fun e failed => ?_).bind fun id v _ => .of_ok rfl
      exact ⟨failed.1, absent, failed.2⟩

theorem prepare_failsBy (total : s.IsTotal) (h : u.IsOpen allowPhantoms)
    (back : ∀ other ∈ path, TransGen s.Declares other name) :
    FailsBy (prepare s mode path name level) u (s.Hinders allowPhantoms name) := by
  by_cases served : ∃ id, u.Serves name level id
  · obtain ⟨id, served⟩ := served
    exact .of_ok (prepare_of_serves served)
  · have sought : prepare s mode path name level u = seek s mode path name level u :=
      prepare_of_not_serves (not_exists.mp served)
    rw [seek_apply] at sought
    by_cases closes : path.contains name = true
    · rw [if_pos closes] at sought
      exact .of_error sought (.cycle .refl (back name (List.contains_iff_mem.mp closes)))
    · have unclosed : ¬ (mode = .regular ∧ u.isClosed = true) := by simp [h.unclosed]
      rw [if_neg closes, if_neg unclosed] at sought
      intro e v failed
      rw [sought] at failed
      obtain ⟨disallowed, absent, rfl⟩ := demand_failsBy total h e v failed
      exact .missing disallowed .refl absent

theorem publish_succeeds (u : Universe) (d : ClassDefinition) (a : Addition) :
    ∃ id v, publish d a.level (a.install d) u = .ok id v := by
  cases found : u.find? d.name with
  | none => exact ⟨_, _, publish_of_new found⟩
  | some id =>
      cases loaded : u.isLoaded id a.level with
      | true => exact ⟨_, _, publish_of_served ⟨found, loaded⟩⟩
      | false => exact ⟨_, _, publish_of_below found loaded⟩

/-- The supertypes of a definition are linked unless one of them cannot be resolved. -/
theorem linkSupertypes_failsBy {resolve : String → Action ClassId} (wf : u.IsWellFormed)
    (resolves : Resolves s .dangling resolve)
    (each : ∀ parent ∈ d.supertypes, ∀ v, Moves s .dangling u v → FailsBy (resolve parent) v why) :
    FailsBy (linkSupertypes resolve d) u why := by
  unfold linkSupertypes
  refine (FailsBy.optionMapM d.superclass fun parent hp => ?_).bind fun superclass v hv => ?_
  · exact each parent (List.mem_append_left _ (Option.mem_toList.mpr hp)) u .refl
  have mv := (Keeps.ok (Keeps.optionMapM (P := fun _ _ _ => True) d.superclass fun parent _ =>
    (resolves parent u wf).mono fun _ _ _ _ => trivial) hv).1
  refine (FailsBy.mapM (I := fun w => Moves s .dangling u w) d.interfaces mv
    (fun parent hp w mw => ?_) fun parent w id t mw resolved => ?_).bind fun interfaces w _ => ?_
  · exact each parent (List.mem_append_right _ hp) w mw
  · exact mw.trans ((resolves parent w (mw.isWellFormed wf)).ok resolved).1
  · obtain ⟨id, t, published⟩ := publish_succeeds w d (.supertypes superclass interfaces)
    exact (FailsBy.of_ok published).bind fun _ _ _ => .of_ok rfl

/-! ## Why resolution fails -/

/-- Along a path of names that lead to a name, resolution of the name to `hierarchy` fails only for
what hinders it. -/
theorem resolveAlong_failsBy (named : s.IsNamed) (total : s.IsTotal) (bounded : s.IsBounded)
    {length : Nat} (isPath : s.IsPath path) (long : s.size < path.length + length)
    (back : ∀ other ∈ path, TransGen s.Declares other name) (h : u.IsOpen allowPhantoms) :
    FailsBy (resolveAlong s mode length path name) u (s.Hinders allowPhantoms name) := by
  induction length generalizing path name u with
  | zero =>
      have short := bounded path isPath
      omega
  | succ length ih =>
      rw [resolveAlong]
      refine (prepare_failsBy total h back).bind fun found v prepared => ?_
      cases found with
      | inl id => exact .of_ok rfl
      | inr d =>
          obtain ⟨given, new⟩ := prepare_eq_inr prepared
          have hv : v.IsOpen allowPhantoms := h.moves ((prepare_keeps h.wellFormed).ok prepared).1
          have longer : s.size < (path ++ [name]).length + length := by
            rw [List.length_append, List.length_singleton]
            omega
          have resolves : Resolves s .dangling (resolveAlong s mode length (path ++ [name])) :=
            resolves_resolveAlong (by decide) length
          refine (linkSupertypes_failsBy hv.wellFormed resolves fun parent hp w mw => ?_).bind
            fun _ w linked => ?_
          · have step : s.Declares name parent := ⟨d, given, hp⟩
            refine (ih (isPath.snoc given new) longer (fun other ho => ?_) (hv.moves mw)).mono
              fun e he => he.of_above step
            rcases List.mem_append.mp ho with ho | ho
            · exact (back other ho).tail step
            · rw [List.mem_singleton.mp ho]
              exact .single step
          · obtain ⟨id, served⟩ :=
              ((linkSupertypes_keeps hv.wellFormed given (by decide) resolves).ok linked).2
            rw [named name d given] at served
            have expected := expect_apply w name
            rw [served.found] at expected
            exact .of_ok expected

/-- Resolution to `hierarchy` is resolution along the empty path. -/
theorem resolve_hierarchy (s : Supply) (mode : Mode) (name : String) (u : Universe) :
    resolve s mode name .hierarchy u = resolveHierarchy s mode name u := by
  simp only [resolve, resolveHierarchy, resolveBy, resolveAlong, List.nil_append, bind_apply,
    get_apply]
  cases prepared : prepare s mode [] name .hierarchy u with
  | error e v => rfl
  | ok found v =>
      cases found with
      | inl id => rfl
      | inr d =>
          have low : u.levelOf name < .hierarchy := by
            by_contra high
            obtain ⟨id, served⟩ := serves_of_le_levelOf (by decide) (Level.le_of_not_lt high)
            rw [prepare_of_serves served] at prepared
            cases prepared
          have upto : Level.hierarchy ≤ .hierarchy := by decide
          simp only [reduceCtorEq, if_false, if_pos low, if_pos upto, bind_apply]

/-! ## When resolution succeeds -/

theorem refused_by (named : s.IsNamed) (total : s.IsTotal) (bounded : s.IsBounded)
    (h : u.IsOpen allowPhantoms) :
    FailsBy (resolve s mode name .hierarchy) u (s.Hinders allowPhantoms name) := by
  intro e v refused
  rw [resolve_hierarchy] at refused
  have long : s.size < ([] : List String).length + (s.size + 1) := by simp
  exact resolveAlong_failsBy named total bounded (s.isPath_nil) long (by simp) h e v refused

theorem isSound_of_resolved {id : ClassId} (named : s.IsNamed) (h : u.IsOpen allowPhantoms)
    (settled : u.IsSettled s) (resolved : resolve s mode name .hierarchy u = .ok id v) :
    s.IsSound allowPhantoms name := by
  have kept : Keeps (Moves s .dangling) (resolve s mode name .hierarchy) u fun id v =>
      s.IsTrueTo name → v.Serves name .hierarchy id :=
    resolve_keeps h.wellFormed (by decide) (by decide)
  obtain ⟨moves, served⟩ := kept.ok resolved
  have sound := Moves.isSettled h.wellFormed named settled moves name id (served (named name))
  rwa [(h.moves moves).allowPhantoms] at sound

/-- A name is resolved to `hierarchy` exactly if it is sound. -/
theorem resolved_iff_isSound (named : s.IsNamed) (total : s.IsTotal) (bounded : s.IsBounded)
    (h : u.IsOpen allowPhantoms) (settled : u.IsSettled s) :
    (∃ id v, resolve s mode name .hierarchy u = .ok id v) ↔ s.IsSound allowPhantoms name := by
  constructor
  · rintro ⟨id, v, resolved⟩
    exact isSound_of_resolved named h settled resolved
  · intro sound
    cases outcome : resolve s mode name .hierarchy u with
    | ok id v => exact ⟨id, v, rfl⟩
    | error e v => exact absurd sound (refused_by named total bounded h e v outcome).not_isSound

theorem isSound_of_le_levelOf (h : u.IsOpen allowPhantoms) (settled : u.IsSettled s)
    (high : .hierarchy ≤ u.levelOf name) : s.IsSound allowPhantoms name := by
  obtain ⟨id, served⟩ := serves_of_le_levelOf (by decide) high
  have sound := settled name id served
  rwa [h.allowPhantoms] at sound

/-- Where phantoms are allowed, what hinders resolution is a cycle. -/
theorem refused_by_cycle (named : s.IsNamed) (total : s.IsTotal) (bounded : s.IsBounded)
    (h : u.IsOpen true) {e : Error} (refused : resolve s mode name .hierarchy u = .error e v) :
    ∃ other, e = .cyclicHierarchy other ∧
      ReflTransGen s.Declares name other ∧ TransGen s.Declares other other := by
  cases refused_by named total bounded h e v refused with
  | cycle path back => exact ⟨_, rfl, path, back⟩
  | missing disallowed => cases disallowed

theorem refused_iff (named : s.IsNamed) (total : s.IsTotal) (bounded : s.IsBounded)
    (h : u.IsOpen true) (settled : u.IsSettled s) :
    (∃ e v, resolve s mode name .hierarchy u = .error e v) ↔
      (∃ other, ReflTransGen s.Declares name other ∧ TransGen s.Declares other other) ∧
        ¬ .hierarchy ≤ u.levelOf name := by
  constructor
  · rintro ⟨e, v, refused⟩
    obtain ⟨other, -, path, back⟩ := refused_by_cycle named total bounded h refused
    exact ⟨⟨other, path, back⟩,
      fun high => (isSound_of_le_levelOf h settled high).acyclic other path back⟩
  · rintro ⟨⟨other, path, back⟩, -⟩
    cases outcome : resolve s mode name .hierarchy u with
    | error e v => exact ⟨e, v, rfl⟩
    | ok id v =>
        exact absurd back ((isSound_of_resolved named h settled outcome).acyclic other path)

theorem resolved_iff (named : s.IsNamed) (total : s.IsTotal) (bounded : s.IsBounded)
    (h : u.IsOpen false) (settled : u.IsSettled s) :
    (∃ id v, resolve s mode name .hierarchy u = .ok id v) ↔
      .hierarchy ≤ u.levelOf name ∨
        (¬ ∃ other, ReflTransGen s.Declares name other ∧ TransGen s.Declares other other) ∧
          ∀ other, ReflTransGen s.Declares name other → ∃ d, s.lookup other = .ok (some d) := by
  rw [resolved_iff_isSound named total bounded h settled]
  constructor
  · intro sound
    exact .inr ⟨fun ⟨other, path, back⟩ => sound.acyclic other path back, sound.defined rfl⟩
  · rintro (high | ⟨acyclic, defined⟩)
    · exact isSound_of_le_levelOf h settled high
    · exact ⟨fun other path back => acyclic ⟨other, path, back⟩, fun _ => defined⟩

end Universe

open Universe

theorem isOpen_run {s : Supply} {recycles allowPhantoms : Bool} {qs : List Request}
    (unclosed : (run (requests s qs) (.empty recycles allowPhantoms)).isClosed = false) :
    (run (requests s qs) (.empty recycles allowPhantoms)).IsOpen allowPhantoms where
  wellFormed := isWellFormed_run (isWellFormed_empty recycles allowPhantoms) (requests s qs)
  unclosed := unclosed
  allowPhantoms := requests_keep (P := fun u => u.allowPhantoms = allowPhantoms)
    (fun wf h m => (m.grows wf).allowPhantoms.trans h) (fun _ h => h)
    (isWellFormed_empty recycles allowPhantoms) rfl qs

/-- How resolution to `hierarchy` ends after any requests that leave it open.  The greatest length
of a path is never reached, so it ends of itself.  Where phantoms are allowed it fails exactly if
the name is below `hierarchy` and the declared names lead from it to a cycle, and the error tells a
name on such a cycle.  Where they are not, it succeeds exactly if the name is at `hierarchy` or
above, or no cycle can be reached and all names that can be reached have definitions. -/
theorem resolve_hierarchy_outcome {s : Supply} (named : s.IsNamed) (total : s.IsTotal)
    (bounded : s.IsBounded) {recycles allowPhantoms : Bool} {qs : List Request} {u : Universe}
    (reached : run (requests s qs) (.empty recycles allowPhantoms) = u)
    (unclosed : u.isClosed = false) (name : String) :
    (∀ stop, resolveOr stop s .regular name .hierarchy = resolve s .regular name .hierarchy) ∧
    (allowPhantoms = true →
      ((∃ e v, resolve s .regular name .hierarchy u = .error e v) ↔
        (∃ other, ReflTransGen s.Declares name other ∧ TransGen s.Declares other other) ∧
          ¬ .hierarchy ≤ u.levelOf name) ∧
      ∀ e v, resolve s .regular name .hierarchy u = .error e v →
        ∃ other, e = .cyclicHierarchy other ∧
          ReflTransGen s.Declares name other ∧ TransGen s.Declares other other) ∧
    (allowPhantoms = false →
      ((∃ id v, resolve s .regular name .hierarchy u = .ok id v) ↔
        .hierarchy ≤ u.levelOf name ∨
          (¬ ∃ other, ReflTransGen s.Declares name other ∧ TransGen s.Declares other other) ∧
            ∀ other, ReflTransGen s.Declares name other →
              ∃ d, s.lookup other = .ok (some d))) := by
  subst reached
  have isOpen := isOpen_run unclosed
  have settled := isSettled_run named (isWellFormed_empty recycles allowPhantoms)
    (isSettled_empty recycles allowPhantoms s) qs
  refine ⟨fun stop => resolveOr_eq stop bounded .regular name .hierarchy, ?_, ?_⟩
  · rintro rfl
    exact ⟨refused_iff named total bounded isOpen settled,
      fun e v refused => refused_by_cycle named total bounded isOpen refused⟩
  · rintro rfl
    exact resolved_iff named total bounded isOpen settled

/-- A class below two classes that are above each other, one of them as an interface. -/
def whirlSource : MemorySource :=
  (((MemorySource.empty.add
      { name := "a.Task", superclass := some "a.Base" }).add
    { name := "a.Base", superclass := some "gone.Root", interfaces := ["a.Left"] }).add
    { name := "a.Left", superclass := some "a.Right" }).add
    { name := "a.Right", interfaces := ["a.Left"] }

/-- The universe after such a class and its superclass have been asked for in vain. -/
def whirlUniverse : Universe :=
  run (requests whirlSource.supply
    [.resolve .regular "a.Base" .bodies, .tryLoad "a.Task" .hierarchy]) (.empty false true)

/-- Asked for again, the class is refused for a name on the cycle. -/
theorem resolve_hierarchy_outcome_whirlUniverse :
    ∃ other v, resolve whirlSource.supply .regular "a.Task" .hierarchy whirlUniverse =
        .error (.cyclicHierarchy other) v ∧
      ReflTransGen whirlSource.supply.Declares "a.Task" other ∧
      TransGen whirlSource.supply.Declares other other := by
  have outcome := resolve_hierarchy_outcome (u := whirlUniverse) whirlSource.isNamed_supply
    (fun _ => ⟨_, rfl⟩) whirlSource.isBounded_supply rfl (by decide +kernel) "a.Task"
  obtain ⟨refused, names⟩ := outcome.2.1 rfl
  have task : whirlSource.supply.Declares "a.Task" "a.Base" := ⟨_, rfl, by decide +kernel⟩
  have base : whirlSource.supply.Declares "a.Base" "a.Left" := ⟨_, rfl, by decide +kernel⟩
  have left : whirlSource.supply.Declares "a.Left" "a.Right" := ⟨_, rfl, by decide +kernel⟩
  have right : whirlSource.supply.Declares "a.Right" "a.Left" := ⟨_, rfl, by decide +kernel⟩
  have path : ReflTransGen whirlSource.supply.Declares "a.Task" "a.Left" :=
    .tail (.single task) base
  have back : TransGen whirlSource.supply.Declares "a.Left" "a.Left" := .tail (.single left) right
  obtain ⟨e, v, failed⟩ := refused.mpr ⟨⟨"a.Left", path, back⟩, by decide +kernel⟩
  obtain ⟨other, rfl, path, back⟩ := names e v failed
  exact ⟨other, v, failed, path, back⟩

end ClassUniverse
