import ClassUniverse.Proofs.Resolution.Moves

/-!
# What the operations of resolution answer

Each operation changes a well-formed universe by moves alone, whether it fails or not.  A class that
it answers with is registered under the name asked for and is loaded to the level asked for, where
the supply has a definition of that name under it.
-/

namespace ClassUniverse

namespace Universe

variable {s : Supply} {floor : Level} {u v : Universe} {mode : Mode} {path : List String}
  {name : String} {level : Level} {d : ClassDefinition} {a : Addition}

/-! ## Asking -/

theorem ask_apply (s : Supply) (name : String) (u : Universe) :
    ask s name u = match s.lookup name with
      | .ok d => .ok d { u with hasAsked := true }
      | .error e => .error e { u with hasAsked := true } := by
  simp only [ask, bind_apply, modify_apply]
  cases s.lookup name <;> rfl

theorem ask_keeps : Keeps (Moves s floor) (ask s name) u fun d v =>
    s.lookup name = .ok d ∧ v = { u with hasAsked := true } := by
  have asked : Moves s floor u { u with hasAsked := true } := .single .ask
  have he := ask_apply s name u
  cases hl : s.lookup name with
  | ok d =>
      rw [hl] at he
      exact .of_ok he asked ⟨rfl, rfl⟩
  | error e =>
      rw [hl] at he
      exact .of_error he asked

theorem getOrCreatePhantom_of_new (new : u.find? name = none) (allowed : u.allowPhantoms = true) :
    getOrCreatePhantom name u = .ok u.next (u.haunted name) := by
  have absent : (u.withNew (.phantom name)).registry.contains name = false := by
    rw [Registry.contains_eq_isSome]
    exact congrArg Option.isSome new
  have out : ((u.withNew (.phantom name)).record u.next).inScene = false := by
    rw [record_next]
    rfl
  have named : ((u.withNew (.phantom name)).record u.next).name = name := by
    rw [record_next]
    rfl
  simp only [getOrCreatePhantom, bind_apply, get_apply, new, allowed, Bool.not_true,
    Bool.false_eq_true, if_false, make_apply, addClass_apply, out, named, absent, Bool.or_self]
  rfl

theorem reclassify_phantom (wf : u.IsWellFormed) {id : ClassId} (found : u.find? name = some id) :
    reclassify id .phantom u = .ok () (u.moved id .phantom) := by
  rw [reclassify_apply, wf.isManaged_iff.mpr ⟨name, found⟩]
  simp

theorem substitutePhantom_apply (wf : u.IsWellFormed) (name : String) :
    substitutePhantom name u =
      if u.allowPhantoms then
        match u.find? name with
        | some id => .ok id (u.moved id .phantom)
        | none => .ok u.next (u.haunted name)
      else .error (.classNotFound name) u := by
  simp only [substitutePhantom, bind_apply, get_apply]
  cases allowed : u.allowPhantoms with
  | false => rfl
  | true =>
      simp only [Bool.not_true, Bool.false_eq_true, if_false, if_true, bind_apply, get_apply]
      cases found : u.find? name with
      | some id => simp only [bind_apply, reclassify_phantom wf found, pure_apply]
      | none => exact getOrCreatePhantom_of_new found allowed

theorem isLoaded_bodies_of_not_serves {id : ClassId} (unserved : ∀ id, ¬ u.Serves name level id)
    (found : u.find? name = some id) : u.isLoaded id .bodies = false := by
  rw [Bool.eq_false_iff]
  intro loaded
  have served : u.Serves name .bodies id := ⟨found, loaded⟩
  exact unserved id (served.of_le (Level.le_bodies level))

theorem substitutePhantom_keeps (wf : u.IsWellFormed) (absent : s.lookup name = .ok none)
    (unserved : ∀ id, ¬ u.Serves name level id) :
    Keeps (Moves s floor) (substitutePhantom name) u fun id v => v.Serves name level id := by
  have outcome := substitutePhantom_apply wf name
  cases allowed : u.allowPhantoms with
  | false =>
      rw [allowed] at outcome
      exact .of_error outcome .refl
  | true =>
      rw [allowed, if_pos rfl] at outcome
      cases found : u.find? name with
      | some id =>
          rw [found] at outcome
          refine .of_ok outcome (.single (.demote absent found allowed
            (isLoaded_bodies_of_not_serves unserved found))) ?_
          refine ⟨by rw [find?_moved, found], isLoaded_iff.mpr (.inl ?_)⟩
          rw [record_moved_self (wf.stands found).made]
          simp [ClassRecord.assign]
      | none =>
          rw [found] at outcome
          exact .of_ok outcome (.single (.phantom absent found allowed))
            (serves_haunted u name level)

/-- What the first step of resolving a name leads to. -/
def Prepared (s : Supply) (name : String) (level : Level) (u : Universe) :
    ClassId ⊕ ClassDefinition → Prop
  | .inl id => u.Serves name level id
  | .inr d => s.lookup name = .ok (some d)

theorem demand_keeps (wf : u.IsWellFormed) (unserved : ∀ id, ¬ u.Serves name level id) :
    Keeps (Moves s floor) (demand s name) u fun found v => v.Prepared s name level found := by
  refine ask_keeps.bind fun d v m asked => ?_
  obtain ⟨given, rfl⟩ := asked
  have unserved' (id : ClassId) : ¬ Serves { u with hasAsked := true } name level id :=
    fun served => unserved id ⟨served.found, served.loaded⟩
  cases d with
  | some d => exact .pure given
  | none =>
      exact (substitutePhantom_keeps (m.isWellFormed wf) given unserved').bind
        fun id _ _ h => .pure h

theorem seek_apply (s : Supply) (mode : Mode) (path : List String) (name : String) (level : Level)
    (u : Universe) : seek s mode path name level u =
      if path.contains name then .error (.cyclicHierarchy name) u
      else if mode = .regular ∧ u.isClosed then .error (.resolutionFinished name level) u
      else demand s name u := by
  unfold seek
  by_cases hp : path.contains name
  · rw [if_pos hp, if_pos hp]
    rfl
  · rw [if_neg hp, if_neg hp]
    simp only [bind_apply, get_apply]
    by_cases hc : mode = .regular ∧ u.isClosed
    · rw [if_pos hc, if_pos hc]
      rfl
    · rw [if_neg hc, if_neg hc]

theorem seek_keeps (wf : u.IsWellFormed) (unserved : ∀ id, ¬ u.Serves name level id) :
    Keeps (Moves s floor) (seek s mode path name level) u fun found v =>
      v.Prepared s name level found := by
  have he := seek_apply s mode path name level u
  by_cases hp : path.contains name
  · rw [if_pos hp] at he
    exact .of_error he .refl
  · rw [if_neg hp] at he
    by_cases hc : mode = .regular ∧ u.isClosed
    · rw [if_pos hc] at he
      exact .of_error he .refl
    · rw [if_neg hc] at he
      unfold Keeps
      rw [he]
      exact demand_keeps wf unserved

theorem prepare_of_serves {id : ClassId} (h : u.Serves name level id) :
    prepare s mode path name level u = .ok (.inl id) u := by
  simp only [prepare, bind_apply, get_apply, h.found, h.loaded, if_true, pure_apply]

theorem prepare_of_not_serves (h : ∀ id, ¬ u.Serves name level id) :
    prepare s mode path name level u = seek s mode path name level u := by
  simp only [prepare, bind_apply, get_apply]
  cases found : u.find? name with
  | none => rfl
  | some id =>
      have below : u.isLoaded id level = false := by
        rw [Bool.eq_false_iff]
        exact fun hl => h id ⟨found, hl⟩
      simp only [bind_apply, get_apply, below, Bool.false_eq_true, if_false]

theorem prepare_keeps (wf : u.IsWellFormed) :
    Keeps (Moves s floor) (prepare s mode path name level) u fun found v =>
      v.Prepared s name level found := by
  by_cases h : ∃ id, u.Serves name level id
  · obtain ⟨id, h⟩ := h
    exact .of_ok (prepare_of_serves h) .refl h
  · unfold Keeps
    rw [prepare_of_not_serves (not_exists.mp h)]
    exact seek_keeps wf (not_exists.mp h)

/-! ## Publishing -/

theorem publish_of_new (new : u.find? d.name = none) :
    publish d a.level (a.install d) u = .ok u.next (u.register d a) := by
  have stands := record_next_standsAs (u := u) (d := d) (a := a)
  have absent :
      ((u.withNew (.ofDefinition d)).lift d u.next a).registry.contains d.name = false := by
    rw [Registry.contains_eq_isSome, registry_lift]
    exact congrArg Option.isSome new
  have added : addClass u.next ((u.withNew (.ofDefinition d)).lift d u.next a) =
      .ok (((u.withNew (.ofDefinition d)).lift d u.next a).enter u.next).1 (u.register d a) := by
    rw [addClass_apply, stands.inScene, stands.name]
    change (if (false || _) = true then _ else _) = _
    rw [Bool.false_or]
    exact if_neg (Bool.eq_false_iff.mp absent)
  have raised : onCatalog (fun c => c.modify u.next (·.raise a.level))
      ((u.withNew (.ofDefinition d)).installed d u.next a) =
        .ok () ((u.withNew (.ofDefinition d)).lift d u.next a) := rfl
  simp only [publish, bind_apply, get_apply, new, make_apply, install_apply, raised, added,
    pure_apply]

theorem publish_of_served {id : ClassId} {install : ClassId → Action Unit}
    (h : u.Serves d.name level id) : publish d level install u = .ok id u := by
  simp only [publish, bind_apply, get_apply, h.found, h.loaded, if_true, pure_apply]

theorem publish_of_below {id : ClassId} (found : u.find? d.name = some id)
    (below : u.isLoaded id a.level = false) :
    publish d a.level (a.install d) u = .ok id (u.lift d id a) := by
  simp only [publish, bind_apply, get_apply, found, below, Bool.false_eq_true, if_false,
    install_apply, onCatalog, modify_apply, pure_apply]
  rfl

theorem publish_keeps (wf : u.IsWellFormed) (given : s.lookup name = .ok (some d))
    (above : floor ≤ a.level) (ready : s.IsNamed → u.Ready d a) :
    Keeps (Moves s floor) (publish d a.level (a.install d)) u fun id v =>
      v.Serves d.name a.level id := by
  cases found : u.find? d.name with
  | none =>
      exact .of_ok (publish_of_new found) (.single (.register a given above found ready))
        (serves_register u d a)
  | some id =>
      cases loaded : u.isLoaded id a.level with
      | true => exact .of_ok (publish_of_served ⟨found, loaded⟩) .refl ⟨found, loaded⟩
      | false =>
          exact .of_ok (publish_of_below found loaded)
            (.single (.lift a given above found loaded ready)) (wf.serves_lift found)

/-! ## Supertypes -/

theorem expect_keeps (u : Universe) (name : String) :
    Keeps (Moves s floor) (expect name) u fun id v => v = u ∧ u.find? name = some id := by
  have he := expect_apply u name
  cases found : u.find? name with
  | none =>
      rw [found] at he
      exact .of_error he .refl
  | some id =>
      rw [found] at he
      exact .of_ok he .refl ⟨rfl, rfl⟩

theorem expect_serves_keeps (h : s.IsTrueTo name → ∃ id, u.Serves name level id) :
    Keeps (Moves s floor) (expect name) u fun id v =>
      s.IsTrueTo name → v.Serves name level id := by
  refine (expect_keeps u name).mono fun id v _ he => ?_
  obtain ⟨rfl, found⟩ := he
  intro isTrue
  obtain ⟨id', served⟩ := h isTrue
  rw [served.found] at found
  cases found
  exact served

/-- An operation that resolves names to `hierarchy`. -/
def Resolves (s : Supply) (floor : Level) (resolve : String → Action ClassId) : Prop :=
  ∀ name u, u.IsWellFormed → Keeps (Moves s floor) (resolve name) u fun id v =>
    s.IsTrueTo name → v.Serves name .hierarchy id

theorem linkSupertypes_keeps {resolve : String → Action ClassId} (wf : u.IsWellFormed)
    (given : s.lookup name = .ok (some d)) (above : floor ≤ .hierarchy)
    (resolves : Resolves s floor resolve) :
    Keeps (Moves s floor) (linkSupertypes resolve d) u fun _ v =>
      ∃ id, v.Serves d.name .hierarchy id := by
  unfold linkSupertypes
  refine (Keeps.optionMapM d.superclass fun parent _ => resolves parent u wf).bind
    fun superclass v mv hs => ?_
  have wv := mv.isWellFormed wf
  refine (Keeps.mapM d.interfaces (fun parent _ w mw => resolves parent w (mw.isWellFormed wv))
    fun parent id t w mt mw h isTrue => mw.serves (mt.isWellFormed wv) (h isTrue)).bind
    fun interfaces w mw hi => ?_
  refine (publish_keeps (a := .supertypes superclass interfaces) (mw.isWellFormed wv) given above
    fun isNamed => ?_).bind fun id _ _ h => .pure ⟨id, h⟩
  refine ⟨?_, hi.imp fun parent id h => h (isNamed parent)⟩
  generalize d.superclass = parent at hs ⊢
  cases hs with
  | none => exact .none
  | some h => exact .some (mw.serves wv (h (isNamed _)))

theorem resolves_resolveAlong (above : floor ≤ .hierarchy) (length : Nat) :
    Resolves s floor (resolveAlong s mode length path) := by
  induction length generalizing path with
  | zero => exact fun name u wf => .throw _
  | succ length ih =>
      intro name u wf
      rw [resolveAlong]
      refine (prepare_keeps wf).bind fun found v mv prepared => ?_
      cases found with
      | inl id => exact .pure fun _ => prepared
      | inr d =>
          have wv := mv.isWellFormed wf
          refine (linkSupertypes_keeps wv prepared above ih).bind
            fun _ w _ linked => expect_serves_keeps fun isTrue => ?_
          rwa [isTrue d prepared] at linked

/-! ## Members and bodies -/

theorem resolveAll_keeps {resolve : String → Action ClassId} (wf : u.IsWellFormed)
    (resolves : Resolves s floor resolve) (names : List String) :
    Keeps (Moves s floor) (names.forM fun name => discard (resolve name)) u
      fun _ v => ∀ name ∈ names, s.IsTrueTo name → ∃ id, v.Serves name .hierarchy id := by
  refine Keeps.forM (P := fun name (v : Universe) =>
    s.IsTrueTo name → ∃ id, v.Serves name .hierarchy id) names
    (fun name _ v mv => ?_) fun name v w mv mw h isTrue => ?_
  · refine (resolves name v (mv.isWellFormed wf)).discard.mono fun _ w _ h isTrue => ?_
    obtain ⟨id, h⟩ := h
    exact ⟨id, h isTrue⟩
  · obtain ⟨id, served⟩ := h isTrue
    exact ⟨id, mw.serves (mv.isWellFormed wf) served⟩

theorem loadSignatures_keeps {resolve : String → Action ClassId} (wf : u.IsWellFormed)
    (given : s.lookup name = .ok (some d)) (above : floor ≤ .hierarchy)
    (resolves : Resolves s floor resolve)
    (linked : s.IsNamed → ∃ id, u.Serves d.name .hierarchy id) :
    Keeps (Moves s floor) (loadSignatures resolve d) u fun _ v =>
      ∃ id, v.Serves d.name .signatures id := by
  unfold loadSignatures
  refine (resolveAll_keeps wf resolves d.signatureReferences).bind fun _ v mv resolved => ?_
  refine (publish_keeps (a := .members) (mv.isWellFormed wf) given
    (Level.le_trans above (by decide)) fun isNamed => ?_).bind fun id _ _ h => .pure ⟨id, h⟩
  obtain ⟨id, served⟩ := linked isNamed
  exact ⟨⟨id, mv.serves wf served⟩, fun name hm => resolved name hm (isNamed name)⟩

theorem loadBodies_keeps {resolve : String → Action ClassId} (wf : u.IsWellFormed)
    (given : s.lookup name = .ok (some d)) (above : floor ≤ .hierarchy)
    (resolves : Resolves s floor resolve)
    (loaded : s.IsNamed → ∃ id, u.Serves d.name .signatures id) :
    Keeps (Moves s floor) (loadBodies resolve name d) u fun id v =>
      v.Serves d.name .bodies id := by
  unfold loadBodies
  refine (resolveAll_keeps wf resolves _).bind fun _ v mv resolved => ?_
  refine publish_keeps (a := .bodies) (mv.isWellFormed wf) given
    (Level.le_trans above (by decide)) fun isNamed => ?_
  obtain ⟨id, served⟩ := loaded isNamed
  refine ⟨⟨id, mv.serves wf served⟩, fun reference hm => ?_⟩
  unfold ClassDefinition.mentions at hm
  rw [isNamed name d given] at hm
  exact resolved reference hm (isNamed reference)

/-! ## Requests -/

/-- A name is at a level above the lowest only by a class that is registered under it. -/
theorem serves_of_le_levelOf (low : level ≠ .dangling) (h : level ≤ u.levelOf name) :
    ∃ id, u.Serves name level id := by
  unfold levelOf at h
  cases found : u.find? name with
  | none =>
      simp only [found] at h
      cases level with
      | dangling => exact absurd rfl low
      | hierarchy | signatures | bodies => exact absurd h (by decide)
  | some id =>
      rw [found] at h
      exact ⟨id, found, isLoaded_iff.mpr (.inr h)⟩

theorem resolveBy_keeps {parent reference : String → Action ClassId} (wf : u.IsWellFormed)
    (above : floor ≤ .hierarchy) (high : floor ≤ level) (parents : Resolves s floor parent)
    (references : Resolves s floor reference) :
    Keeps (Moves s floor) (resolveBy parent reference s mode name level) u fun id v =>
      s.IsTrueTo name → v.Serves name level id := by
  unfold resolveBy
  refine .get_bind ?_
  have reached {low : Level} (hd : low ≠ .dangling) (h : ¬ u.levelOf name < low) :
      ∃ id, u.Serves name low id := serves_of_le_levelOf hd (Level.le_of_not_lt h)
  refine (prepare_keeps wf).bind fun found v mv prepared => ?_
  have wv := mv.isWellFormed wf
  cases found with
  | inl id => exact .pure fun _ => prepared
  | inr d =>
      by_cases low : level = .dangling
      · subst low
        dsimp only
        rw [if_pos rfl]
        refine (publish_keeps (a := .nothing) wv prepared high fun _ => trivial).mono
          fun id w _ h isTrue => ?_
        rwa [isTrue d prepared] at h
      dsimp only
      rw [if_neg low]
      refine Keeps.optional
        (P := fun w : Universe => s.IsTrueTo name → ∃ id, w.Serves name .hierarchy id)
        (fun _ => ?_) (fun h _ => ?_) fun w mw linked => ?_
      · refine (linkSupertypes_keeps wv prepared above parents).mono fun _ w _ h isTrue => ?_
        rwa [isTrue d prepared] at h
      · obtain ⟨id, served⟩ := reached (by decide) h
        exact ⟨id, mv.serves wf served⟩
      have ww := mw.isWellFormed wv
      by_cases upto : level ≤ .hierarchy
      · rw [if_pos upto]
        refine expect_serves_keeps fun isTrue => ?_
        obtain ⟨id, served⟩ := linked isTrue
        exact ⟨id, served.of_le upto⟩
      rw [if_neg upto]
      refine Keeps.optional
        (P := fun w : Universe => s.IsTrueTo name → ∃ id, w.Serves name .signatures id)
        (fun _ => ?_) (fun h _ => ?_) fun t mt loaded => ?_
      · refine (loadSignatures_keeps ww prepared above references fun isNamed => ?_).mono
          fun _ w _ h isTrue => ?_
        · rw [isNamed name d prepared]
          exact linked (isNamed name)
        · rwa [isTrue d prepared] at h
      · obtain ⟨id, served⟩ := reached (by decide) h
        exact ⟨id, mw.serves wv (mv.serves wf served)⟩
      have wt := mt.isWellFormed ww
      by_cases upto : level ≤ .signatures
      · rw [if_pos upto]
        refine expect_serves_keeps fun isTrue => ?_
        obtain ⟨id, served⟩ := loaded isTrue
        exact ⟨id, served.of_le upto⟩
      rw [if_neg upto]
      refine (loadBodies_keeps wt prepared above references fun isNamed => ?_).mono
        fun id w _ h isTrue => ?_
      · rw [isNamed name d prepared]
        exact loaded (isNamed name)
      · rw [isTrue d prepared] at h
        exact h.of_le level.le_bodies

theorem resolve_keeps (wf : u.IsWellFormed) (above : floor ≤ .hierarchy) (high : floor ≤ level) :
    Keeps (Moves s floor) (resolve s mode name level) u fun id v =>
      s.IsTrueTo name → v.Serves name level id :=
  resolveBy_keeps wf above high (resolves_resolveAlong above _) (resolves_resolveAlong above _)

theorem tryLoad_keeps (wf : u.IsWellFormed) (above : floor ≤ .hierarchy) (high : floor ≤ level) :
    Keeps (Moves s floor) (tryLoad s name level) u fun answer v =>
      ∀ id ∈ answer, s.IsTrueTo name → v.Serves name level id := by
  have resolved : Keeps (Moves s floor) (resolve s .regular name level) u fun id v =>
      s.IsTrueTo name → v.Serves name level id := resolve_keeps wf above high
  unfold Keeps at resolved ⊢
  unfold tryLoad
  cases hr : resolve s .regular name level u with
  | ok id v =>
      rw [hr] at resolved
      refine ⟨resolved.1, fun id' h => ?_⟩
      cases h
      exact resolved.2
  | error e v =>
      rw [hr] at resolved
      cases e
      case classNotFound missing =>
        dsimp only
        by_cases h : missing = name
        · rw [if_pos h]
          exact ⟨resolved, by simp⟩
        · rw [if_neg h]
          exact resolved
      all_goals exact resolved

theorem loadWithSupport_keeps (wf : u.IsWellFormed) (above : floor ≤ .hierarchy) :
    Keeps (Moves s floor) (loadWithSupport s name) u fun id v =>
      s.IsTrueTo name → v.Serves name .bodies id := by
  unfold loadWithSupport
  refine (resolve_keeps wf above (Level.le_trans above (by decide))).bind fun id v mv served => ?_
  refine .get_bind ?_
  by_cases phantom : (v.record id).isPhantom = true
  · rw [if_pos phantom]
    refine .pure fun isTrue => ⟨(served isTrue).found, isLoaded_iff.mpr (.inl phantom)⟩
  · rw [if_neg phantom]
    exact resolve_keeps (mv.isWellFormed wf) above (Level.le_trans above (by decide))

end Universe

end ClassUniverse
