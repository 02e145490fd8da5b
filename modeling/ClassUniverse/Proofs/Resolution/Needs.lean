import ClassUniverse.Proofs.Resolution.Outcome
import ClassUniverse.Proofs.Resolution.Placed

/-!
# What requests need

A request needs a class at a level, and this needs others: the supertypes at `hierarchy`, and the
classes that members and bodies name at `hierarchy` from `signatures` and `bodies` on.  Resolution
registers a class, or brings it to a level, only where the requests need that, and it fails only
because of a name that they need.
-/

namespace ClassUniverse

open Relation (ReflTransGen TransGen)

theorem Level.hierarchy_le_of_ne {level : Level} (h : level ≠ dangling) : hierarchy ≤ level := by
  cases level with
  | dangling => exact absurd rfl h
  | hierarchy | signatures | bodies => decide

namespace Supply

/-- The names and levels that some requests need over a supply. -/
inductive Needs (s : Supply) (qs : List (String × Level)) : String → Level → Prop
  | asked {name level} (asked : (name, level) ∈ qs) : Needs s qs name level
  | lower {name low high} (le : low ≤ high) (needs : Needs s qs name high) : Needs s qs name low
  | supertype {name parent d} (needs : Needs s qs name .hierarchy)
      (given : s.lookup name = .ok (some d)) (member : parent ∈ d.supertypes) :
      Needs s qs parent .hierarchy
  | signature {name reference d} (needs : Needs s qs name .signatures)
      (given : s.lookup name = .ok (some d)) (member : reference ∈ d.signatureReferences) :
      Needs s qs reference .hierarchy
  | mention {name reference d} (needs : Needs s qs name .bodies)
      (given : s.lookup name = .ok (some d)) (member : reference ∈ d.mentions) :
      Needs s qs reference .hierarchy

variable {s : Supply} {qs qs' : List (String × Level)} {name other : String} {level : Level}

theorem Needs.mono (sub : qs ⊆ qs') (needs : s.Needs qs name level) : s.Needs qs' name level := by
  induction needs with
  | asked asked => exact .asked (sub asked)
  | lower le _ ih => exact .lower le ih
  | supertype _ given member ih => exact .supertype ih given member
  | signature _ given member ih => exact .signature ih given member
  | mention _ given member ih => exact .mention ih given member

theorem Needs.of_path (needs : s.Needs qs name .hierarchy)
    (path : ReflTransGen s.Declares name other) : s.Needs qs other .hierarchy := by
  induction path with
  | refl => exact needs
  | tail _ step ih =>
      obtain ⟨d, given, member⟩ := step
      exact .supertype ih given member

theorem Needs.dangling (needs : s.Needs qs name level) : s.Needs qs name .dangling :=
  .lower (Nat.zero_le _) needs

end Supply

namespace Universe

variable {s : Supply} {qs : List (String × Level)} {u v w : Universe} {mode : Mode}
  {path : List String} {name : String} {level : Level} {d : ClassDefinition} {a : Addition}
  {id one : ClassId}

/-! ## Nothing but what is needed -/

/-- Whether every registered class is needed at the level that it has. -/
def IsWithin (u : Universe) (s : Supply) (qs : List (String × Level)) : Prop :=
  ∀ name id, u.find? name = some id → s.Needs qs name (u.record id).level

theorem isWithin_empty (recycles allowPhantoms : Bool) (s : Supply) (qs : List (String × Level)) :
    (empty recycles allowPhantoms).IsWithin s qs :=
  fun _ _ found => nomatch found

theorem IsWithin.of_touches (h : u.IsWithin s qs) (wf : u.IsWellFormed) (touches : u.Touches v one)
    (self : ∀ name, v.find? name = some one → s.Needs qs name (v.record one).level) :
    v.IsWithin s qs := by
  intro name id found
  by_cases hid : id = one
  · subst hid
    exact self name found
  · obtain ⟨found', same⟩ := touches.untouched wf found hid
    rw [same]
    exact h name id found'

/-- A change that keeps a well-formed universe so, and within what some requests need. -/
def Stays (s : Supply) (qs : List (String × Level)) (u v : Universe) : Prop :=
  u.IsWellFormed → v.IsWellFormed ∧ (u.IsWithin s qs → v.IsWithin s qs)

instance : IsPreorder Universe (Stays s qs) where
  refl _ wf := ⟨wf, fun h => h⟩
  trans _ _ _ h k wf := ⟨(k (h wf).1).1, fun hu => (k (h wf).1).2 ((h wf).2 hu)⟩

/-- Operations that stay within what some requests need. -/
abbrev Confined {α : Type} (s : Supply) (qs : List (String × Level)) (x : Action α)
    (u : Universe) : Prop := Keeps (Stays s qs) x u fun _ _ => True

theorem ask_confined : Keeps (Stays s qs) (ask s name) u fun d _ => s.lookup name = .ok d := by
  have asked : Stays s qs u { u with hasAsked := true } := fun wf =>
    ⟨wf.of_eq rfl rfl rfl, fun h => h⟩
  have he := ask_apply s name u
  cases hl : s.lookup name with
  | ok d =>
      rw [hl] at he
      exact .of_ok he asked rfl
  | error e =>
      rw [hl] at he
      exact .of_error he asked

theorem level_haunted : ((u.haunted name).record u.next).level = .dangling := by
  unfold haunted
  rw [record_enter_self isMade_next, record_next]
  rfl

theorem substitutePhantom_confined (wf : u.IsWellFormed) (needs : s.Needs qs name .dangling) :
    Confined s qs (substitutePhantom name) u := by
  have outcome := substitutePhantom_apply wf name
  cases allowed : u.allowPhantoms with
  | false =>
      rw [allowed] at outcome
      exact .of_error outcome (refl_of (Stays s qs) u)
  | true =>
      rw [allowed, if_pos rfl] at outcome
      cases found : u.find? name with
      | some id =>
          rw [found] at outcome
          refine .of_ok outcome (fun _ => ⟨wf.moved found fun _ => rfl, fun h => ?_⟩) trivial
          refine h.of_touches wf (touches_moved u id _) fun other found' => ?_
          rw [find?_moved] at found'
          rw [(level_moved u id id _).1]
          exact h other id found'
      | none =>
          rw [found] at outcome
          refine .of_ok outcome (fun _ => ⟨(wf.haunted found).1, fun h => ?_⟩) trivial
          refine h.of_touches wf (touches_haunted u name) fun other found' => ?_
          rw [level_haunted, (wf.haunted found).1.name_eq found'
            (serves_haunted u name .dangling).found]
          exact needs

/-- What the first step of resolving a name leads to, as far as definitions go. -/
def GivenBy (s : Supply) (name : String) : ClassId ⊕ ClassDefinition → Prop
  | .inl _ => True
  | .inr d => s.lookup name = .ok (some d)

theorem demand_confined (wf : u.IsWellFormed) (needs : s.Needs qs name .dangling) :
    Keeps (Stays s qs) (demand s name) u fun found _ => GivenBy s name found := by
  refine ask_confined.bind fun d v stays given => ?_
  cases d with
  | some d => exact .pure given
  | none =>
      exact (substitutePhantom_confined (stays wf).1 needs).bind fun _ _ _ _ => .pure trivial

theorem prepare_confined (wf : u.IsWellFormed) (needs : s.Needs qs name .dangling) :
    Keeps (Stays s qs) (prepare s mode path name level) u fun found _ => GivenBy s name found := by
  by_cases h : ∃ id, u.Serves name level id
  · obtain ⟨id, h⟩ := h
    exact .of_ok (prepare_of_serves h) (refl_of (Stays s qs) u) trivial
  have sought : prepare s mode path name level u = seek s mode path name level u :=
    prepare_of_not_serves (not_exists.mp h)
  rw [seek_apply] at sought
  by_cases hp : path.contains name
  · rw [if_pos hp] at sought
    exact .of_error sought (refl_of (Stays s qs) u)
  rw [if_neg hp] at sought
  by_cases hc : mode = .regular ∧ u.isClosed
  · rw [if_pos hc] at sought
    exact .of_error sought (refl_of (Stays s qs) u)
  rw [if_neg hc] at sought
  unfold Keeps
  rw [sought]
  exact demand_confined wf needs

theorem publish_confined (wf : u.IsWellFormed) (needs : s.Needs qs d.name a.level) :
    Confined s qs (publish d a.level (a.install d)) u := by
  cases found : u.find? d.name with
  | none =>
      refine .of_ok (publish_of_new found) (fun _ => ⟨(wf.register found).1, fun h => ?_⟩) trivial
      refine h.of_touches wf (touches_register u d a) fun other found' => ?_
      rw [level_register, (wf.register found).1.name_eq found' (serves_register u d a).found]
      exact needs
  | some id =>
      cases loaded : u.isLoaded id a.level with
      | true =>
          exact .of_ok (publish_of_served ⟨found, loaded⟩) (refl_of (Stays s qs) u) trivial
      | false =>
          refine .of_ok (publish_of_below found loaded) (fun _ => ⟨wf.lift, fun h => ?_⟩) trivial
          refine h.of_touches wf (touches_lift u d id a) fun other found' => ?_
          rw [find?_lift] at found'
          rw [record_lift_of_below (wf.stands found).made loaded, wf.name_eq found' found]
          exact needs

theorem expect_confined : Confined s qs (expect name) u := by
  have he := expect_apply u name
  cases found : u.find? name with
  | none =>
      rw [found] at he
      exact .of_error he (refl_of (Stays s qs) u)
  | some id =>
      rw [found] at he
      exact .of_ok he (refl_of (Stays s qs) u) trivial

theorem linkSupertypes_confined {resolve : String → Action ClassId} (wf : u.IsWellFormed)
    (resolves : ∀ parent ∈ d.supertypes, ∀ v : Universe, v.IsWellFormed →
      Confined s qs (resolve parent) v)
    (needs : s.Needs qs d.name .hierarchy) : Confined s qs (linkSupertypes resolve d) u := by
  unfold linkSupertypes
  refine (Keeps.optionMapM (P := fun _ _ _ => True) d.superclass fun parent hp => ?_).bind
    fun superclass v stays _ => ?_
  · exact resolves parent (List.mem_append_left _ (Option.mem_toList.mpr hp)) u wf
  refine (Keeps.mapM (P := fun _ _ _ => True) d.interfaces (fun parent hp w more => ?_)
    fun _ _ _ _ _ _ _ => trivial).bind fun interfaces w more _ => ?_
  · exact resolves parent (List.mem_append_right _ hp) w (more (stays wf).1).1
  · exact (publish_confined (a := .supertypes superclass interfaces) (more (stays wf).1).1
      needs).bind fun _ _ _ _ => .pure trivial

theorem resolveAlong_confined (named : s.IsNamed) (length : Nat) (wf : u.IsWellFormed)
    (needs : s.Needs qs name .hierarchy) :
    Confined s qs (resolveAlong s mode length path name) u := by
  induction length generalizing path name u with
  | zero => exact .throw _
  | succ length ih =>
      rw [resolveAlong]
      refine (prepare_confined wf needs.dangling).bind fun found v stays given => ?_
      cases found with
      | inl id => exact .pure trivial
      | inr d =>
          refine (linkSupertypes_confined (stays wf).1 (fun parent hp w wf' => ?_) ?_).bind
            fun _ _ _ _ => expect_confined
          · exact ih wf' (.supertype needs given hp)
          · rwa [named name d given]

theorem resolveAll_confined {resolve : String → Action ClassId} (wf : u.IsWellFormed)
    (names : List String)
    (resolves : ∀ reference ∈ names, ∀ v : Universe, v.IsWellFormed →
      Confined s qs (resolve reference) v) :
    Confined s qs (names.forM fun name => discard (resolve name)) u := by
  refine (Keeps.forM (P := fun _ _ => True) names (fun reference hm v stays => ?_)
    fun _ _ _ _ _ _ => trivial).mono fun _ _ _ _ => trivial
  exact (resolves reference hm v (stays wf).1).discard.mono fun _ _ _ _ => trivial

theorem resolve_confined (named : s.IsNamed) (wf : u.IsWellFormed)
    (needs : s.Needs qs name level) : Confined s qs (resolve s mode name level) u := by
  unfold resolve resolveBy
  refine .get_bind ?_
  refine (prepare_confined wf needs.dangling).bind fun found v stays given => ?_
  have wv := (stays wf).1
  cases found with
  | inl id => exact .pure trivial
  | inr d =>
      have name_eq : d.name = name := named name d given
      by_cases low : level = .dangling
      · subst low
        dsimp only
        rw [if_pos rfl]
        exact publish_confined (a := .nothing) wv (name_eq ▸ needs)
      dsimp only
      rw [if_neg low]
      have linked : s.Needs qs name .hierarchy := .lower (Level.hierarchy_le_of_ne low) needs
      refine Keeps.optional (P := fun _ => True) (fun _ => ?_) (fun _ => trivial) fun w vw _ => ?_
      · exact linkSupertypes_confined wv (fun parent hp x wx =>
          resolveAlong_confined named _ wx (.supertype linked given hp)) (name_eq ▸ linked)
      have ww := (vw wv).1
      by_cases upto : level ≤ .hierarchy
      · rw [if_pos upto]
        exact expect_confined
      rw [if_neg upto]
      have typed : s.Needs qs name .signatures := .lower (Nat.lt_of_not_le upto) needs
      refine Keeps.optional (P := fun _ => True) (fun _ => ?_) (fun _ => trivial) fun t wt _ => ?_
      · unfold loadSignatures
        refine (resolveAll_confined ww _ fun reference hm x wx => ?_).bind fun _ x wx _ => ?_
        · exact resolveAlong_confined named _ wx (.signature typed given hm)
        · exact (publish_confined (a := .members) (wx ww).1 (name_eq ▸ typed)).bind
            fun _ _ _ _ => .pure trivial
      by_cases upto : level ≤ .signatures
      · rw [if_pos upto]
        exact expect_confined
      rw [if_neg upto]
      have full : s.Needs qs name .bodies := .lower (Nat.lt_of_not_le upto) needs
      have known := (wt ww).1
      unfold loadBodies
      refine (resolveAll_confined known _ fun reference hm x wx => ?_).bind fun _ x tx _ => ?_
      · refine resolveAlong_confined named _ wx (.mention full given ?_)
        unfold ClassDefinition.mentions
        rwa [name_eq]
      · exact publish_confined (a := .bodies) (tx known).1 (name_eq ▸ full)

end Universe

/-! ## Nothing but what is needed can block -/

namespace Supply

/-- Why some requests can fail: a name that they need leads to itself, or it has no definition where
no phantoms are allowed. -/
inductive Blocks (s : Supply) (allowPhantoms : Bool) (qs : List (String × Level)) : Error → Prop
  | cycle {name : String} (needs : s.Needs qs name .hierarchy)
      (back : TransGen s.Declares name name) : Blocks s allowPhantoms qs (.cyclicHierarchy name)
  | missing {name : String} (disallowed : allowPhantoms = false)
      (needs : s.Needs qs name .dangling) (absent : s.lookup name = .ok none) :
      Blocks s allowPhantoms qs (.classNotFound name)

variable {s : Supply} {qs : List (String × Level)} {allowPhantoms : Bool} {name : String}
  {e : Error}

theorem Hinders.blocks (h : s.Hinders allowPhantoms name e) (needs : s.Needs qs name .hierarchy) :
    s.Blocks allowPhantoms qs e := by
  cases h with
  | cycle path back => exact .cycle (needs.of_path path) back
  | missing disallowed path absent =>
      exact .missing disallowed (needs.of_path path).dangling absent

end Supply

namespace Universe

variable {s : Supply} {qs : List (String × Level)} {u v : Universe} {mode : Mode} {name : String}
  {level : Level} {d : ClassDefinition} {allowPhantoms : Bool} {why : Error → Prop}

/-- At the root of a path a name is only refused for lack of a definition. -/
theorem prepare_root_failsBy (total : s.IsTotal) (h : u.IsOpen allowPhantoms)
    (needs : s.Needs qs name .dangling) :
    FailsBy (prepare s mode [] name level) u (s.Blocks allowPhantoms qs) := by
  by_cases served : ∃ id, u.Serves name level id
  · obtain ⟨id, served⟩ := served
    exact .of_ok (prepare_of_serves served)
  · have sought : prepare s mode [] name level u = seek s mode [] name level u :=
      prepare_of_not_serves (not_exists.mp served)
    have unclosed : ¬ (mode = .regular ∧ u.isClosed = true) := by simp [h.unclosed]
    rw [seek_apply, if_neg (by simp), if_neg unclosed] at sought
    intro e v failed
    rw [sought] at failed
    obtain ⟨disallowed, absent, rfl⟩ := demand_failsBy total h e v failed
    exact .missing disallowed needs absent

theorem expect_of_serves {id : ClassId} (served : u.Serves name level id) :
    expect name u = .ok id u := by
  have he := expect_apply u name
  rwa [served.found] at he

/-- Names are resolved one after the other unless one of them cannot be. -/
theorem resolveAll_failsBy {resolve : String → Action ClassId} (wf : u.IsWellFormed)
    (resolves : Resolves s .dangling resolve) (names : List String)
    (each : ∀ reference ∈ names, ∀ v, Moves s .dangling u v → FailsBy (resolve reference) v why) :
    FailsBy (names.forM fun name => discard (resolve name)) u why := by
  refine FailsBy.forM (I := fun v => Moves s .dangling u v) names .refl
    (fun reference hm v mv => (each reference hm v mv).discard) fun reference t _ v mt resolved => ?_
  exact mt.trans ((resolves reference t (mt.isWellFormed wf)).discard.ok resolved).1

/-- A request fails only for what keeps its name from being looked up, or a class that its level
needs from being resolved. -/
theorem resolve_failsBy_of (named : s.IsNamed) (wf : u.IsWellFormed)
    (root : FailsBy (prepare s mode [] name level) u why)
    (parents : .hierarchy ≤ level → ∀ d, s.lookup name = .ok (some d) → ∀ parent ∈ d.supertypes,
      ∀ v, Moves s .dangling u v → FailsBy (resolveAlong s mode s.size [name] parent) v why)
    (signatures : .signatures ≤ level → ∀ d, s.lookup name = .ok (some d) →
      ∀ reference ∈ d.signatureReferences, ∀ v, Moves s .dangling u v →
        FailsBy (resolveHierarchy s mode reference) v why)
    (mentions : .bodies ≤ level → ∀ d, s.lookup name = .ok (some d) → ∀ reference ∈ d.mentions,
      ∀ v, Moves s .dangling u v → FailsBy (resolveHierarchy s mode reference) v why) :
    FailsBy (resolve s mode name level) u why := by
  have reached {low : Level} (hd : low ≠ .dangling) (hl : ¬ u.levelOf name < low) :
      ∃ id, u.Serves name low id := serves_of_le_levelOf hd (Level.le_of_not_lt hl)
  have above : Level.dangling ≤ .hierarchy := by decide
  change FailsBy (prepare s mode [] name level >>= _) u _
  refine root.bind fun found v prepared => ?_
  have prepares : Keeps (Moves s .dangling) (prepare s mode [] name level) u fun found v =>
      v.Prepared s name level found := prepare_keeps wf
  obtain ⟨mv, given⟩ := prepares.ok prepared
  have wv := mv.isWellFormed wf
  cases found with
  | inl id => exact .of_ok rfl
  | inr d =>
      have name_eq : d.name = name := named name d given
      by_cases low : level = .dangling
      · subst low
        dsimp only
        rw [if_pos rfl]
        obtain ⟨id, w, published⟩ := publish_succeeds v d .nothing
        exact .of_ok published
      dsimp only
      rw [if_neg low]
      refine FailsBy.optional (P := fun w => Moves s .dangling v w ∧
        ∃ id, w.Serves name .hierarchy id) (fun _ => ?_) (fun _ w done => ?_) (fun high => ?_)
        fun w ⟨mw, linkedTo⟩ => ?_
      · exact linkSupertypes_failsBy wv (resolves_resolveAlong above _) fun parent hp w mw =>
          parents (Level.hierarchy_le_of_ne low) d given parent hp w (mv.trans mw)
      · obtain ⟨moves, served⟩ := (linkSupertypes_keeps wv given above
          (resolves_resolveAlong above _)).ok done
        exact ⟨moves, name_eq ▸ served⟩
      · exact ⟨.refl, (reached (by decide) high).imp fun _ => mv.serves wf⟩
      have ww := mw.isWellFormed wv
      by_cases upto : level ≤ .hierarchy
      · rw [if_pos upto]
        exact .of_ok (expect_of_serves linkedTo.choose_spec)
      rw [if_neg upto]
      refine FailsBy.optional (P := fun t => Moves s .dangling w t ∧
        ∃ id, t.Serves name .signatures id) (fun _ => ?_) (fun _ t done => ?_) (fun high => ?_)
        fun t ⟨mt, loaded⟩ => ?_
      · unfold loadSignatures
        refine (resolveAll_failsBy ww (resolves_resolveAlong above _) _ fun reference hm t mt =>
          signatures (Nat.lt_of_not_le upto) d given reference hm t
            ((mv.trans mw).trans mt)).bind fun _ t _ => ?_
        obtain ⟨id, x, published⟩ := publish_succeeds t d .members
        exact (FailsBy.of_ok published).bind fun _ _ _ => .of_ok rfl
      · obtain ⟨moves, served⟩ := (loadSignatures_keeps ww given above
          (resolves_resolveAlong above _) fun _ => name_eq ▸ linkedTo).ok done
        exact ⟨moves, name_eq ▸ served⟩
      · refine ⟨.refl, (reached (by decide) high).imp fun _ served => ?_⟩
        exact mw.serves wv (mv.serves wf served)
      by_cases upto : level ≤ .signatures
      · rw [if_pos upto]
        exact .of_ok (expect_of_serves loaded.choose_spec)
      rw [if_neg upto]
      unfold loadBodies
      refine (resolveAll_failsBy (mt.isWellFormed ww) (resolves_resolveAlong above _) _
        fun reference hm x mx => mentions (Nat.lt_of_not_le upto) d given reference ?_ x
          (((mv.trans mw).trans mt).trans mx)).bind fun _ t _ => ?_
      · unfold ClassDefinition.mentions
        rwa [name_eq]
      · obtain ⟨id, x, published⟩ := publish_succeeds t d .bodies
        exact .of_ok published

theorem resolveHierarchy_failsBy (named : s.IsNamed) (total : s.IsTotal) (bounded : s.IsBounded)
    (h : u.IsOpen allowPhantoms) (needs : s.Needs qs name .hierarchy) :
    FailsBy (resolveHierarchy s mode name) u (s.Blocks allowPhantoms qs) := by
  have long : s.size < ([] : List String).length + (s.size + 1) := by simp
  exact (resolveAlong_failsBy named total bounded s.isPath_nil long (by simp) h).mono
    fun _ hinders => hinders.blocks needs

/-- A supertype is resolved from its class unless a name that is needed blocks it. -/
theorem parent_failsBy {parent : String} (named : s.IsNamed) (total : s.IsTotal)
    (bounded : s.IsBounded) (given : s.lookup name = .ok (some d)) (member : parent ∈ d.supertypes)
    (h : u.IsOpen allowPhantoms) (needs : s.Needs qs name .hierarchy) :
    FailsBy (resolveAlong s mode s.size [name] parent) u (s.Blocks allowPhantoms qs) := by
  have isPath : s.IsPath [name] := s.isPath_nil.snoc given List.not_mem_nil
  have long : s.size < [name].length + s.size := by simp
  have back (other : String) (hm : other ∈ [name]) : TransGen s.Declares other parent := by
    rw [List.mem_singleton.mp hm]
    exact .single ⟨d, given, member⟩
  exact (resolveAlong_failsBy named total bounded isPath long back h).mono
    fun _ hinders => hinders.blocks (.supertype needs given member)

/-- A request fails only because of a name that is needed. -/
theorem resolve_failsBy (named : s.IsNamed) (total : s.IsTotal) (bounded : s.IsBounded)
    (h : u.IsOpen allowPhantoms) (needs : s.Needs qs name level) :
    FailsBy (resolve s mode name level) u (s.Blocks allowPhantoms qs) := by
  refine resolve_failsBy_of named h.wellFormed (prepare_root_failsBy total h needs.dangling)
    (fun low d given parent hp v mv => ?_) (fun low d given reference hm v mv => ?_)
    fun low d given reference hm v mv => ?_
  · exact parent_failsBy named total bounded given hp (h.moves mv) (.lower low needs)
  · exact resolveHierarchy_failsBy named total bounded (h.moves mv)
      (.signature (.lower low needs) given hm)
  · exact resolveHierarchy_failsBy named total bounded (h.moves mv)
      (.mention (.lower low needs) given hm)

end Universe

end ClassUniverse
