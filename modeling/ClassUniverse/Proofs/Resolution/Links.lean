import ClassUniverse.Proofs.Hierarchy.Orderly
import ClassUniverse.Proofs.Universe.Changes

/-!
# Where the links of resolution lead

Whatever a supply has under a name, resolution links a class only to classes that are registered at
that moment.  So a link that a descriptor has leads to a class that is registered or was removed.
-/

namespace ClassUniverse

/-- The classes that an addition links a class to. -/
def Addition.targets : Addition → List ClassId
  | supertypes superclass interfaces => superclass.toList ++ interfaces
  | _ => []

namespace ClassRecord

/-- The classes that a record names as its superclass or as an interface. -/
def targets (r : ClassRecord) : List ClassId := r.superclass.toList ++ r.interfaces

theorem LinksLike.targets {a b : ClassRecord} (h : a.LinksLike b) : a.targets = b.targets := by
  unfold ClassRecord.targets
  rw [h.superclass, h.interfaces]

theorem targets_raise (r : ClassRecord) (level : Level) : (r.raise level).targets = r.targets := by
  unfold raise
  split <;> rfl

end ClassRecord

namespace Universe

variable {s : Supply} {u v w : Universe} {mode : Mode} {path : List String} {name : String}
  {level : Level} {d : ClassDefinition} {a : Addition} {id target : ClassId}

/-- A descriptor that names another one as its superclass or as an interface. -/
def Names (u : Universe) (id target : ClassId) : Prop := target ∈ (u.record id).targets

/-- What becomes of a universe where new links lead to registered classes. -/
structure Wired (u v : Universe) : Prop where
  wellFormed : v.IsWellFormed
  grows : u.Grows v
  links : ∀ {id target}, v.Names id target → u.Names id target ∨ v.IsRegistered target

theorem Wired.refl (wf : u.IsWellFormed) : u.Wired u := ⟨wf, .refl u, .inl⟩

theorem IsRegistered.grows (h : u.IsRegistered id) (grows : u.Grows v) : v.IsRegistered id := by
  obtain ⟨name, found⟩ := h
  exact ⟨name, grows.find found⟩

theorem Wired.trans (h : u.Wired v) (k : v.Wired w) : u.Wired w where
  wellFormed := k.wellFormed
  grows := h.grows.trans k.grows
  links named := by
    cases k.links named with
    | inr registered => exact .inr registered
    | inl old => exact (h.links old).imp_right fun registered => registered.grows k.grows

/-- A change that keeps a well-formed universe so and adds links to registered classes alone. -/
def Wires (u v : Universe) : Prop := u.IsWellFormed → u.Wired v

instance : IsPreorder Universe Wires where
  refl _ wf := .refl wf
  trans _ _ _ h k wf := (h wf).trans (k (h wf).wellFormed)

/-! ## Single changes -/

theorem Wires.of_targets (keeps : u.IsWellFormed → v.IsWellFormed ∧ u.Grows v)
    (same : ∀ id, (v.record id).targets ⊆ (u.record id).targets) : u.Wires v := by
  intro wf
  obtain ⟨wf', grows⟩ := keeps wf
  exact ⟨wf', grows, fun named => .inl (same _ named)⟩

theorem targets_modify (c : Catalog) (one id : ClassId) {f : ClassRecord → ClassRecord}
    (same : ∀ r, (f r).targets = r.targets) :
    ((c.modify one f).get id).targets = (c.get id).targets := by
  by_cases hid : id = one
  · subst hid
    by_cases made : c.IsMade id
    · rw [Catalog.get_modify_self made, same]
    · have made' : ¬ (c.modify id f).IsMade id := fun h => made (Catalog.isMade_modify.mp h)
      rw [Catalog.get_of_not_isMade made, Catalog.get_of_not_isMade made']
  · rw [Catalog.get_modify_of_ne c hid]

theorem targets_enter (u : Universe) (one id : ClassId) :
    ((u.enter one).2.record id).targets = (u.record id).targets :=
  targets_modify u.catalog one id fun _ => rfl

theorem targets_without (u : Universe) (one id : ClassId) :
    ((u.without one).record id).targets = (u.record id).targets :=
  targets_modify u.catalog one id fun _ => rfl

theorem targets_moved (u : Universe) (one id : ClassId) (p : Partition) :
    ((u.moved one p).record id).targets = (u.record id).targets :=
  targets_modify u.catalog one id fun _ => rfl

theorem targets_withNew (u : Universe) (r : ClassRecord) (id : ClassId) :
    ((u.withNew r).record id).targets ⊆ (u.record id).targets ++ r.targets := by
  by_cases hid : id = u.next
  · rw [hid, record_next]
    exact List.subset_append_right _ _
  · have same : (u.withNew r).record id = u.record id := Catalog.get_make_of_ne u.catalog r hid
    rw [same]
    exact List.subset_append_left _ _

theorem targets_lift (u : Universe) (d : ClassDefinition) (a : Addition) {one : ClassId}
    (made : u.catalog.IsMade one) (id : ClassId) :
    ((u.lift d one a).record id).targets ⊆ (u.record id).targets ++ a.targets := by
  by_cases hid : id = one
  · subst hid
    rw [record_lift_self made, ClassRecord.targets_raise]
    cases a with
    | supertypes superclass interfaces => exact List.subset_append_right _ _
    | nothing | members | bodies => exact List.subset_append_left _ _
  · rw [record_lift_of_ne hid]
    exact List.subset_append_left _ _

theorem targets_haunted (u : Universe) (name : String) (id : ClassId) :
    ((u.haunted name).record id).targets ⊆ (u.record id).targets := by
  intro target named
  unfold haunted at named
  rw [targets_enter] at named
  simpa [ClassRecord.targets, ClassRecord.phantom] using targets_withNew u (.phantom name) id named

theorem targets_register (u : Universe) (d : ClassDefinition) (a : Addition) (id : ClassId) :
    ((u.register d a).record id).targets ⊆ (u.record id).targets ++ a.targets := by
  intro target named
  unfold register at named
  rw [targets_enter] at named
  rcases List.mem_append.mp (targets_lift _ d a isMade_next id named) with old | new
  · apply List.mem_append_left
    simpa [ClassRecord.targets, ClassRecord.ofDefinition] using
      targets_withNew u (.ofDefinition d) id old
  · exact List.mem_append_right _ new

/-! ## Operations -/

/-- What an operation on a registered class ends with. -/
abbrev Finds (x : Action ClassId) (u : Universe) : Prop :=
  u.IsWellFormed → Keeps Wires x u fun id v => v.IsRegistered id

theorem ask_wires : Keeps Wires (ask s name) u fun _ _ => True := by
  have asked : u.Wires { u with hasAsked := true } :=
    .of_targets (fun wf => ⟨wf.of_eq rfl rfl rfl, .of_eq rfl rfl rfl rfl⟩) fun _ => List.Subset.refl _
  have he := ask_apply s name u
  cases hl : s.lookup name with
  | ok d =>
      rw [hl] at he
      exact .of_ok he asked trivial
  | error e =>
      rw [hl] at he
      exact .of_error he asked

theorem substitutePhantom_wires : Finds (substitutePhantom name) u := by
  intro wf
  have outcome := substitutePhantom_apply wf name
  cases allowed : u.allowPhantoms with
  | false =>
      rw [allowed] at outcome
      exact .of_error outcome (refl_of Wires u)
  | true =>
      rw [allowed, if_pos rfl] at outcome
      cases found : u.find? name with
      | some id =>
          rw [found] at outcome
          refine .of_ok outcome (.of_targets (fun wf => ⟨wf.moved found fun _ => rfl, .moved u _ _⟩)
            fun other => ?_) ⟨name, by rw [find?_moved, found]⟩
          rw [targets_moved]
          exact List.Subset.refl _
      | none =>
          rw [found] at outcome
          exact .of_ok outcome (.of_targets (fun wf => wf.haunted found) (targets_haunted u name))
            ⟨name, (serves_haunted u name .dangling).found⟩

/-- What the first step of resolving a name leads to, as far as registration goes. -/
def Sought (v : Universe) : ClassId ⊕ ClassDefinition → Prop
  | .inl id => v.IsRegistered id
  | .inr _ => True

theorem demand_wires (wf : u.IsWellFormed) : Keeps Wires (demand s name) u fun f v => v.Sought f := by
  refine ask_wires.bind fun d v wires _ => ?_
  cases d with
  | some d => exact .pure trivial
  | none =>
      exact (substitutePhantom_wires (wires wf).wellFormed).bind fun id _ _ h => .pure h

theorem seek_wires (wf : u.IsWellFormed) :
    Keeps Wires (seek s mode path name level) u fun f v => v.Sought f := by
  have he := seek_apply s mode path name level u
  by_cases hp : path.contains name
  · rw [if_pos hp] at he
    exact .of_error he (refl_of Wires u)
  · rw [if_neg hp] at he
    by_cases hc : mode = .regular ∧ u.isClosed
    · rw [if_pos hc] at he
      exact .of_error he (refl_of Wires u)
    · rw [if_neg hc] at he
      unfold Keeps
      rw [he]
      exact demand_wires wf

theorem prepare_wires (wf : u.IsWellFormed) :
    Keeps Wires (prepare s mode path name level) u fun f v => v.Sought f := by
  by_cases h : ∃ id, u.Serves name level id
  · obtain ⟨id, h⟩ := h
    exact .of_ok (prepare_of_serves h) (refl_of Wires u) ⟨name, h.found⟩
  · unfold Keeps
    rw [prepare_of_not_serves (not_exists.mp h)]
    exact seek_wires wf

theorem publish_wires (registered : ∀ id ∈ a.targets, u.IsRegistered id) :
    Finds (publish d a.level (a.install d)) u := by
  intro wf
  cases found : u.find? d.name with
  | none =>
      have keeps := wf.register (a := a) found
      refine .of_ok (publish_of_new found) (fun _ => ⟨keeps.1, keeps.2, fun {id target} named => ?_⟩)
        ⟨d.name, (serves_register u d a).found⟩
      exact (List.mem_append.mp (targets_register u d a id named)).imp_right
        fun new => (registered target new).grows keeps.2
  | some id =>
      cases loaded : u.isLoaded id a.level with
      | true =>
          exact .of_ok (publish_of_served ⟨found, loaded⟩) (refl_of Wires u) ⟨d.name, found⟩
      | false =>
          have made := (wf.stands found).made
          refine .of_ok (publish_of_below found loaded)
            (fun _ => ⟨wf.lift, .lift, fun {other target} named => ?_⟩)
            ⟨d.name, (wf.serves_lift found).found⟩
          exact (List.mem_append.mp (targets_lift u d a made other named)).imp_right
            fun new => (registered target new).grows .lift

theorem expect_wires : Keeps Wires (expect name) u fun id v => v.IsRegistered id := by
  have he := expect_apply u name
  cases found : u.find? name with
  | none =>
      rw [found] at he
      exact .of_error he (refl_of Wires u)
  | some id =>
      rw [found] at he
      exact .of_ok he (refl_of Wires u) ⟨name, found⟩

theorem forall_mem_of_forall₂ {α β : Type} {P : β → Prop} {l : List α} {m : List β}
    (h : List.Forall₂ (fun _ b => P b) l m) : ∀ b ∈ m, P b := by
  induction h with
  | nil => simp
  | cons first _ ih => simpa using ⟨first, ih⟩

theorem linkSupertypes_wires {resolve : String → Action ClassId}
    (resolves : ∀ name u, Finds (resolve name) u) (wf : u.IsWellFormed) :
    Keeps Wires (linkSupertypes resolve d) u fun _ _ => True := by
  unfold linkSupertypes
  refine (Keeps.optionMapM d.superclass fun parent _ => resolves parent u wf).bind
    fun superclass v wires hs => ?_
  have wired := wires wf
  have lasts (parent : String) (id : ClassId) (t w : Universe) (tv : v.Wires t) (wt : t.Wires w)
      (h : t.IsRegistered id) : w.IsRegistered id :=
    h.grows (wt (tv wired.wellFormed).wellFormed).grows
  refine (Keeps.mapM (P := fun _ id (t : Universe) => t.IsRegistered id) d.interfaces
    (fun parent _ t tv => resolves parent t (tv wired.wellFormed).wellFormed) lasts).bind
    fun interfaces w more hi => ?_
  have wired' := more wired.wellFormed
  refine (publish_wires (a := .supertypes superclass interfaces) (fun id hm => ?_)
    wired'.wellFormed).bind fun _ _ _ _ => .pure trivial
  rcases List.mem_append.mp hm with above | named
  · generalize d.superclass = parent at hs
    cases hs with
    | none => cases above
    | some h =>
        rw [Option.toList_some, List.mem_singleton] at above
        rw [above]
        exact h.grows wired'.grows
  · exact forall_mem_of_forall₂ hi id named

theorem resolveAlong_wires (length : Nat) :
    ∀ name u, Finds (resolveAlong s mode length path name) u := by
  induction length generalizing path with
  | zero => exact fun name u wf => .throw _
  | succ length ih =>
      intro name u wf
      rw [resolveAlong]
      refine (prepare_wires wf).bind fun found v wires sought => ?_
      cases found with
      | inl id => exact .pure sought
      | inr d => exact (linkSupertypes_wires ih (wires wf).wellFormed).bind fun _ _ _ _ => expect_wires

theorem resolveAll_wires {resolve : String → Action ClassId}
    (resolves : ∀ name u, Finds (resolve name) u) (wf : u.IsWellFormed) (names : List String) :
    Keeps Wires (names.forM fun name => discard (resolve name)) u fun _ _ => True := by
  refine (Keeps.forM (P := fun _ _ => True) names (fun name _ v wires => ?_)
    fun _ _ _ _ _ _ => trivial).mono fun _ _ _ _ => trivial
  exact (resolves name v (wires wf).wellFormed).discard.mono fun _ _ _ _ => trivial

theorem resolveBy_wires {parent reference : String → Action ClassId}
    (parents : ∀ name u, Finds (parent name) u) (references : ∀ name u, Finds (reference name) u) :
    Finds (resolveBy parent reference s mode name level) u := by
  intro wf
  unfold resolveBy
  refine .get_bind ?_
  refine (prepare_wires wf).bind fun found v uv sought => ?_
  have wv := (uv wf).wellFormed
  cases found with
  | inl id => exact .pure sought
  | inr d =>
      by_cases low : level = .dangling
      · subst low
        dsimp only
        rw [if_pos rfl]
        exact publish_wires (a := .nothing) (fun _ hm => nomatch hm) wv
      dsimp only
      rw [if_neg low]
      refine Keeps.optional (P := fun _ => True) (fun _ => linkSupertypes_wires parents wv)
        (fun _ => trivial) fun w vw _ => ?_
      have ww := (vw wv).wellFormed
      by_cases upto : level ≤ .hierarchy
      · rw [if_pos upto]
        exact expect_wires
      rw [if_neg upto]
      refine Keeps.optional (P := fun _ => True) (fun _ => ?_) (fun _ => trivial) fun t wt _ => ?_
      · unfold loadSignatures
        refine (resolveAll_wires references ww _).bind fun _ x wx _ => ?_
        exact (publish_wires (a := .members) (fun _ hm => nomatch hm) (wx ww).wellFormed).bind
          fun _ _ _ _ => .pure trivial
      by_cases upto : level ≤ .signatures
      · rw [if_pos upto]
        exact expect_wires
      rw [if_neg upto]
      unfold loadBodies
      have known := (wt ww).wellFormed
      refine (resolveAll_wires references known _).bind fun _ x tx _ => ?_
      exact publish_wires (a := .bodies) (fun _ hm => nomatch hm) (tx known).wellFormed

theorem resolve_wires : Finds (resolve s mode name level) u :=
  resolveBy_wires (resolveAlong_wires _) (resolveAlong_wires _)

theorem tryLoad_wires (wf : u.IsWellFormed) :
    Keeps Wires (tryLoad s name level) u fun _ _ => True := by
  have resolved : Keeps Wires (resolve s .regular name level) u fun id v => v.IsRegistered id :=
    resolve_wires wf
  unfold Keeps at resolved ⊢
  unfold tryLoad
  cases hr : resolve s .regular name level u with
  | ok id v =>
      rw [hr] at resolved
      exact ⟨resolved.1, trivial⟩
  | error e v =>
      rw [hr] at resolved
      cases e
      case classNotFound missing =>
        dsimp only
        by_cases h : missing = name
        · rw [if_pos h]
          exact ⟨resolved, trivial⟩
        · rw [if_neg h]
          exact resolved
      all_goals exact resolved

theorem loadWithSupport_wires : Finds (loadWithSupport s name) u := by
  intro wf
  unfold loadWithSupport
  refine (resolve_wires wf).bind fun id v wires registered => ?_
  refine .get_bind ?_
  by_cases phantom : (v.record id).isPhantom = true
  · rw [if_pos phantom]
    exact .pure registered
  · rw [if_neg phantom]
    exact resolve_wires (wires wf).wellFormed

theorem perform_wires (wf : u.IsWellFormed) (q : Request) :
    Keeps Wires (q.perform s) u fun _ _ => True := by
  cases q with
  | resolve mode name level => exact (resolve_wires wf).bind fun _ _ _ _ => .pure trivial
  | tryLoad name level => exact tryLoad_wires wf
  | loadWithSupport name => exact (loadWithSupport_wires wf).bind fun _ _ _ _ => .pure trivial
  | close =>
      refine .of_ok rfl (.of_targets (fun wf => ⟨wf.of_eq rfl rfl rfl, .of_eq rfl rfl rfl rfl⟩)
        fun _ => List.Subset.refl _) trivial

/-- A request links classes to registered classes alone, whatever the supply has. -/
theorem wired_request (wf : u.IsWellFormed) (s : Supply) (q : Request) : u.Wired (q.run s u) :=
  (perform_wires wf q).after_rel wf

end Universe

namespace Call

open Universe

variable {u : Universe} {c : Call} {id target : ClassId}

/-- A call leaves links to registered classes and the links that there were. -/
theorem names_run (wf : u.IsWellFormed) (h : c.IsIndirect) (named : (c.run u).Names id target) :
    u.Names id target ∨ (c.run u).IsRegistered target := by
  have does := does_run wf c
  generalize c.run u = v at does named ⊢
  cases does with
  | nothing | close => exact .inl named
  | make r fresh =>
      have bare : r.targets = [] := by simp [ClassRecord.targets, h.1, h.2]
      have both := targets_withNew u r id named
      rw [bare, List.append_nil] at both
      exact .inl both
  | edit | letGo => cases h
  | enter one =>
      rw [Names, targets_enter] at named
      exact .inl named
  | leave one =>
      rw [Names, targets_without] at named
      exact .inl named
  | move one p =>
      rw [Names, targets_moved] at named
      exact .inl named
  | haunt name => exact .inl (targets_haunted u name id named)
  | resolve s q => exact (wired_request wf s q).links named

theorem released_run (wf : u.IsWellFormed) (h : c.IsIndirect) :
    (c.run u).catalog.released = u.catalog.released := by
  have does := does_run wf c
  generalize c.run u = v at does ⊢
  cases does with
  | nothing | make | enter | leave | move | close => rfl
  | edit | letGo => cases h
  | haunt name absent => exact (wf.haunted absent).2.released
  | resolve s q => exact (wired_request wf s q).grows.released

end Call

end ClassUniverse
