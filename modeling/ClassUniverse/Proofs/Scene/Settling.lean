import ClassUniverse.Proofs.Resolution.Termination
import ClassUniverse.Proofs.Scene.Rules
import Mathlib.Data.Finset.Card

/-!
# Settled scenes

The rules are applied in rounds, each to the classes that the rounds before have brought.  A round
that meets a class that is no phantom meets a definition for the first time, and a round that meets
phantoms alone changes nothing, so the rounds do not run out.  At the end all classes are where the
options want them.
-/

namespace ClassUniverse

/-- Which names are those of application classes once the rules have been applied to some names. -/
def Options.Places (o : Options) (m : MemorySource) (met : List String) (name : String) : Prop :=
  (name ∈ met ∧ o.Takes m name) ∨ (name ∉ met ∧ o.Chooses m name)

theorem Options.places_nil {o : Options} {m : MemorySource} (name : String) :
    o.Chooses m name ↔ o.Places m [] name := by
  simp [Options.Places]

theorem Options.places_snoc {o : Options} {m : MemorySource} (met : List String) (name : String) :
    Function.update (o.Places m met) name (o.Takes m name) = o.Places m (met ++ [name]) := by
  funext other
  by_cases h : other = name
  · subst h
    simp [Options.Places]
  · simp [Options.Places, h]

/-- The number of definitions under names that have not been met. -/
def MemorySource.unmet (m : MemorySource) (met : List String) : Nat :=
  (m.definitions.keys.toFinset \ met.toFinset).card

theorem MemorySource.unmet_le (m : MemorySource) (met : List String) :
    m.unmet met ≤ m.supply.size :=
  calc m.unmet met ≤ m.definitions.keys.toFinset.card := Finset.card_le_card Finset.sdiff_subset
    _ ≤ m.definitions.keys.length := List.toFinset_card_le _
    _ = m.supply.size := List.length_map _

theorem MemorySource.unmet_lt {m : MemorySource} {met met' : List String} {name : String}
    (defined : name ∈ m.definitions.keys) (new : name ∉ met) (isMet : name ∈ met')
    (sub : met ⊆ met') : m.unmet met' < m.unmet met := by
  refine Finset.card_lt_card (Finset.ssubset_iff_of_subset ?_ |>.mpr ⟨name, ?_, ?_⟩)
  · refine Finset.sdiff_subset_sdiff (Finset.Subset.refl _) fun n hn => ?_
    exact List.mem_toFinset.mpr (sub (List.mem_toFinset.mp hn))
  · simp [defined, new]
  · simp [isMet]

namespace Scene

variable {env : Surroundings} {o : Options} {m : MemorySource} {sc t : Scene} {name : String}
  {id : ClassId} {met : List String}

/-! ## Rounds -/

/-- Applies the rules as `settleClasses` does, and does something else where the rounds run out. -/
def settleClassesOr (stop : SceneAction Unit) (env : Surroundings) :
    (rounds : Nat) → (met : List String) → SceneAction Unit
  | 0, _ => stop
  | rounds + 1, met => do
      let s ← get
      if (s.pending met).isEmpty then return
      (s.pending met).forM (visit env)
      settleClassesOr stop env rounds (s.metAfter met)

theorem settleClassesOr_pure (env : Surroundings) (rounds : Nat) (met : List String) :
    settleClassesOr (pure ()) env rounds met = settleClasses env rounds met := by
  induction rounds generalizing met with
  | zero => rfl
  | succ rounds ih => simp only [settleClassesOr, settleClasses, ih]

theorem settleClassesOr_succ (stop : SceneAction Unit) (env : Surroundings) (rounds : Nat)
    (met : List String) (sc : Scene) :
    settleClassesOr stop env (rounds + 1) met sc =
      if (sc.pending met).isEmpty then .ok () sc
      else match (sc.pending met).forM (visit env) sc with
        | .ok _ t => settleClassesOr stop env rounds (sc.metAfter met) t
        | .error e t => .error e t := by
  simp only [settleClassesOr, bind_apply, get_apply]
  split
  · rfl
  · rw [bind_apply]
    cases (sc.pending met).forM (visit env) sc <;> rfl

theorem mem_pending_iff : id ∈ sc.pending met ↔
    (∃ name, sc.core.find? name = some id) ∧ (sc.record id).name ∉ met := by
  unfold pending
  rw [List.mem_filter, Registry.mem_ids_iff]
  simp [Universe.find?]

theorem pending_metAfter : sc.pending (sc.metAfter met) = [] := by
  rw [List.eq_nil_iff_forall_not_mem]
  intro id hm
  obtain ⟨registered, new⟩ := mem_pending_iff.mp hm
  unfold metAfter at new
  rw [List.mem_append, not_or] at new
  exact new.2 (List.mem_map.mpr ⟨id, mem_pending_iff.mpr ⟨registered, new.1⟩, rfl⟩)

theorem visit_phantom (phantom : (sc.record id).isPhantom = true) :
    visit env id sc = .ok () sc := by
  simp only [visit, bind_apply, get_apply, phantom]
  rfl

theorem forM_visit_phantoms {ids : List ClassId}
    (phantoms : ∀ id ∈ ids, (sc.record id).isPhantom = true) :
    ids.forM (visit env) sc = .ok () sc := by
  induction ids with
  | nil => rfl
  | cons id ids ih =>
      change (visit env id >>= fun _ => ids.forM (visit env)) sc = _
      simp only [bind_apply, visit_phantom (phantoms id List.mem_cons_self)]
      exact ih fun id hm => phantoms id (List.mem_cons_of_mem _ hm)

/-- A scene where the rules have been applied to some names, with all that has been registered in a
universe of the past. -/
structure IsSettling (sc : Scene) (o : Options) (m : MemorySource) (past : Universe)
    (met : List String) : Prop where
  loading : sc.IsLoading o m (o.Places m met) (o.Places m met)
  kept : ∀ other id', past.find? other = some id' → sc.core.find? other = some id'

/-- A visit applies the rules to one more name, which may have been met before. -/
theorem IsSettling.visit {past : Universe} (h : sc.IsSettling o m past met) (env : Surroundings)
    (found : past.find? name = some id) :
    Ends (Scene.visit env id) sc fun _ t => t.IsSettling o m past (met ++ [name]) := by
  have found' := h.kept name id found
  have start : (o.Places m met name ↔ o.Chooses m name) ∨
      (o.Places m met name ↔ o.Takes m name) := by
    by_cases hm : name ∈ met
    · exact .inr (by simp [Options.Places, hm])
    · exact .inl (by simp [Options.Places, hm])
  unfold Scene.visit
  refine .get_bind ?_
  cases kind : (sc.record id).isPhantom with
  | true =>
      have placed := h.loading.placed.of_phantom found' kind (o.Takes m name) (o.Takes m name)
      rw [Options.places_snoc] at placed
      exact .pure ⟨h.loading.of_placed placed, h.kept⟩
  | false =>
      have focused : sc.HasClass o m (o.Places m met) (o.Places m met) past name id
          (o.Places m met name) := by
        refine ⟨?_, found', kind, h.kept⟩
        rw [Function.update_eq_self]
        exact h.loading
      refine (focused.applyRules env (fun app => app) start).mono ?_
      intro _ t _ ⟨ht, kept⟩
      rw [Options.places_snoc] at ht
      exact ⟨ht, kept⟩

theorem IsLoading.round (h : sc.IsLoading o m (o.Places m met) (o.Places m met))
    (env : Surroundings) :
    Ends ((sc.pending met).forM (Scene.visit env)) sc fun _ t =>
      t.IsLoading o m (o.Places m (sc.metAfter met)) (o.Places m (sc.metAfter met)) := by
  have start : sc.IsSettling o m sc.core (met ++ []) := by
    rw [List.append_nil]
    exact ⟨h, fun _ _ found => found⟩
  refine (Keeps.forM_prefix (I := fun done (t : Scene) =>
    t.IsSettling o m sc.core (met ++ done.map fun id => (sc.record id).name)) _ start
    fun done id hm t ht => ?_).mono fun _ _ _ hv => hv.loading
  obtain ⟨⟨name, found⟩, -⟩ := mem_pending_iff.mp hm
  have named : (sc.record id).name = name := (h.built.wf.stands found).named
  rw [List.map_append, ← List.append_assoc, List.map_singleton, named]
  exact ht.visit env found

/-- A round with a class that is no phantom meets a definition for the first time. -/
theorem IsLoading.unmet_lt (h : sc.IsLoading o m (o.Places m met) (o.Places m met))
    (hm : id ∈ sc.pending met) (real : (sc.record id).isPhantom = false) :
    m.unmet (sc.metAfter met) < m.unmet met := by
  obtain ⟨⟨name, found⟩, new⟩ := mem_pending_iff.mp hm
  have named : (sc.record id).name = name := (h.built.wf.stands found).named
  obtain ⟨d, given, -⟩ := h.built.faithful.shows found real
  have defined : name ∈ m.definitions.keys :=
    (OrderedMap.mem_keys_iff _).mpr ⟨d, Except.ok.inj given⟩
  refine MemorySource.unmet_lt defined (named ▸ new) ?_ (List.subset_append_left _ _)
  exact List.mem_append_right _ (List.mem_map.mpr ⟨id, hm, named⟩)

/-- Where there are two rounds more than definitions under names that have not been met, the rounds
do not run out, and the rules have been applied to all classes in the end. -/
theorem IsLoading.settle (h : sc.IsLoading o m (o.Places m met) (o.Places m met)) {rounds : Nat}
    (enough : m.unmet met + 2 ≤ rounds) (stop : SceneAction Unit) (env : Surroundings) :
    settleClassesOr stop env rounds met sc = settleClasses env rounds met sc ∧
      Ends (settleClasses env rounds met) sc fun _ t => ∃ met,
        t.IsLoading o m (o.Places m met) (o.Places m met) ∧ t.pending met = [] := by
  rw [← settleClassesOr_pure]
  induction rounds generalizing met sc with
  | zero => omega
  | succ rounds ih =>
      unfold Ends Keeps
      rw [settleClassesOr_succ, settleClassesOr_succ]
      by_cases settled : (sc.pending met).isEmpty
      · rw [if_pos settled, if_pos settled]
        exact ⟨rfl, trivial, met, h, List.isEmpty_iff.mp settled⟩
      · rw [if_neg settled, if_neg settled]
        have round := h.round env
        unfold Ends Keeps at round
        by_cases phantoms : ∀ id ∈ sc.pending met, (sc.record id).isPhantom = true
        · -- The scene is as before, with nothing pending.
          rw [forM_visit_phantoms phantoms] at round ⊢
          obtain ⟨left, rfl⟩ : ∃ left, rounds = left + 1 := ⟨rounds - 1, by omega⟩
          have none : (sc.pending (sc.metAfter met)).isEmpty := by rw [pending_metAfter]; rfl
          simp only [settleClassesOr_succ, if_pos none]
          exact ⟨trivial, trivial, _, round.2, pending_metAfter⟩
        · obtain ⟨id, hm, real⟩ : ∃ id ∈ sc.pending met, (sc.record id).isPhantom = false := by
            simpa using phantoms
          have fewer := h.unmet_lt hm real
          cases hr : (sc.pending met).forM (Scene.visit env) sc with
          | error e t => exact ⟨rfl, trivial⟩
          | ok a t =>
              rw [hr] at round
              exact ih round.2 (by omega)

end Scene

end ClassUniverse
