import ClassUniverse.Proofs.Scene.Gathering

/-!
# The rules of the options

The options say which classes are application classes: those that they name and those that match an
included pattern are, and of the others those of the process directories, or all of them, that match
no excluded pattern.  This is what becomes of a class when the rules are applied to it, from
whichever partition it starts.
-/

namespace ClassUniverse

namespace Options

/-- Whether a name matches a pattern of classes to analyze in any case. -/
def Includes (o : Options) (name : String) : Prop :=
  ∃ pattern ∈ o.included, PackagePattern.covers pattern name = true

/-- Whether a name matches a pattern of excluded packages. -/
def Excludes (o : Options) (name : String) : Prop :=
  ∃ pattern ∈ Scene.excludedPackages o, PackagePattern.covers pattern name = true

/-- Whether a class of a name is to be an application class. -/
def Takes (o : Options) (m : MemorySource) (name : String) : Prop :=
  name ∈ o.classes ∨ o.Includes name ∨
    (¬ o.Excludes name ∧ (o.app = true ∨ m.Lists o.processDirs name))

end Options

namespace Scene

variable {env : Surroundings} {o : Options} {m : MemorySource} {sc t : Scene} {name : String}
  {id : ClassId} {apps full : String → Prop} {app : Prop}

theorem IsLoading.isIncluded_iff (h : sc.IsLoading o m apps full) (name : String) :
    sc.isIncluded name = true ↔ o.Includes name := by
  unfold Scene.isIncluded Options.Includes
  rw [h.options, List.any_eq_true]

theorem IsLoading.isExcluded_iff (h : sc.IsLoading o m apps full) (name : String) :
    sc.isExcluded name = true ↔ o.Excludes name ∧ ¬ o.Includes name := by
  unfold Scene.isExcluded Options.Excludes
  rw [Bool.and_eq_true, Bool.not_eq_true', Bool.eq_false_iff, Ne, h.isIncluded_iff, h.excluded,
    List.any_eq_true]

/-- A scene that is being loaded, with a class that is no phantom, which is an application class or
not as a condition says, and with all that has been registered in a universe of the past. -/
structure HasClass (sc : Scene) (o : Options) (m : MemorySource) (apps full : String → Prop)
    (past : Universe) (name : String) (id : ClassId) (app : Prop) : Prop where
  loading : sc.IsLoading o m (Function.update apps name app) full
  found : sc.core.find? name = some id
  real : (sc.record id).isPhantom = false
  kept : ∀ other id', past.find? other = some id' → sc.core.find? other = some id'

namespace HasClass

variable {past : Universe} {app' : Prop} {p : Partition}

theorem of_iff (h : sc.HasClass o m apps full past name id app) (same : app ↔ app') :
    sc.HasClass o m apps full past name id app' := propext same ▸ h

theorem named (h : sc.HasClass o m apps full past name id app) : (sc.record id).name = name :=
  (h.loading.built.wf.stands h.found).named

theorem partition_iff (h : sc.HasClass o m apps full past name id app) :
    ((sc.record id).partition == some .application) = true ↔ app := by
  rw [beq_iff_eq]
  have placed := h.loading.placed.application h.found h.real
  rwa [Function.update_self] at placed

theorem reclassify (h : sc.HasClass o m apps full past name id app) (kind : p ≠ .phantom) :
    Ends (onUniverse (Universe.reclassify id p)) sc fun _ t =>
      t.HasClass o m apps full past name id (p = .application) := by
  refine (h.loading.reclassify h.found h.real p kind).mono ?_
  intro _ t _ ⟨ht, same, real⟩
  rw [Function.update_idem] at ht
  exact ⟨ht, (same name).trans h.found, real, fun other id' old =>
    (same other).trans (h.kept other id' old)⟩

/-- A class that is moved to a partition under a condition. -/
theorem reclassifyIf {c : Prop} [Decidable c] {β : Type} {Q : β → Scene → Prop}
    {f : PUnit → SceneAction β} (h : sc.HasClass o m apps full past name id app)
    (kind : p ≠ .phantom) (app' : Prop) (moved : c → ((p = .application) ↔ app'))
    (left : ¬ c → (app ↔ app'))
    (hf : ∀ t, t.HasClass o m apps full past name id app' → Ends (f ⟨⟩) t Q) :
    Ends (if c then onUniverse (Universe.reclassify id p) >>= f else f ⟨⟩) sc Q :=
  Keeps.optional (fun hc => (h.reclassify kind).mono fun _ _ _ ht => ht.of_iff (moved hc))
    (fun hn => h.of_iff (left hn)) fun t _ ht => hf t ht

end HasClass

/-- The rules for a class that is not named by the options, one after the other. -/
theorem takes_iff (unnamed : name ∉ o.classes)
    (start : (app ↔ o.Chooses m name) ∨ (app ↔ o.Takes m name)) :
    o.Takes m name ↔
      o.Includes name ∨ ((o.app = true ∨ app) ∧ ¬ (o.Excludes name ∧ ¬ o.Includes name)) := by
  by_cases included : o.Includes name
  · exact iff_of_true (.inr (.inl included)) (.inl included)
  · have takes : o.Takes m name ↔
        ¬ o.Excludes name ∧ (o.app = true ∨ m.Lists o.processDirs name) := by
      simp only [Options.Takes, unnamed, included, false_or]
    have chooses : o.Chooses m name ↔ m.Lists o.processDirs name := by
      simp only [Options.Chooses, unnamed, false_or]
    rw [chooses, takes] at start
    rw [takes, or_iff_right included, and_iff_left included]
    rcases start with start | start
    · rw [start, and_comm]
    · rw [start]
      constructor
      · exact fun h => ⟨.inr h, h.1⟩
      · rintro ⟨asked | h, within⟩
        · exact ⟨within, .inl asked⟩
        · exact h

/-- Applying the rules to a class places it as the options say, if before it has been an application
class by choice or by the rules, and then with bodies. -/
theorem HasClass.applyRules {past : Universe} (h : sc.HasClass o m apps full past name id app)
    (env : Surroundings) (ready : app → full name)
    (start : (app ↔ o.Chooses m name) ∨ (app ↔ o.Takes m name)) :
    Ends (Scene.applyRules env id) sc fun _ t =>
      t.IsLoading o m (Function.update apps name (o.Takes m name))
        (Function.update full name (o.Takes m name)) ∧
      ∀ other id', past.find? other = some id' → t.core.find? other = some id' := by
  have less {deep : Prop} (hd : deep → full name) (n : String) :
      Function.update full name deep n → full n := by
    by_cases hn : n = name
    · subst hn
      rwa [Function.update_self]
    · rw [Function.update_of_ne hn]
      exact fun hf => hf
  unfold Scene.applyRules
  refine .get_bind ?_
  refine .get_bind ?_
  rw [h.named, h.loading.options]
  refine h.reclassifyIf (by decide) (o.app = true ∨ app) (fun asked => by simp [asked])
    (fun unasked => by simp [unasked]) fun t ht => ?_
  by_cases isNamed : name ∈ o.classes
  · rw [if_pos (List.contains_iff_mem.mpr isNamed)]
    have takes : o.Takes m name := .inl isNamed
    have deep : full name := by
      refine ready ?_
      rcases start with same | same
      · exact same.mpr (.inl isNamed)
      · exact same.mpr takes
    refine (ht.reclassify (by decide)).mono fun _ v _ hv => ?_
    have same : (Partition.application = .application) ↔ o.Takes m name := iff_of_true rfl takes
    have taken := hv.of_iff same
    exact ⟨taken.loading.of_placed (taken.loading.placed.weaken (less fun _ => deep)), taken.kept⟩
  · rw [if_neg (by simpa using isNamed)]
    have rule := takes_iff isNamed start
    refine .get_bind ?_
    refine .get_bind ?_
    refine ht.reclassifyIf (by decide)
      ((o.app = true ∨ app) ∧ ¬ (o.Excludes name ∧ ¬ o.Includes name))
      (fun out => ?_) (fun stays => ?_) fun t ht => ?_
    · rw [Bool.and_eq_true, ht.partition_iff, ht.loading.isExcluded_iff] at out
      exact iff_of_false (by decide) fun h => h.2 out.2
    · rw [Bool.and_eq_true, ht.partition_iff, ht.loading.isExcluded_iff] at stays
      exact ⟨fun h => ⟨h, fun out => stays ⟨h, out⟩⟩, And.left⟩
    refine .get_bind ?_
    refine ht.reclassifyIf (by decide) (o.Takes m name) (fun within => ?_) (fun without => ?_)
      fun t ht => ?_
    · rw [ht.loading.isIncluded_iff] at within
      exact iff_of_true rfl (rule.mpr (.inl within))
    · rw [ht.loading.isIncluded_iff] at without
      rw [rule, or_iff_right without]
    refine .get_bind ?_
    by_cases takes : o.Takes m name
    · rw [if_pos (ht.partition_iff.mpr takes)]
      refine (ht.loading.loadWithSupport env name).bind fun _ v _ ⟨hv, grows, served⟩ => .pure ?_
      refine ⟨hv.of_placed ((hv.placed.deepen served).weaken fun n => ?_), fun other id' old =>
        grows.find (ht.kept other id' old)⟩
      by_cases hn : n = name
      · exact fun _ => .inl hn
      · rw [Function.update_of_ne hn]
        exact .inr
    · rw [if_neg (ht.partition_iff.not.mpr takes)]
      exact .pure ⟨ht.loading.of_placed (ht.loading.placed.weaken (less fun h => absurd h takes)),
        ht.kept⟩

end Scene

end ClassUniverse
