import ClassUniverse.Proofs.Hierarchy.Orderly
import ClassUniverse.Proofs.Resolution.Declared

/-!
# What a class keeps

Whatever happens to a universe, a class that has been made keeps its flags, does not fall to a lower
level, and stays a phantom if it is one.  Only a removal changes whether it is registered, and once
it is loaded with bodies only a move to the phantoms makes a phantom of it.
-/

namespace ClassUniverse

namespace Universe

variable {s : Supply} {u v w : Universe} {id other : ClassId} {name : String}
  {d : ClassDefinition} {a : Addition} {level : Level} {p : Partition}

/-- What a class keeps whatever happens. -/
structure Retains (u v : Universe) (id : ClassId) : Prop where
  made : v.catalog.IsMade id
  modifiers : (v.record id).modifiers = (u.record id).modifiers
  level : (u.record id).level ≤ (v.record id).level
  phantom : (u.record id).isPhantom = true → (v.record id).isPhantom = true

/-- What a class keeps that is neither removed nor moved to the phantoms. -/
structure Spares (u v : Universe) (id : ClassId) : Prop extends Retains u v id where
  registered : v.IsRegistered id ↔ u.IsRegistered id
  settled : u.isLoaded id .bodies = true → (v.record id).isPhantom = (u.record id).isPhantom

namespace Retains

theorem of_record (made : v.catalog.IsMade id) (same : v.record id = u.record id) :
    u.Retains v id where
  made := made
  modifiers := by rw [same]
  level := by
    rw [same]
    exact Nat.le_refl _
  phantom h := by rw [same, h]

theorem trans (first : u.Retains v id) (second : v.Retains w id) : u.Retains w id where
  made := second.made
  modifiers := second.modifiers.trans first.modifiers
  level := Level.le_trans first.level second.level
  phantom h := second.phantom (first.phantom h)

theorem isLoaded (h : u.Retains v id) (loaded : u.isLoaded id level = true) :
    v.isLoaded id level = true := by
  rw [isLoaded_iff] at loaded ⊢
  exact loaded.imp h.phantom fun high => Level.le_trans high h.level

end Retains

namespace Spares

theorem of_record (made : v.catalog.IsMade id) (same : v.record id = u.record id)
    (registered : v.IsRegistered id ↔ u.IsRegistered id) : u.Spares v id where
  toRetains := .of_record made same
  registered := registered
  settled _ := by rw [same]

theorem refl (made : u.catalog.IsMade id) : u.Spares u id := .of_record made rfl .rfl

theorem trans (first : u.Spares v id) (second : v.Spares w id) : u.Spares w id where
  toRetains := first.toRetains.trans second.toRetains
  registered := second.registered.trans first.registered
  settled loaded := (second.settled (first.isLoaded loaded)).trans (first.settled loaded)

/-- A change that touches one class spares the others. -/
theorem of_touches (touches : u.Touches v other) (grows : u.Grows v) (made : u.catalog.IsMade id)
    (different : id ≠ other) : u.Spares v id := by
  refine .of_record (grows.made made) (touches.others different made) ?_
  constructor
  · intro registered
    exact registered.imp fun _ found => touches.known found different
  · intro registered
    exact registered.imp fun _ found => grows.find found

end Spares

theorem isRegistered_congr (find : ∀ name, v.find? name = u.find? name) :
    v.IsRegistered id ↔ u.IsRegistered id := by
  unfold IsRegistered
  simp only [find]

/-! ## Moves between partitions -/

theorem retains_moved (made : u.catalog.IsMade id) (p : Partition) :
    u.Retains (u.moved other p) id where
  made := (Grows.moved u other p).made made
  modifiers := by
    by_cases same : id = other
    · subst same
      rw [record_moved_self made]
      rfl
    · rw [record_moved_of_ne same]
  level := (Grows.moved u other p).level made
  phantom := (Grows.moved u other p).phantom made

/-- A class that is moved is spared unless it is moved to the phantoms with its bodies loaded. -/
theorem spares_moved (made : u.catalog.IsMade id)
    (kept : id = other → p = .phantom → u.isLoaded id .bodies = false) :
    u.Spares (u.moved other p) id where
  toRetains := retains_moved made p
  registered := isRegistered_congr (find?_moved u other p)
  settled loaded := by
    by_cases same : id = other
    · subst same
      have kind : p ≠ .phantom := by
        intro phantom
        rw [kept rfl phantom] at loaded
        cases loaded
      rw [record_moved_self made]
      simp [ClassRecord.assign, kind]
    · rw [record_moved_of_ne same]

/-! ## Resolution -/

theorem spares_lift (made : u.catalog.IsMade id) : u.Spares (u.lift d other a) id := by
  by_cases same : id = other
  · subst same
    have grows : u.Grows (u.lift d id a) := .lift
    refine ⟨⟨grows.made made, ?_, grows.level made, grows.phantom made⟩,
      isRegistered_congr fun _ => find?_lift, fun _ => ?_⟩
    · rw [record_lift_self made, modifiers_raise, modifiers_onRecord]
    · rw [record_lift_self made, (ClassRecord.raise_standsAs _ _).isPhantom,
        (Addition.onRecord_standsAs _ _ _ _).isPhantom]
  · exact .of_touches (touches_lift u d other a) .lift made same

theorem ne_next (made : u.catalog.IsMade id) : id ≠ u.next := by
  rintro rfl
  exact Catalog.not_isMade_new u.catalog default made

theorem spares_haunted (wf : u.IsWellFormed) (new : u.find? name = none)
    (made : u.catalog.IsMade id) : u.Spares (u.haunted name) id :=
  .of_touches (touches_haunted u name) (wf.haunted new).2 made (ne_next made)

theorem spares_register (wf : u.IsWellFormed) (new : u.find? d.name = none)
    (made : u.catalog.IsMade id) : u.Spares (u.register d a) id :=
  .of_touches (touches_register u d a) (wf.register new).2 made (ne_next made)

end Universe

open Universe

variable {s : Supply} {floor : Level} {u v : Universe} {id : ClassId}

/-- A move of resolution spares every class: one that it makes a phantom had no bodies. -/
theorem Move.spares (wf : u.IsWellFormed) (m : Move s floor u v) (made : u.catalog.IsMade id) :
    u.Spares v id := by
  cases m with
  | ask => exact .of_record made rfl .rfl
  | @demote name other absent found allowed below =>
      refine spares_moved made fun same _ => ?_
      rw [same]
      exact below
  | phantom absent new allowed => exact spares_haunted wf new made
  | register a given above new ready => exact spares_register wf new made
  | lift a given above found below ready => exact spares_lift made

theorem Moves.spares (wf : u.IsWellFormed) (m : Moves s floor u v) (made : u.catalog.IsMade id) :
    u.Spares v id := by
  induction m with
  | refl => exact .refl made
  | @tail v w before step ih => exact ih.trans (step.spares (Moves.isWellFormed wf before) ih.made)

theorem Request.spares (wf : u.IsWellFormed) (s : Supply) (q : Request)
    (made : u.catalog.IsMade id) : u.Spares (q.run s u) id := by
  cases run_request wf s q with
  | inl moves => exact moves.spares wf made
  | inr closed =>
      rw [closed]
      exact .of_record made rfl .rfl

namespace Universe

variable {other : ClassId} {name : String} {p : Partition}

/-! ## Calls -/

theorem spares_getOrCreatePhantom (wf : u.IsWellFormed) (name : String)
    (made : u.catalog.IsMade id) : u.Spares (after (getOrCreatePhantom name) u) id := by
  rw [after_getOrCreatePhantom]
  split
  next new => exact spares_haunted wf new.1 made
  next => exact .refl made

theorem retains_reclassify (made : u.catalog.IsMade id) (p : Partition) :
    u.Retains (after (reclassify other p) u) id := by
  rw [after_reclassify]
  split
  · exact retains_moved made p
  · exact .of_record made rfl

theorem isRegistered_reclassify (u : Universe) (id other : ClassId) (p : Partition) :
    (after (reclassify other p) u).IsRegistered id ↔ u.IsRegistered id := by
  rw [after_reclassify]
  split
  · exact isRegistered_congr (find?_moved u other p)
  · exact .rfl

/-- A class is spared by the move of another one, and by a move to the application or to the
library. -/
theorem spares_reclassify (made : u.catalog.IsMade id) (kept : id = other → p ≠ .phantom) :
    u.Spares (after (reclassify other p) u) id := by
  rw [after_reclassify]
  split
  · exact spares_moved made fun same phantom => absurd phantom (kept same)
  · exact .refl made

theorem succeeds_reclassify (u : Universe) (id : ClassId) :
    succeeds (reclassify id .phantom) u = u.isManaged id := by
  unfold succeeds
  rw [reclassify_apply]
  cases u.isManaged id
  · rfl
  · simp only [Bool.not_true, bne_self_eq_false, Bool.and_false]
    rfl

/-- A class is a phantom after a move to the phantoms if it was one or if the move succeeds. -/
theorem isPhantom_reclassify (made : u.catalog.IsMade id) :
    ((after (reclassify id .phantom) u).record id).isPhantom = true ↔
      (u.record id).isPhantom = true ∨ succeeds (reclassify id .phantom) u = true := by
  rw [succeeds_reclassify, after_reclassify]
  cases managed : u.isManaged id with
  | true =>
      simp only [bne_self_eq_false, Bool.and_false, Bool.not_false, Bool.and_true, ↓reduceIte]
      rw [record_moved_self made]
      simp [ClassRecord.assign]
  | false => simp

theorem succeeds_removeClass (u : Universe) (id : ClassId) :
    succeeds (removeClass id) u = u.isManaged id := by
  unfold succeeds
  rw [removeClass_apply]
  cases u.isManaged id <;> rfl

theorem retains_removeClass (made : u.catalog.IsMade id) (other : ClassId) :
    u.Retains (after (removeClass other) u) id := by
  rw [after_removeClass]
  split
  · have made' : (u.without other).catalog.IsMade id := Catalog.isMade_modify.mpr made
    by_cases same : id = other
    · subst same
      have record := record_without_self made
      refine ⟨made', by rw [record]; rfl, by rw [record]; exact Nat.le_refl _, fun phantom => ?_⟩
      rw [record]
      simp [ClassRecord.assign, phantom]
    · exact .of_record made' (record_without_of_ne same)
  · exact .of_record made rfl

/-- A removal leaves alone whether a class is a phantom. -/
theorem isPhantom_removeClass (made : u.catalog.IsMade id) (other : ClassId) :
    ((after (removeClass other) u).record id).isPhantom = (u.record id).isPhantom := by
  rw [after_removeClass]
  split
  · by_cases same : id = other
    · subst same
      rw [record_without_self made]
      simp [ClassRecord.assign]
    · rw [record_without_of_ne same]
  · rfl

/-- What is registered after a removal. -/
theorem isRegistered_removeClass (wf : u.IsWellFormed) (id other : ClassId) :
    (after (removeClass other) u).IsRegistered id ↔
      u.IsRegistered id ∧ ¬ (other = id ∧ succeeds (removeClass other) u = true) := by
  rw [succeeds_removeClass, after_removeClass]
  cases managed : u.isManaged other with
  | false => simp
  | true =>
      simp only [↓reduceIte, and_true]
      obtain ⟨name, found⟩ := wf.isManaged_iff.mp managed
      have named := (wf.stands found).named
      constructor
      · intro registered
        obtain ⟨name', found'⟩ := registered
        rw [find?_without] at found'
        split at found'
        next => cases found'
        next different =>
          refine ⟨⟨name', found'⟩, fun same => different ?_⟩
          subst same
          exact (wf.stands found').named.symm
      · intro both
        obtain ⟨⟨name', found'⟩, different⟩ := both
        refine ⟨name', ?_⟩
        rw [find?_without, if_neg, found']
        rintro rfl
        rw [named, found] at found'
        exact different (Option.some.inj found')

end Universe

end ClassUniverse
