import ClassUniverse.Proofs.Resolution.Faithful
import ClassUniverse.Proofs.Universe.Runs

/-!
# What the number of changes tells

The number of changes never falls.  As long as it stays what it is, the same classes are registered,
and a class that is linked to its supertypes keeps its links: resolution goes on only with classes
that are below `hierarchy`.
-/

namespace ClassUniverse

/-- Two records of a class that agree on its name, its flags and its supertypes. -/
structure ClassRecord.LinksLike (a b : ClassRecord) : Prop where
  name : a.name = b.name
  modifiers : a.modifiers = b.modifiers
  superclass : a.superclass = b.superclass
  interfaces : a.interfaces = b.interfaces

namespace ClassRecord.LinksLike

variable {a b c : ClassRecord}

theorem refl (a : ClassRecord) : a.LinksLike a := ⟨rfl, rfl, rfl, rfl⟩

theorem trans (h : a.LinksLike b) (k : b.LinksLike c) : a.LinksLike c where
  name := h.name.trans k.name
  modifiers := h.modifiers.trans k.modifiers
  superclass := h.superclass.trans k.superclass
  interfaces := h.interfaces.trans k.interfaces

end ClassRecord.LinksLike

namespace Registry

theorem changes_put (r : Registry) (name : String) (p : Partition) :
    (r.put name p).changes = r.changes := by
  cases p <;> rfl

theorem classes_put (r : Registry) (name : String) (p : Partition) :
    (r.put name p).classes = r.classes := by
  cases p <;> rfl

end Registry

namespace Universe

variable {u v w : Universe} {name : String} {id : ClassId} {d : ClassDefinition} {a : Addition}

/-- A change after which the same classes are registered and no linked class has got other
supertypes. -/
structure Still (u v : Universe) : Prop where
  classes : v.registry.classes = u.registry.classes
  links : ∀ {id}, u.catalog.IsMade id → u.isLoaded id .hierarchy = true →
    (v.record id).LinksLike (u.record id)
  loaded : ∀ {id}, u.catalog.IsMade id → u.isLoaded id .hierarchy = true →
    v.isLoaded id .hierarchy = true

/-- A change that counts when it is more than resolution of registered classes. -/
structure Counts (u v : Universe) : Prop where
  le : u.registry.changes ≤ v.registry.changes
  made : ∀ {id}, u.catalog.IsMade id → v.catalog.IsMade id
  still : v.registry.changes = u.registry.changes → u.Still v

namespace Counts

theorem of_records (le : u.registry.changes ≤ v.registry.changes)
    (classes : v.registry.changes = u.registry.changes → v.registry.classes = u.registry.classes)
    (made : ∀ {id}, u.catalog.IsMade id → v.catalog.IsMade id)
    (record : ∀ {id}, u.catalog.IsMade id → (v.record id).LinksLike (u.record id))
    (loaded : ∀ {id}, u.catalog.IsMade id → u.isLoaded id .hierarchy = true →
      v.isLoaded id .hierarchy = true) : u.Counts v where
  le := le
  made := made
  still same := ⟨classes same, fun hm _ => record hm, loaded⟩

theorem of_eq (catalog : v.catalog = u.catalog) (registry : v.registry = u.registry) :
    u.Counts v := by
  have record (id : ClassId) : v.record id = u.record id := by
    unfold Universe.record
    rw [catalog]
  apply of_records
  · exact Nat.le_of_eq (by rw [registry])
  · exact fun _ => by rw [registry]
  · rw [catalog]
    exact fun h => h
  · intro id _
    rw [record]
    exact .refl _
  · intro id _ h
    unfold isLoaded at h ⊢
    rwa [record]

theorem refl (u : Universe) : u.Counts u := of_eq rfl rfl

theorem trans (h : u.Counts v) (k : v.Counts w) : u.Counts w where
  le := Nat.le_trans h.le k.le
  made hm := k.made (h.made hm)
  still same := by
    have hl := h.le
    have kl := k.le
    have first := h.still (by omega)
    have second := k.still (by omega)
    constructor
    · exact second.classes.trans first.classes
    · intro id hm loaded
      exact (second.links (h.made hm) (first.loaded hm loaded)).trans (first.links hm loaded)
    · intro id hm loaded
      exact second.loaded (h.made hm) (first.loaded hm loaded)

/-- A class that comes or goes is a change. -/
theorem of_lt (less : u.registry.changes < v.registry.changes)
    (made : ∀ {id}, u.catalog.IsMade id → v.catalog.IsMade id) : u.Counts v where
  le := Nat.le_of_lt less
  made := made
  still same := absurd same (Nat.ne_of_gt less)

end Counts

/-! ## Changes of one class -/

theorem changes_enter (u : Universe) (id : ClassId) :
    (u.enter id).2.registry.changes = u.registry.changes + 1 := by
  show (u.registry.put _ _).changes + 1 = _
  rw [Registry.changes_put]

theorem counts_withNew (u : Universe) (r : ClassRecord) : u.Counts (u.withNew r) := by
  have grows := Grows.withNew u r
  have same {id : ClassId} (hm : u.catalog.IsMade id) := record_withNew (r := r) hm
  apply Counts.of_records
  · exact Nat.le_refl _
  · exact fun _ => rfl
  · exact grows.made
  · intro id hm
    rw [same hm]
    exact .refl _
  · intro id hm loaded
    unfold isLoaded at loaded ⊢
    rwa [same hm]

theorem counts_moved (u : Universe) (id : ClassId) (p : Partition) : u.Counts (u.moved id p) := by
  have grows := Grows.moved u id p
  have changes : (u.moved id p).registry.changes = u.registry.changes := Registry.changes_put _ _ _
  have classes : (u.moved id p).registry.classes = u.registry.classes := Registry.classes_put _ _ _
  apply Counts.of_records
  · exact Nat.le_of_eq changes.symm
  · exact fun _ => classes
  · exact grows.made
  · intro other hm
    by_cases hid : other = id
    · subst hid
      rw [record_moved_self hm]
      exact ⟨rfl, rfl, rfl, rfl⟩
    · rw [record_moved_of_ne hid]
      exact .refl _
  · exact grows.isLoaded

theorem counts_lift (u : Universe) (d : ClassDefinition) (below : u.isLoaded id a.level = false) :
    u.Counts (u.lift d id a) where
  le := Nat.le_of_eq (by rw [registry_lift])
  made := Grows.lift.made
  still _ := by
    refine ⟨by rw [registry_lift], fun {other} hm linked => ?_, Grows.lift.isLoaded⟩
    by_cases hid : other = id
    · subst hid
      rw [record_lift_of_below hm below]
      cases a with
      | nothing | members | bodies => exact ⟨rfl, rfl, rfl, rfl⟩
      | supertypes superclass interfaces =>
          -- a class that is linked is not linked again
          rw [show Addition.level (.supertypes superclass interfaces) = .hierarchy from rfl,
            linked] at below
          cases below
    · rw [record_lift_of_ne hid]
      exact .refl _

theorem counts_enter (u : Universe) (id : ClassId) : u.Counts (u.enter id).2 := by
  apply Counts.of_lt
  · rw [changes_enter]
    exact Nat.lt_succ_self _
  · exact fun hm => Catalog.isMade_modify.mpr hm

theorem counts_without (u : Universe) (id : ClassId) : u.Counts (u.without id) := by
  apply Counts.of_lt
  · exact Nat.lt_succ_self _
  · exact fun hm => Catalog.isMade_modify.mpr hm

theorem counts_haunted (u : Universe) (name : String) : u.Counts (u.haunted name) :=
  (counts_withNew u (.phantom name)).trans (counts_enter _ _)

theorem counts_register (u : Universe) (d : ClassDefinition) (a : Addition) :
    u.Counts (u.register d a) := by
  have lifted : (u.withNew (.ofDefinition d)).registry.changes ≤
      ((u.withNew (.ofDefinition d)).lift d u.next a).registry.changes :=
    Nat.le_of_eq (by rw [registry_lift])
  apply Counts.of_lt
  · show _ < ((_ : Universe).enter u.next).2.registry.changes
    rw [changes_enter]
    exact Nat.lt_succ_of_le lifted
  · intro id hm
    apply Catalog.isMade_modify.mpr
    exact Grows.lift.made ((Grows.withNew u _).made hm)

end Universe

/-! ## Calls -/

open Universe

variable {u v : Universe} {s : Supply} {floor : Level}

theorem Move.counts (m : Move s floor u v) : u.Counts v := by
  cases m with
  | ask => exact .of_eq rfl rfl
  | demote absent found allowed => exact counts_moved u _ _
  | phantom absent new allowed => exact counts_haunted u _
  | register a given above new ready => exact counts_register u _ a
  | lift a given above found below ready => exact counts_lift u _ below

theorem Moves.counts (m : Moves s floor u v) : u.Counts v := by
  induction m with
  | refl => exact .refl u
  | tail _ step ih => exact ih.trans step.counts

namespace Call

/-- Whether a call leaves the records of descriptors to the registry and to resolution, and what
nobody holds to the workspace. -/
def IsIndirect : Call → Prop
  | make r _ => r.superclass = none ∧ r.interfaces = []
  | edit _ _ _ => False
  | letGo _ _ => False
  | _ => True

theorem counts (wf : u.IsWellFormed) {c : Call} (h : c.IsIndirect) : u.Counts (c.run u) := by
  have does := does_run wf c
  generalize c.run u = v at does ⊢
  cases does with
  | nothing => exact .refl u
  | make r fresh => exact counts_withNew u r
  | edit | letGo => cases h
  | enter id => exact counts_enter u id
  | leave id => exact counts_without u id
  | move id p => exact counts_moved u id p
  | haunt name => exact counts_haunted u name
  | resolve s q moves => exact moves.counts
  | close => exact .of_eq rfl rfl

theorem changes_le (wf : u.IsWellFormed) (c : Call) :
    u.registry.changes ≤ (c.run u).registry.changes := by
  cases c with
  | edit id change stands => exact Nat.le_refl _
  | letGo held members => exact Nat.le_refl _
  | make r fresh => exact Nat.le_refl _
  | add id => exact (counts wf (c := .add id) trivial).le
  | remove id => exact (counts wf (c := .remove id) trivial).le
  | reclassify id p => exact (counts wf (c := .reclassify id p) trivial).le
  | phantom name => exact (counts wf (c := .phantom name) trivial).le
  | request s q => exact (counts wf (c := .request s q) trivial).le

end Call

end ClassUniverse
