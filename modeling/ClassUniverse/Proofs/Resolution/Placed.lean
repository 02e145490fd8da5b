import ClassUniverse.Proofs.Resolution.Linked

/-!
# Universes with known application classes

A universe that is built by resolution to `hierarchy` and above, and by moves of classes between the
partitions, stays well-formed, faithful and linked.  Resolution brings new classes into the library
and lets no level sink, so it changes nothing about which classes are application classes and which
of them have bodies.
-/

namespace ClassUniverse

namespace Universe

variable {s : Supply} {u v : Universe} {name other : String} {id : ClassId} {p : Partition}
  {d : ClassDefinition} {apps full : String → Prop}

/-! ## Moves between the partitions -/

theorem level_moved (u : Universe) (id other : ClassId) (p : Partition) :
    ((u.moved id p).record other).level = (u.record other).level ∧
      ((u.moved id p).record other).superclass = (u.record other).superclass := by
  by_cases h : other = id
  · subst h
    by_cases made : u.catalog.IsMade other
    · rw [record_moved_self made]
      exact ⟨rfl, rfl⟩
    · have unmade : ¬ (u.moved other p).catalog.IsMade other := Catalog.isMade_modify.not.mpr made
      unfold Universe.record
      rw [Catalog.get_of_not_isMade made, Catalog.get_of_not_isMade unmade]
      exact ⟨rfl, rfl⟩
  · rw [record_moved_of_ne h]
    exact ⟨rfl, rfl⟩

theorem isPhantom_of_moved {other : ClassId} (found : u.find? name = some other)
    (wf : u.IsWellFormed) (real : ((u.moved id p).record other).isPhantom = false) :
    (u.record other).isPhantom = false := by
  by_cases h : other = id
  · subst h
    rw [record_moved_self (wf.stands found).made] at real
    exact (Bool.or_eq_false_iff.mp real).1
  · rwa [record_moved_of_ne h] at real

theorem Shows.moved (h : u.Shows d id) (wf : u.IsWellFormed) (made : u.catalog.IsMade id)
    (p : Partition) : (u.moved id p).Shows d id := by
  have grows : u.Grows (u.moved id p) := .moved u id p
  constructor
  all_goals rw [record_moved_self made]
  · exact fun hl => (h.links hl).grows wf grows
  · exact h.memberless
  · exact h.fields
  · exact h.methods
  · exact fun hl => (h.signatures hl).grows wf grows
  · exact fun hl => (h.mentions hl).grows wf grows
  · exact h.loaded

theorem IsFaithful.moved (h : u.IsFaithful s) (wf : u.IsWellFormed) (found : u.find? name = some id)
    (p : Partition) : (u.moved id p).IsFaithful s := by
  refine h.of_touches wf (.moved u id p) (touches_moved u id p) (fun _ _ => rfl)
    (fun {other} found' real => ?_) (h.counted.modify id fun _ => rfl)
  rw [find?_moved] at found'
  obtain ⟨d, given, shows⟩ := h.shows found' (isPhantom_of_moved found' wf real)
  exact ⟨d, given, shows.moved wf (wf.stands found).made p⟩

theorem IsLinked.moved (h : u.IsLinked) (wf : u.IsWellFormed) (id : ClassId) (p : Partition) :
    (u.moved id p).IsLinked where
  level {_ other} found real := by
    rw [find?_moved] at found
    rw [(level_moved u id other p).1]
    exact h.level found (isPhantom_of_moved found wf real)
  precedes {_ other parent} found link := by
    rw [find?_moved] at found
    rw [(level_moved u id other p).2] at link
    exact (h.precedes found link).grows (.moved u id p)

/-! ## What is built -/

/-- What holds of a universe that requests to `hierarchy` and above have built from a supply. -/
structure IsBuilt (u : Universe) (s : Supply) : Prop where
  wf : u.IsWellFormed
  faithful : u.IsFaithful s
  linked : u.IsLinked

theorem isBuilt_empty (recycles allowPhantoms : Bool) (s : Supply) :
    (empty recycles allowPhantoms).IsBuilt s :=
  ⟨isWellFormed_empty _ _, isFaithful_empty _ _ s, isLinked_empty _ _⟩

theorem IsBuilt.moves (h : u.IsBuilt s) (named : s.IsNamed) (m : Moves s .hierarchy u v) :
    v.IsBuilt s :=
  ⟨Moves.isWellFormed h.wf m, Moves.isFaithful h.wf named h.faithful m,
    Moves.isLinked h.wf named h.linked m⟩

theorem IsBuilt.moved (h : u.IsBuilt s) (found : u.find? name = some id)
    (allowed : (u.record id).isPhantom = true → p = .phantom) : (u.moved id p).IsBuilt s :=
  ⟨h.wf.moved found allowed, h.faithful.moved h.wf found p, h.linked.moved h.wf id p⟩

/-! ## Application classes -/

/-- Which names are those of the application classes, and some names of classes with bodies; it
matters only what is said of classes that are no phantoms. -/
structure IsPlaced (u : Universe) (apps full : String → Prop) : Prop where
  application : ∀ {name id}, u.find? name = some id → (u.record id).isPhantom = false →
    ((u.record id).partition = some .application ↔ apps name)
  bodies : ∀ {name id}, u.find? name = some id → (u.record id).isPhantom = false → full name →
    .bodies ≤ (u.record id).level
  known : ∀ {name}, apps name ∨ full name → ∃ id, u.find? name = some id

theorem isPlaced_empty (recycles allowPhantoms : Bool) :
    (empty recycles allowPhantoms).IsPlaced (fun _ => False) fun _ => False where
  application found := nomatch found
  bodies found := nomatch found
  known h := h.elim False.elim False.elim

theorem IsPlaced.moves (h : u.IsPlaced apps full) (wf : u.IsWellFormed)
    (m : Moves s .hierarchy u v) : v.IsPlaced apps full where
  application {name id} found real := by
    cases m.came wf found real with
    | before found' real' partition _ =>
        rw [partition]
        exact h.application found' real'
    | now absent partition _ =>
        rw [partition]
        refine iff_of_false (by decide) fun app => ?_
        obtain ⟨old, found'⟩ := h.known (.inl app)
        exact nomatch absent.symm.trans found'
  bodies {name id} found real deep := by
    cases m.came wf found real with
    | before found' real' _ level => exact Level.le_trans (h.bodies found' real' deep) level
    | now absent _ _ =>
        obtain ⟨old, found'⟩ := h.known (.inr deep)
        exact nomatch absent.symm.trans found'
  known hn := (h.known hn).imp fun _ found => (m.grows wf).find found

theorem IsPlaced.moved (h : u.IsPlaced apps full) (wf : u.IsWellFormed)
    (found : u.find? name = some id) (p : Partition) :
    (u.moved id p).IsPlaced (Function.update apps name (p = .application)) full where
  application {other id'} found' real := by
    rw [find?_moved] at found'
    by_cases hid : id' = id
    · subst hid
      rw [wf.name_eq found' found, Function.update_self, record_moved_self (wf.stands found).made]
      exact Option.some_inj
    · have hne : other ≠ name := by
        rintro rfl
        exact hid (Option.some.inj (found'.symm.trans found))
      rw [Function.update_of_ne hne, record_moved_of_ne hid]
      exact h.application found' (isPhantom_of_moved found' wf real)
  bodies {other id'} found' real deep := by
    rw [find?_moved] at found'
    rw [(level_moved u id id' p).1]
    exact h.bodies found' (isPhantom_of_moved found' wf real) deep
  known {other} hn := by
    rw [find?_moved]
    by_cases hne : other = name
    · exact ⟨id, hne ▸ found⟩
    · rw [Function.update_of_ne hne] at hn
      exact h.known hn

/-- It makes no difference what is said of a phantom. -/
theorem IsPlaced.of_phantom (h : u.IsPlaced apps full) (found : u.find? name = some id)
    (phantom : (u.record id).isPhantom = true) (app deep : Prop) :
    u.IsPlaced (Function.update apps name app) (Function.update full name deep) := by
  have ne_of_real {other : String} {id' : ClassId} (found' : u.find? other = some id')
      (real : (u.record id').isPhantom = false) : other ≠ name := by
    rintro rfl
    have same : id' = id := Option.some.inj (found'.symm.trans found)
    rw [same, phantom] at real
    cases real
  refine ⟨fun {other id'} found' real => ?_, fun {other id'} found' real hf => ?_,
    fun {other} hn => ?_⟩
  · rw [Function.update_of_ne (ne_of_real found' real)]
    exact h.application found' real
  · rw [Function.update_of_ne (ne_of_real found' real)] at hf
    exact h.bodies found' real hf
  · by_cases hne : other = name
    · exact ⟨id, hne ▸ found⟩
    · rw [Function.update_of_ne hne, Function.update_of_ne hne] at hn
      exact h.known hn

/-- Less can be said of classes with bodies. -/
theorem IsPlaced.weaken {full' : String → Prop} (h : u.IsPlaced apps full)
    (less : ∀ n, full' n → full n) : u.IsPlaced apps full' where
  application := h.application
  bodies found real hf := h.bodies found real (less _ hf)
  known hn := h.known (hn.imp_right (less _))

/-- A class that is served with bodies has them, unless it is a phantom. -/
theorem IsPlaced.deepen (h : u.IsPlaced apps full) (served : u.Serves name .bodies id) :
    u.IsPlaced apps fun n => n = name ∨ full n where
  application := h.application
  bodies {other id'} found real deep := by
    rcases deep with rfl | deep
    · have same : id' = id := Option.some.inj (found.symm.trans served.found)
      subst same
      exact served.level_le real
    · exact h.bodies found real deep
  known hn := by
    rcases hn with app | rfl | deep
    · exact h.known (.inl app)
    · exact ⟨id, served.found⟩
    · exact h.known (.inr deep)

theorem IsPlaced.library (h : u.IsPlaced apps full) (wf : u.IsWellFormed)
    (found : u.find? name = some id) (real : (u.record id).isPhantom = false) (out : ¬ apps name) :
    (u.record id).partition = some .library := by
  obtain ⟨p, placed, -, phantom⟩ := (wf.stands found).placed
  cases p with
  | application => exact absurd ((h.application found real).mp placed) out
  | library => exact placed
  | phantom => exact absurd (phantom.mp rfl) (Bool.eq_false_iff.mp real)

end Universe

end ClassUniverse
