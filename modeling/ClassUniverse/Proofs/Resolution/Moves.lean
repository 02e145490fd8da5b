import ClassUniverse.Proofs.Universe.WellFormed
import ClassUniverse.Resolution

/-!
# What resolution does to a universe

Resolution changes a universe by five moves: it asks the supply, it makes a phantom of a registered
class, it registers a phantom, it registers a class with what a level adds, and it adds to a
registered class what a level adds.  Each move keeps a universe well-formed and lets it grow.
-/

namespace ClassUniverse

open Relation (ReflTransGen)

namespace Level

theorem le_trans {a b c : Level} (hab : a ≤ b) (hbc : b ≤ c) : a ≤ c := Nat.le_trans hab hbc

theorem le_of_not_lt {a b : Level} (h : ¬ a < b) : b ≤ a := Nat.le_of_not_lt h

theorem le_bodies (a : Level) : a ≤ bodies := by
  cases a <;> decide

end Level

theorem ClassRecord.le_level_raise (r : ClassRecord) (level : Level) :
    r.level ≤ (r.raise level).level ∧ level ≤ (r.raise level).level := by
  unfold raise
  split
  · exact ⟨Nat.le_of_lt ‹_›, Nat.le_refl _⟩
  · exact ⟨Nat.le_refl _, Nat.le_of_not_lt ‹_›⟩

namespace Supply

/-- Whether what a supply has under a name is a definition of that name. -/
def IsTrueTo (s : Supply) (name : String) : Prop :=
  ∀ d, s.lookup name = .ok (some d) → d.name = name

/-- Whether a supply keeps each definition under its own name. -/
def IsNamed (s : Supply) : Prop := ∀ name, s.IsTrueTo name

end Supply

/-- The other classes that the bodies of a class mention. -/
def ClassDefinition.mentions (d : ClassDefinition) : List String :=
  d.bodyReferences.filter (· != d.name)

/-! ## What a level adds -/

/-- What a level adds to a class. -/
inductive Addition
  | nothing
  | supertypes (superclass : Option ClassId) (interfaces : List ClassId)
  | members
  | bodies

namespace Addition

/-- The level that an addition leads to. -/
def level : Addition → Level
  | nothing => .dangling
  | supertypes _ _ => .hierarchy
  | members => .signatures
  | bodies => .bodies

/-- The installation of an addition. -/
def install (d : ClassDefinition) : Addition → ClassId → Action Unit
  | nothing, _ => pure ()
  | supertypes superclass interfaces, id =>
      Universe.onCatalog fun c => c.link id superclass interfaces
  | members, id => Universe.installMembers d id
  | bodies, id => Universe.onCatalog fun c => c.loadBodies id

/-- What an addition makes of the record of its class, where the next member that is made has a
given serial number. -/
def onRecord (d : ClassDefinition) (serial : Nat) (r : ClassRecord) : Addition → ClassRecord
  | nothing => r
  | supertypes superclass interfaces =>
      { r with superclass := superclass, interfaces := interfaces }
  | members =>
      { r with
        fields := (d.fields.zipIdx serial).map fun (f, serial) => ⟨serial, r.name, f⟩
        methods := (d.methods.zipIdx (serial + d.fields.length)).map fun (m, serial) =>
          ⟨serial, r.name, m⟩ }
  | bodies => r

theorem onRecord_standsAs (d : ClassDefinition) (serial : Nat) (r : ClassRecord) (a : Addition) :
    (a.onRecord d serial r).StandsAs r := by
  cases a <;> exact ⟨rfl, rfl, rfl, rfl⟩

theorem level_onRecord (d : ClassDefinition) (serial : Nat) (r : ClassRecord) (a : Addition) :
    (a.onRecord d serial r).level = r.level := by
  cases a <;> rfl

end Addition

namespace Universe

/-- The universe after the installation of an addition. -/
def installed (u : Universe) (d : ClassDefinition) (id : ClassId) : Addition → Universe
  | .nothing => u
  | .supertypes superclass interfaces =>
      { u with catalog := u.catalog.link id superclass interfaces }
  | .members =>
      { u with
        catalog := u.catalog.installMembers id d
        numbers := u.numbers.addMembers (u.catalog.installMembers id d) id }
  | .bodies => { u with catalog := u.catalog.loadBodies id }

/-- The universe with a class brought to the level of an addition. -/
def lift (u : Universe) (d : ClassDefinition) (id : ClassId) (a : Addition) : Universe :=
  (u.installed d id a).change id (·.raise a.level)

/-- The universe with a new class that an addition has brought to its level. -/
def register (u : Universe) (d : ClassDefinition) (a : Addition) : Universe :=
  (((u.withNew (.ofDefinition d)).lift d u.next a).enter u.next).2

/-- The universe with a new phantom. -/
def haunted (u : Universe) (name : String) : Universe :=
  ((u.withNew (.phantom name)).enter u.next).2

variable {u v w : Universe} {name other : String} {id : ClassId} {d : ClassDefinition}
  {a : Addition}

theorem install_apply (u : Universe) (d : ClassDefinition) (id : ClassId) (a : Addition) :
    a.install d id u = .ok () (u.installed d id a) := by
  cases a <;> rfl

theorem record_installed_of_ne {other : ClassId} (h : other ≠ id) :
    (u.installed d id a).record other = u.record other := by
  cases a with
  | nothing => rfl
  | supertypes superclass interfaces => exact Catalog.get_modify_of_ne _ h _
  | members => exact Catalog.get_modify_of_ne _ h _
  | bodies => rfl

theorem record_installed_self (made : u.catalog.IsMade id) :
    (u.installed d id a).record id = a.onRecord d u.catalog.membersMade (u.record id) := by
  cases a with
  | nothing => rfl
  | supertypes superclass interfaces => exact Catalog.get_modify_self made _
  | members => exact Catalog.get_modify_self made _
  | bodies => rfl

theorem isMade_installed {other : ClassId} :
    (u.installed d id a).catalog.IsMade other ↔ u.catalog.IsMade other := by
  cases a with
  | nothing => rfl
  | supertypes superclass interfaces => exact Catalog.isMade_modify
  | members => exact Catalog.isMade_modify
  | bodies => rfl

theorem record_lift_of_ne {other : ClassId} (h : other ≠ id) :
    (u.lift d id a).record other = u.record other :=
  (Catalog.get_modify_of_ne _ h _).trans (record_installed_of_ne h)

theorem record_lift_self (made : u.catalog.IsMade id) :
    (u.lift d id a).record id =
      (a.onRecord d u.catalog.membersMade (u.record id)).raise a.level := by
  rw [← record_installed_self made]
  exact Catalog.get_modify_self (isMade_installed.mpr made) _

theorem size_lift : (u.lift d id a).catalog.records.size = u.catalog.records.size := by
  cases a <;> simp [lift, installed, change, Catalog.modify, Catalog.link, Catalog.installMembers,
    Catalog.loadBodies]

theorem registry_lift : (u.lift d id a).registry = u.registry := by
  cases a <;> rfl

theorem find?_lift : (u.lift d id a).find? name = u.find? name := by
  unfold Universe.find?
  rw [registry_lift]

theorem classes_lift : (u.lift d id a).numbers.classes = u.numbers.classes := by
  cases a <;> rfl

theorem released_lift : (u.lift d id a).catalog.released = u.catalog.released := by
  cases a <;> rfl

theorem allowPhantoms_lift : (u.lift d id a).allowPhantoms = u.allowPhantoms := by
  cases a <;> rfl

theorem IsWellFormed.standsLike_lift (wf : u.IsWellFormed) : (u.lift d id a).StandsLike u := by
  refine wf.standsLike_change id (fun made => ?_) (fun other h => record_lift_of_ne h)
    size_lift registry_lift classes_lift released_lift
  rw [record_lift_self made]
  exact (ClassRecord.raise_standsAs _ _).trans (Addition.onRecord_standsAs _ _ _ _)

/-! ## Growth -/

/-- What is not lost as a universe grows. -/
structure Grows (u v : Universe) : Prop where
  find : ∀ {name id}, u.find? name = some id → v.find? name = some id
  made : ∀ {id}, u.catalog.IsMade id → v.catalog.IsMade id
  name : ∀ {id}, u.catalog.IsMade id → (v.record id).name = (u.record id).name
  level : ∀ {id}, u.catalog.IsMade id → (u.record id).level ≤ (v.record id).level
  phantom : ∀ {id}, u.catalog.IsMade id → (u.record id).isPhantom = true →
    (v.record id).isPhantom = true
  number : ∀ {name id number}, u.find? name = some id →
    u.numbers.classes.idOf? id = some number → v.numbers.classes.idOf? id = some number
  allowPhantoms : v.allowPhantoms = u.allowPhantoms
  released : v.catalog.released = u.catalog.released

namespace Grows

theorem refl (u : Universe) : u.Grows u where
  find h := h
  made h := h
  name _ := rfl
  level _ := Nat.le_refl _
  phantom _ h := h
  number _ h := h
  allowPhantoms := rfl
  released := rfl

theorem trans (huv : u.Grows v) (hvw : v.Grows w) : u.Grows w where
  find h := hvw.find (huv.find h)
  made h := hvw.made (huv.made h)
  name h := (hvw.name (huv.made h)).trans (huv.name h)
  level h := Level.le_trans (huv.level h) (hvw.level (huv.made h))
  phantom h hp := hvw.phantom (huv.made h) (huv.phantom h hp)
  number hf hn := hvw.number (huv.find hf) (huv.number hf hn)
  allowPhantoms := hvw.allowPhantoms.trans huv.allowPhantoms
  released := hvw.released.trans huv.released

theorem of_eq (catalog : v.catalog = u.catalog) (registry : v.registry = u.registry)
    (numbers : v.numbers = u.numbers) (allowPhantoms : v.allowPhantoms = u.allowPhantoms) :
    u.Grows v := by
  have record (id : ClassId) : v.record id = u.record id := by
    unfold Universe.record
    rw [catalog]
  refine ⟨fun h => ?_, fun h => ?_, fun _ => by rw [record], fun _ => ?_,
    fun _ h => by rw [record, h], fun _ h => by rw [numbers, h], allowPhantoms, by rw [catalog]⟩
  · unfold Universe.find?
    rw [registry]
    exact h
  · rw [catalog]
    exact h
  · rw [record]
    exact Nat.le_refl _

theorem withNew (u : Universe) (r : ClassRecord) : u.Grows (u.withNew r) := by
  have same {id : ClassId} (h : u.catalog.IsMade id) : (u.withNew r).record id = u.record id :=
    Catalog.get_make_of_ne _ _ fun hid => Catalog.not_isMade_new u.catalog r (hid ▸ h)
  refine ⟨id, fun h => Catalog.isMade_make.mpr (.inl h), ?_, ?_, ?_, fun _ h => h, rfl, rfl⟩
  · intro id h
    rw [same h]
  · intro id h
    rw [same h]
    exact Nat.le_refl _
  · intro id h
    rw [same h]
    exact fun h => h

theorem lift : u.Grows (u.lift d id a) where
  find h := by rw [find?_lift, h]
  made h := by
    unfold Catalog.IsMade
    rw [size_lift]
    exact h
  name {other} h := by
    by_cases hid : other = id
    · subst hid
      rw [record_lift_self h, (ClassRecord.raise_standsAs _ _).name,
        (Addition.onRecord_standsAs _ _ _ _).name]
    · rw [record_lift_of_ne hid]
  level {other} h := by
    by_cases hid : other = id
    · subst hid
      have hl := (ClassRecord.le_level_raise
        (a.onRecord d u.catalog.membersMade (u.record other)) a.level).1
      rwa [Addition.level_onRecord, ← record_lift_self h] at hl
    · rw [record_lift_of_ne hid]
      exact Nat.le_refl _
  phantom {other} h hp := by
    by_cases hid : other = id
    · subst hid
      rw [record_lift_self h, (ClassRecord.raise_standsAs _ _).isPhantom,
        (Addition.onRecord_standsAs _ _ _ _).isPhantom, hp]
    · rw [record_lift_of_ne hid, hp]
  number _ h := by rw [classes_lift, h]
  allowPhantoms := allowPhantoms_lift
  released := released_lift

theorem enter (wf : u.IsWellFormed) (made : u.catalog.IsMade id)
    (absent : u.find? (u.record id).name = none) : u.Grows (u.enter id).2 where
  find {name registered} h := by
    rw [find?_enter, if_neg, h]
    rintro rfl
    rw [absent] at h
    cases h
  made h := Catalog.isMade_modify.mpr h
  name {other} h := by
    by_cases hid : other = id
    · subst hid
      rw [record_enter_self h]
      rfl
    · rw [record_enter_of_ne hid]
  level {other} h := by
    by_cases hid : other = id
    · subst hid
      rw [record_enter_self h]
      exact Nat.le_refl _
    · rw [record_enter_of_ne hid]
      exact Nat.le_refl _
  phantom {other} h hp := by
    by_cases hid : other = id
    · subst hid
      rw [record_enter_self h]
      simp [ClassRecord.assign, hp]
    · rw [record_enter_of_ne hid, hp]
  number hf hn := Numbering.idOf?_add_of_live wf.numbering id hn (wf.stands hf).live
  allowPhantoms := rfl
  released := rfl

theorem moved (u : Universe) (id : ClassId) (p : Partition) : u.Grows (u.moved id p) where
  find h := by rw [find?_moved, h]
  made h := Catalog.isMade_modify.mpr h
  name {other} h := by
    by_cases hid : other = id
    · subst hid
      rw [record_moved_self h]
      rfl
    · rw [record_moved_of_ne hid]
  level {other} h := by
    by_cases hid : other = id
    · subst hid
      rw [record_moved_self h]
      exact Nat.le_refl _
    · rw [record_moved_of_ne hid]
      exact Nat.le_refl _
  phantom {other} h hp := by
    by_cases hid : other = id
    · subst hid
      rw [record_moved_self h]
      simp [ClassRecord.assign, hp]
    · rw [record_moved_of_ne hid, hp]
  number _ h := h
  allowPhantoms := rfl
  released := rfl

end Grows

/-! ## Answers -/

/-- A class is registered under a name, and it is a phantom or at a level at least. -/
structure Serves (u : Universe) (name : String) (level : Level) (id : ClassId) : Prop where
  found : u.find? name = some id
  loaded : u.isLoaded id level = true

theorem isLoaded_iff {level : Level} : u.isLoaded id level = true ↔
    (u.record id).isPhantom = true ∨ level ≤ (u.record id).level := by
  simp [isLoaded]

/-- A class that is loaded to a level stays so. -/
theorem Grows.isLoaded {level : Level} (grows : u.Grows v) (made : u.catalog.IsMade id)
    (loaded : u.isLoaded id level = true) : v.isLoaded id level = true := by
  rw [isLoaded_iff] at loaded ⊢
  exact loaded.imp (grows.phantom made) fun high => Level.le_trans high (grows.level made)

theorem Serves.of_le {level high : Level} (h : u.Serves name high id) (hl : level ≤ high) :
    u.Serves name level id := by
  refine ⟨h.found, isLoaded_iff.mpr ?_⟩
  exact (isLoaded_iff.mp h.loaded).imp_right (Level.le_trans hl)

theorem Serves.grows {level : Level} (h : u.Serves name level id) (wf : u.IsWellFormed)
    (grows : u.Grows v) : v.Serves name level id where
  found := grows.find h.found
  loaded := grows.isLoaded (wf.stands h.found).made h.loaded

/-- Links lead to the supertypes that a definition names. -/
structure Links (u : Universe) (d : ClassDefinition) (superclass : Option ClassId)
    (interfaces : List ClassId) : Prop where
  superclass : Option.Rel (fun name id => u.Serves name .hierarchy id) d.superclass superclass
  interfaces : List.Forall₂ (fun name id => u.Serves name .hierarchy id) d.interfaces interfaces

/-- A class under each name is loaded to `hierarchy`. -/
def Knows (u : Universe) (names : List String) : Prop :=
  ∀ name ∈ names, ∃ id, u.Serves name .hierarchy id

theorem Links.grows {superclass : Option ClassId} {interfaces : List ClassId}
    (h : u.Links d superclass interfaces) (wf : u.IsWellFormed) (grows : u.Grows v) :
    v.Links d superclass interfaces where
  superclass := by
    have hs := h.superclass
    generalize d.superclass = parent at hs ⊢
    cases hs with
    | none => exact .none
    | some hs => exact .some (hs.grows wf grows)
  interfaces := h.interfaces.imp fun _ _ hs => hs.grows wf grows

theorem Knows.grows {names : List String} (h : u.Knows names) (wf : u.IsWellFormed)
    (grows : u.Grows v) : v.Knows names :=
  fun name hm => (h name hm).imp fun _ hs => hs.grows wf grows

/-- What an addition to a class needs. -/
def Ready (u : Universe) (d : ClassDefinition) : Addition → Prop
  | .nothing => True
  | .supertypes superclass interfaces => u.Links d superclass interfaces
  | .members => (∃ id, u.Serves d.name .hierarchy id) ∧ u.Knows d.signatureReferences
  | .bodies => (∃ id, u.Serves d.name .signatures id) ∧ u.Knows d.mentions

end Universe

/-! ## Moves -/

open Universe

/-- One change that resolution makes, where no class is registered or brought to a level below a
given one.  What an addition needs is there when the supply keeps each definition under its own
name. -/
inductive Move (s : Supply) (floor : Level) (u : Universe) : Universe → Prop
  | ask : Move s floor u { u with hasAsked := true }
  | demote {name : String} {id : ClassId} (absent : s.lookup name = .ok none)
      (found : u.find? name = some id) (allowed : u.allowPhantoms = true)
      (below : u.isLoaded id .bodies = false) : Move s floor u (u.moved id .phantom)
  | phantom {name : String} (absent : s.lookup name = .ok none) (new : u.find? name = none)
      (allowed : u.allowPhantoms = true) : Move s floor u (u.haunted name)
  | register {name : String} {d : ClassDefinition} (a : Addition)
      (given : s.lookup name = .ok (some d)) (above : floor ≤ a.level)
      (new : u.find? d.name = none) (ready : s.IsNamed → u.Ready d a) :
      Move s floor u (u.register d a)
  | lift {name : String} {d : ClassDefinition} {id : ClassId} (a : Addition)
      (given : s.lookup name = .ok (some d)) (above : floor ≤ a.level)
      (found : u.find? d.name = some id) (below : u.isLoaded id a.level = false)
      (ready : s.IsNamed → u.Ready d a) : Move s floor u (u.lift d id a)

/-- The changes that resolution makes one after the other. -/
abbrev Moves (s : Supply) (floor : Level) : Universe → Universe → Prop :=
  ReflTransGen (Move s floor)

namespace Universe

variable {u : Universe} {r : ClassRecord} {name : String} {d : ClassDefinition} {a : Addition}

theorem isMade_next : (u.withNew r).catalog.IsMade u.next := Catalog.isMade_make.mpr (.inr rfl)

theorem record_next : (u.withNew r).record u.next = r := Catalog.get_make_new _ _

theorem record_withNew {id : ClassId} (h : u.catalog.IsMade id) :
    (u.withNew r).record id = u.record id :=
  Catalog.get_make_of_ne _ _ fun hid => Catalog.not_isMade_new u.catalog r (hid ▸ h)

theorem isMade_next_lift : ((u.withNew r).lift d u.next a).catalog.IsMade u.next := by
  unfold Catalog.IsMade
  rw [size_lift]
  exact isMade_next

theorem record_next_standsAs :
    (((u.withNew (.ofDefinition d)).lift d u.next a).record u.next).StandsAs (.ofDefinition d) := by
  rw [record_lift_self isMade_next, record_next]
  exact (ClassRecord.raise_standsAs _ _).trans (Addition.onRecord_standsAs _ _ _ _)

theorem serves_haunted (u : Universe) (name : String) (level : Level) :
    (u.haunted name).Serves name level u.next where
  found := by
    unfold haunted
    rw [find?_enter, record_next]
    exact if_pos rfl
  loaded := by
    refine isLoaded_iff.mpr (.inl ?_)
    unfold haunted
    rw [record_enter_self isMade_next, record_next]
    rfl

theorem serves_register (u : Universe) (d : ClassDefinition) (a : Addition) :
    (u.register d a).Serves d.name a.level u.next where
  found := by
    unfold register
    rw [find?_enter, record_next_standsAs.name]
    exact if_pos rfl
  loaded := by
    refine isLoaded_iff.mpr (.inr ?_)
    unfold register
    rw [record_enter_self isMade_next_lift, record_lift_self isMade_next]
    exact (ClassRecord.le_level_raise _ _).2

namespace IsWellFormed

theorem serves_lift {id : ClassId} (wf : u.IsWellFormed) (found : u.find? d.name = some id) :
    (u.lift d id a).Serves d.name a.level id where
  found := by rw [find?_lift, found]
  loaded := by
    refine isLoaded_iff.mpr (.inr ?_)
    rw [record_lift_self (wf.stands found).made]
    exact (ClassRecord.le_level_raise _ _).2

theorem withNew (wf : u.IsWellFormed) (fresh : r.IsFresh) : (u.withNew r).IsWellFormed :=
  wf.of_standsLike (wf.standsLike_withNew fresh)

theorem lift {id : ClassId} (wf : u.IsWellFormed) : (u.lift d id a).IsWellFormed :=
  wf.of_standsLike wf.standsLike_lift

theorem haunted (wf : u.IsWellFormed) (new : u.find? name = none) :
    (u.haunted name).IsWellFormed ∧ u.Grows (u.haunted name) := by
  have wf' : (u.withNew (.phantom name)).IsWellFormed := wf.withNew ⟨rfl, rfl⟩
  have absent : (u.withNew (.phantom name)).find?
      ((u.withNew (.phantom name)).record u.next).name = none := by
    rw [record_next]
    exact new
  refine ⟨wf'.enter isMade_next wf.isLive_next ?_ absent,
    (Grows.withNew u _).trans (Grows.enter wf' isMade_next absent)⟩
  rw [record_next]
  rfl

theorem register (wf : u.IsWellFormed) (new : u.find? d.name = none) :
    (u.register d a).IsWellFormed ∧ u.Grows (u.register d a) := by
  have wf' : (u.withNew (.ofDefinition d)).IsWellFormed := wf.withNew ⟨rfl, rfl⟩
  have stands := record_next_standsAs (u := u) (d := d) (a := a)
  have absent : ((u.withNew (.ofDefinition d)).lift d u.next a).find?
      (((u.withNew (.ofDefinition d)).lift d u.next a).record u.next).name = none := by
    rw [stands.name, find?_lift]
    exact new
  refine ⟨wf'.lift.enter isMade_next_lift ?_ stands.inScene absent,
    ((Grows.withNew u _).trans .lift).trans (Grows.enter wf'.lift isMade_next_lift absent)⟩
  unfold Catalog.isLive
  rw [released_lift]
  exact wf.isLive_next

end IsWellFormed

/-! ## One class at a time -/

/-- A change that touches no class but one, which it may register. -/
structure Touches (u v : Universe) (one : ClassId) : Prop where
  others : ∀ {id}, id ≠ one → u.catalog.IsMade id → v.record id = u.record id
  known : ∀ {name id}, v.find? name = some id → id ≠ one → u.find? name = some id

/-- A class other than the touched one was registered before, with the same record. -/
theorem Touches.untouched {v : Universe} {one id : ClassId} {name : String} (h : u.Touches v one)
    (wf : u.IsWellFormed) (found : v.find? name = some id) (other : id ≠ one) :
    u.find? name = some id ∧ v.record id = u.record id := by
  have found' := h.known found other
  exact ⟨found', h.others other (wf.stands found').made⟩

theorem touches_of_eq {v : Universe} (catalog : v.catalog = u.catalog)
    (registry : v.registry = u.registry) (one : ClassId) : u.Touches v one where
  others {id} _ _ := by
    unfold Universe.record
    rw [catalog]
  known hf _ := by
    unfold Universe.find? at hf ⊢
    rwa [registry] at hf

theorem touches_moved (u : Universe) (id : ClassId) (p : Partition) :
    u.Touches (u.moved id p) id where
  others hne _ := record_moved_of_ne hne p
  known hf _ := by rwa [find?_moved] at hf

theorem touches_lift (u : Universe) (d : ClassDefinition) (id : ClassId) (a : Addition) :
    u.Touches (u.lift d id a) id where
  others hne _ := record_lift_of_ne hne
  known hf _ := by rwa [find?_lift] at hf

theorem known_enter {v : Universe} {name : String} {id one : ClassId}
    (hf : (v.enter one).2.find? name = some id) (hne : id ≠ one) : v.find? name = some id := by
  rw [find?_enter] at hf
  split at hf
  · exact absurd (Option.some.inj hf).symm hne
  · exact hf

theorem touches_haunted (u : Universe) (name : String) : u.Touches (u.haunted name) u.next where
  others hne made := (record_enter_of_ne hne).trans (record_withNew made)
  known hf hne := known_enter (v := u.withNew (.phantom name)) hf hne

theorem touches_register (u : Universe) (d : ClassDefinition) (a : Addition) :
    u.Touches (u.register d a) u.next where
  others hne made :=
    ((record_enter_of_ne hne).trans (record_lift_of_ne hne)).trans (record_withNew made)
  known hf hne := by
    have hl := known_enter (v := (u.withNew (.ofDefinition d)).lift d u.next a) hf hne
    rwa [find?_lift] at hl

end Universe

namespace Move

variable {s : Supply} {floor : Level} {u v : Universe}

theorem keeps (wf : u.IsWellFormed) (m : Move s floor u v) : v.IsWellFormed ∧ u.Grows v := by
  cases m with
  | ask => exact ⟨wf.of_eq rfl rfl rfl, .of_eq rfl rfl rfl rfl⟩
  | demote absent found allowed => exact ⟨wf.moved found fun _ => rfl, .moved u _ _⟩
  | phantom absent new allowed => exact wf.haunted new
  | register a given above new ready => exact wf.register new
  | lift a given above found below ready => exact ⟨wf.lift, .lift⟩

end Move

namespace Moves

variable {s : Supply} {floor : Level} {u v : Universe}

theorem keeps (wf : u.IsWellFormed) (m : Moves s floor u v) : v.IsWellFormed ∧ u.Grows v := by
  induction m with
  | refl => exact ⟨wf, .refl u⟩
  | tail _ step ih =>
      obtain ⟨wf', grows⟩ := step.keeps ih.1
      exact ⟨wf', ih.2.trans grows⟩

theorem isWellFormed (wf : u.IsWellFormed) (m : Moves s floor u v) : v.IsWellFormed :=
  (m.keeps wf).1

theorem grows (wf : u.IsWellFormed) (m : Moves s floor u v) : u.Grows v := (m.keeps wf).2

theorem serves {name : String} {level : Level} {id : ClassId} (wf : u.IsWellFormed)
    (m : Moves s floor u v) (h : u.Serves name level id) : v.Serves name level id :=
  h.grows wf (m.grows wf)

end Moves

end ClassUniverse
