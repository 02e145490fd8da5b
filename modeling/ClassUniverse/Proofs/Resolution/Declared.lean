import ClassUniverse.Proofs.Resolution.Requests

/-!
# Declared supertypes and flags

A definition declares the names of a superclass and of interfaces, and flags that make a class an
interface or none.  Every move of resolution leaves the registered classes with the flags of their
definitions, and leaves phantoms without definition and without links.
-/

namespace ClassUniverse

open Relation (ReflTransGen TransGen)

/-! ## Declared supertypes -/

namespace Supply

/-- A name whose definition names another one as its superclass. -/
def Extends (s : Supply) (name parent : String) : Prop :=
  ∃ d, s.lookup name = .ok (some d) ∧ d.superclass = some parent

/-- A name whose definition names another one as an interface. -/
def Implements (s : Supply) (name interface : String) : Prop :=
  ∃ d, s.lookup name = .ok (some d) ∧ interface ∈ d.interfaces

/-- A name whose definition names another one as its superclass or as an interface. -/
def Declares (s : Supply) (name above : String) : Prop :=
  ∃ d, s.lookup name = .ok (some d) ∧ above ∈ d.supertypes

/-- A name that is defined as an interface. -/
def IsInterface (s : Supply) (name : String) : Prop :=
  ∃ d, s.lookup name = .ok (some d) ∧ d.modifiers.isInterface = true

/-- A name and an interface that it or a superclass names, directly or through other interfaces. -/
def Conforms (s : Supply) (name interface : String) : Prop :=
  ∃ last first, ReflTransGen s.Extends name last ∧ s.Implements last first ∧
    ReflTransGen s.Implements first interface

variable {s : Supply} {name above : String}

theorem declares_iff : s.Declares name above ↔ s.Extends name above ∨ s.Implements name above := by
  unfold Declares Extends Implements ClassDefinition.supertypes
  simp only [List.mem_append, Option.mem_toList, and_or_left, exists_or]

/-- Whether no superclass is an interface, every name that is given as an interface is defined as
one, and no name is above itself. -/
structure IsWellKinded (s : Supply) : Prop where
  named : s.IsNamed
  superclass : ∀ {name parent}, s.Extends name parent → ¬ s.IsInterface parent
  interface : ∀ {name interface}, s.Implements name interface → s.IsInterface interface
  acyclic : ∀ name, ¬ TransGen s.Declares name name

end Supply

theorem exists_related {α β : Type} {R : α → β → Prop} {as : List α} {bs : List β} {a : α}
    (h : List.Forall₂ R as bs) (member : a ∈ as) : ∃ b ∈ bs, R a b := by
  induction h with
  | nil => cases member
  | cons related _ ih =>
      rcases List.mem_cons.mp member with rfl | member
      · exact ⟨_, List.mem_cons_self, related⟩
      · obtain ⟨b, hb, related⟩ := ih member
        exact ⟨b, List.mem_cons_of_mem _ hb, related⟩

/-! ## Flags and phantoms -/

/-- A record under a name with the flags of the definition, or a phantom under a name without
definition. -/
structure ClassRecord.Fits (r : ClassRecord) (s : Supply) (name : String) : Prop where
  flags : r.isPhantom = false → ∀ d, s.lookup name = .ok (some d) → r.modifiers = d.modifiers
  phantom : r.isPhantom = true → s.lookup name = .ok none ∧ r.superclass = none ∧
    r.interfaces = [] ∧ r.modifiers = Modifiers.publicFlag

namespace Universe

/-- Whether every registered descriptor fits the definition of its name, or the lack of one. -/
def IsKinded (u : Universe) (s : Supply) : Prop :=
  ∀ name id, u.find? name = some id → (u.record id).Fits s name

theorem isKinded_empty (recycles allowPhantoms : Bool) (s : Supply) :
    (empty recycles allowPhantoms).IsKinded s :=
  fun _ _ found => nomatch found

variable {s : Supply} {u v : Universe} {name other : String} {id id' parent : ClassId}
  {d : ClassDefinition} {a : Addition}

theorem IsKinded.of_touches {one : ClassId} (h : u.IsKinded s) (wf : u.IsWellFormed)
    (touches : u.Touches v one)
    (self : ∀ {name}, v.find? name = some one → (v.record one).Fits s name) : v.IsKinded s := by
  intro name id found
  by_cases hid : id = one
  · subst hid
    exact self found
  · obtain ⟨found', same⟩ := touches.untouched wf found hid
    rw [same]
    exact h name id found'

theorem IsKinded.of_eq (h : u.IsKinded s) (catalog : v.catalog = u.catalog)
    (registry : v.registry = u.registry) : v.IsKinded s := by
  intro name id found
  unfold Universe.find? at found
  rw [registry] at found
  unfold Universe.record
  rw [catalog]
  exact h name id found

theorem modifiers_raise (r : ClassRecord) (level : Level) :
    (r.raise level).modifiers = r.modifiers := by
  unfold ClassRecord.raise
  split <;> rfl

theorem modifiers_onRecord (serial : Nat) (r : ClassRecord) :
    (a.onRecord d serial r).modifiers = r.modifiers := by
  cases a <;> rfl

theorem isPhantom_register : ((u.register d a).record u.next).isPhantom = false := by
  have raised := (ClassRecord.raise_standsAs
    (a.onRecord d u.catalog.membersMade (.ofDefinition d)) a.level).isPhantom
  rw [(Addition.onRecord_standsAs _ _ _ _).isPhantom] at raised
  rw [record_register_next]
  change (_ || _) = false
  rw [raised]
  rfl

end Universe

open Universe

theorem Move.isKinded {s : Supply} {floor : Level} {u v : Universe} (wf : u.IsWellFormed)
    (named : s.IsNamed) (faithful : u.IsFaithful s) (h : u.IsKinded s) (m : Move s floor u v) :
    v.IsKinded s := by
  cases m with
  | ask => exact h
  | @demote name id absent found allowed =>
      have phantom : (u.record id).isPhantom = true := by
        rw [← Bool.not_eq_false]
        intro real
        obtain ⟨d, given, -⟩ := faithful.shows found real
        rw [absent] at given
        cases given
      refine h.of_touches wf (touches_moved u id _) fun {other} found' => ?_
      rw [find?_moved] at found'
      have fits := h other id found'
      rw [record_moved_self (wf.stands found).made]
      refine ⟨fun real => ?_, fun _ => fits.phantom phantom⟩
      simp [ClassRecord.assign] at real
  | @phantom name absent new allowed =>
      refine h.of_touches wf (touches_haunted u name) fun {other} found => ?_
      have same : other = name :=
        (wf.haunted new).1.name_eq found (serves_haunted u name .dangling).found
      subst same
      unfold Universe.haunted
      rw [record_enter_self isMade_next, record_next]
      refine ⟨fun real => ?_, fun _ => ⟨absent, rfl, rfl, rfl⟩⟩
      cases real
  | @register name d a given above new ready =>
      refine h.of_touches wf (touches_register u d a) fun {other} found => ?_
      have same : other = d.name := (wf.register new).1.name_eq found (serves_register u d a).found
      have flags : ((u.register d a).record u.next).modifiers = d.modifiers := by
        rw [record_register_next]
        exact (modifiers_raise _ _).trans (modifiers_onRecord _ _)
      refine ⟨fun _ d' given' => ?_, fun phantom => ?_⟩
      · rw [same, named name d given, given] at given'
        cases given'
        exact flags
      · rw [isPhantom_register] at phantom
        cases phantom
  | @lift name d id a given above found below ready =>
      refine h.of_touches wf (touches_lift u d id a) fun {other} found' => ?_
      rw [find?_lift] at found'
      have fits := h other id found'
      have real := (below_iff.mp below).1
      have made := (wf.stands found).made
      have stands : ((u.lift d id a).record id).StandsAs (u.record id) :=
        wf.standsLike_lift.record made
      refine ⟨fun _ d' given' => ?_, fun phantom => ?_⟩
      · rw [record_lift_self made, modifiers_raise, modifiers_onRecord]
        exact fits.flags real d' given'
      · rw [stands.isPhantom, real] at phantom
        cases phantom

theorem Moves.isKinded {s : Supply} {floor : Level} {u v : Universe} (wf : u.IsWellFormed)
    (named : s.IsNamed) (faithful : u.IsFaithful s) (h : u.IsKinded s) (m : Moves s floor u v) :
    v.IsKinded s := by
  induction m with
  | refl => exact h
  | tail moves step ih =>
      exact step.isKinded (Moves.isWellFormed wf moves) named
        (Moves.isFaithful wf named faithful moves) ih

theorem isKinded_run {s : Supply} (named : s.IsNamed) {u : Universe} (wf : u.IsWellFormed)
    (faithful : u.IsFaithful s) (h : u.IsKinded s) (qs : List Request) :
    (run (requests s qs) u).IsKinded s := by
  have both := requests_keep (s := s) (P := fun u => u.IsFaithful s ∧ u.IsKinded s)
    (fun wf h m => ⟨Moves.isFaithful wf named h.1 m, Moves.isKinded wf named h.1 h.2 m⟩)
    (fun wf h => ⟨h.1.of_eq wf rfl rfl rfl rfl, h.2.of_eq rfl rfl⟩) wf ⟨faithful, h⟩ qs
  exact both.2

end ClassUniverse
