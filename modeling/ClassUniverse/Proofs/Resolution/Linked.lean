import ClassUniverse.Hierarchy.Intervals
import ClassUniverse.Proofs.Resolution.Faithful

/-!
# Universes ready for a hierarchy

As long as classes are only asked for at `hierarchy` or above, every class that is no phantom has
its supertypes, which have come before it.  Hierarchies can be built from such a universe, and a
chain of superclasses ends.
-/

namespace ClassUniverse

namespace Universe

/-- How a class that is no phantom has come through some moves: it was registered before and stays
in its partition, or it has come to the library at the lowest level that was asked for or above. -/
inductive Came (u v : Universe) (floor : Level) (name : String) (id : ClassId) : Prop
  | before (found : u.find? name = some id) (real : (u.record id).isPhantom = false)
      (partition : (v.record id).partition = (u.record id).partition)
      (level : (u.record id).level ≤ (v.record id).level)
  | now (absent : u.find? name = none) (partition : (v.record id).partition = some .library)
      (level : floor ≤ (v.record id).level)

variable {s : Supply} {floor : Level} {u v w : Universe} {name : String} {id : ClassId}
  {d : ClassDefinition} {a : Addition}

theorem Came.of_same (found : u.find? name = some id) (same : v.record id = u.record id)
    (real : (v.record id).isPhantom = false) : Came u v floor name id := by
  refine .before found ?_ ?_ ?_
  · rw [← same]
    exact real
  · rw [same]
  · rw [same]
    exact Nat.le_refl _

theorem Came.of_touches {one : ClassId} (wf : u.IsWellFormed) (touches : u.Touches v one)
    (found : v.find? name = some id) (real : (v.record id).isPhantom = false)
    (self : id = one → Came u v floor name id) : Came u v floor name id := by
  by_cases h : id = one
  · exact self h
  · obtain ⟨found', same⟩ := touches.untouched wf found h
    exact .of_same found' same real

theorem Came.trans (huv : ∀ {name id}, v.find? name = some id → (v.record id).isPhantom = false →
      Came u v floor name id) (grows : u.Grows v)
    (hvw : Came v w floor name id) : Came u w floor name id := by
  cases hvw with
  | before found real partition level =>
      cases huv found real with
      | before found' real' partition' level' =>
          exact .before found' real' (partition.trans partition') (Level.le_trans level' level)
      | now absent partition' level' =>
          exact .now absent (partition.trans partition') (Level.le_trans level' level)
  | now absent partition level =>
      refine .now ?_ partition level
      rw [Option.eq_none_iff_forall_ne_some]
      intro old found
      exact nomatch absent.symm.trans (grows.find found)

theorem came_register (wf : u.IsWellFormed) (above : floor ≤ a.level) (new : u.find? d.name = none)
    (found : (u.register d a).find? name = some u.next) :
    Came u (u.register d a) floor name u.next := by
  have named : name = d.name :=
    (wf.register new).1.name_eq found (serves_register u d a).found
  refine .now (named ▸ new) ?_ ?_
  · rw [record_register_next]
    rfl
  · rw [record_register_next]
    exact Level.le_trans above (ClassRecord.le_level_raise _ _).2

end Universe

theorem Move.came {s : Supply} {floor : Level} {u v : Universe} {name : String} {id : ClassId}
    (wf : u.IsWellFormed) (m : Move s floor u v) (found : v.find? name = some id)
    (real : (v.record id).isPhantom = false) : Universe.Came u v floor name id := by
  cases m with
  | ask => exact .of_same found rfl real
  | @demote _ one absent found' allowed =>
      refine .of_touches wf (Universe.touches_moved u one _) found real ?_
      rintro rfl
      rw [Universe.record_moved_self (wf.stands found').made] at real
      simp [ClassRecord.assign] at real
  | phantom absent new allowed =>
      refine .of_touches wf (Universe.touches_haunted u _) found real ?_
      rintro rfl
      unfold Universe.haunted at real
      rw [Universe.record_enter_self Universe.isMade_next, Universe.record_next] at real
      cases real
  | @register _ d a given above new ready =>
      refine .of_touches wf (Universe.touches_register u d a) found real ?_
      rintro rfl
      exact Universe.came_register wf above new found
  | @lift _ d one a given above found' below ready =>
      refine .of_touches wf (Universe.touches_lift u d one a) found real fun h => ?_
      subst h
      rw [Universe.find?_lift] at found
      have made := (wf.stands found).made
      have same : ((u.lift d id a).record id).StandsAs (u.record id) :=
        wf.standsLike_lift.record made
      exact .before found (same.isPhantom.symm.trans real) same.partition
        (Universe.Grows.lift.level made)

theorem Moves.came {s : Supply} {floor : Level} {u v : Universe} {name : String} {id : ClassId}
    (wf : u.IsWellFormed) (m : Moves s floor u v) (found : v.find? name = some id)
    (real : (v.record id).isPhantom = false) : Universe.Came u v floor name id := by
  induction m generalizing name id with
  | refl => exact .of_same found rfl real
  | tail moves step ih =>
      exact .trans ih (Moves.grows wf moves) (step.came (Moves.isWellFormed wf moves) found real)

/-! ## Supertypes that came before -/

namespace Universe

variable {s : Supply} {u v : Universe} {name : String} {id one parent : ClassId}

/-- A registered descriptor that was made before another one. -/
structure Precedes (u : Universe) (parent id : ClassId) : Prop where
  registered : ∃ name, u.find? name = some parent
  earlier : parent.serial < id.serial

/-- Every class that is no phantom has its supertypes, and the superclass of a class is registered
and was made before the class. -/
structure IsLinked (u : Universe) : Prop where
  level : ∀ {name id}, u.find? name = some id → (u.record id).isPhantom = false →
    .hierarchy ≤ (u.record id).level
  precedes : ∀ {name id parent}, u.find? name = some id → (u.record id).superclass = some parent →
    u.Precedes parent id

theorem isLinked_empty (recycles allowPhantoms : Bool) :
    (empty recycles allowPhantoms).IsLinked where
  level found := nomatch found
  precedes found := nomatch found

theorem Precedes.grows (h : u.Precedes parent id) (grows : u.Grows v) : v.Precedes parent id :=
  ⟨h.registered.imp fun _ found => grows.find found, h.earlier⟩

/-- The superclasses of all other classes remain where a change touches one class only. -/
theorem IsLinked.precedes_of_touches (h : u.IsLinked) (wf : u.IsWellFormed) (grows : u.Grows v)
    (touches : u.Touches v one)
    (self : ∀ {name}, v.find? name = some one → (v.record one).superclass = some parent →
      u.Precedes parent one)
    (found : v.find? name = some id) (link : (v.record id).superclass = some parent) :
    v.Precedes parent id := by
  refine Precedes.grows ?_ grows
  by_cases hid : id = one
  · subst hid
    exact self found link
  · obtain ⟨found', same⟩ := touches.untouched wf found hid
    rw [same] at link
    exact h.precedes found' link

theorem precedes_register (wf : u.IsWellFormed) {d : ClassDefinition} {a : Addition}
    (ready : u.Ready d a) (link : ((u.register d a).record u.next).superclass = some parent) :
    u.Precedes parent u.next := by
  have raised (r : ClassRecord) : (r.raise a.level).superclass = r.superclass := by
    unfold ClassRecord.raise
    split <;> rfl
  rw [record_register_next] at link
  have link : ((a.onRecord d u.catalog.membersMade (.ofDefinition d)).raise a.level).superclass =
      some parent := link
  rw [raised] at link
  cases a with
  | nothing | members | bodies => cases link
  | supertypes superclass interfaces =>
      have linked := ready.superclass
      rw [show superclass = some parent from link] at linked
      generalize d.superclass = above at linked
      cases linked with
      | some served => exact ⟨⟨_, served.found⟩, (wf.stands served.found).made⟩

end Universe

theorem Move.isLinked {s : Supply} {u v : Universe} (wf : u.IsWellFormed) (named : s.IsNamed)
    (h : u.IsLinked) (m : Move s .hierarchy u v) : v.IsLinked where
  level found real := by
    cases m.came wf found real with
    | before found' real' _ level => exact Level.le_trans (h.level found' real') level
    | now _ _ level => exact level
  precedes found link := by
    have grows := (m.keeps wf).2
    cases m with
    | ask => exact (h.precedes found link).grows grows
    | @demote _ one absent found' allowed =>
        refine h.precedes_of_touches wf grows (Universe.touches_moved u one _)
          (fun _ link => ?_) found link
        rw [Universe.record_moved_self (wf.stands found').made] at link
        exact h.precedes found' link
    | phantom absent new allowed =>
        refine h.precedes_of_touches wf grows (Universe.touches_haunted u _)
          (fun _ link => ?_) found link
        unfold Universe.haunted at link
        rw [Universe.record_enter_self Universe.isMade_next, Universe.record_next] at link
        cases link
    | register a given above new ready =>
        exact h.precedes_of_touches wf grows (Universe.touches_register u _ a)
          (fun _ link => Universe.precedes_register wf (ready named) link) found link
    | @lift _ d one a given above found' below ready =>
        refine h.precedes_of_touches wf grows (Universe.touches_lift u d one a)
          (fun _ link => ?_) found link
        have made := (wf.stands found').made
        obtain ⟨real, low⟩ := Universe.below_iff.mp below
        have rises : Level.hierarchy < a.level := Nat.lt_of_le_of_lt (h.level found' real) low
        rw [Universe.record_lift_of_below made below] at link
        cases a with
        | nothing => exact absurd rises (by decide)
        | supertypes superclass interfaces => exact absurd rises (Nat.lt_irrefl _)
        | members | bodies => exact h.precedes found' link

theorem Moves.isLinked {s : Supply} {u v : Universe} (wf : u.IsWellFormed) (named : s.IsNamed)
    (h : u.IsLinked) (m : Moves s .hierarchy u v) : v.IsLinked := by
  induction m with
  | refl => exact h
  | tail moves step ih => exact step.isLinked (Moves.isWellFormed wf moves) named ih

/-! ## Hierarchies -/

namespace Universe

variable {u : Universe}

theorem IsLinked.checkLinked (h : u.IsLinked) : u.checkLinked = .ok () := by
  have none : u.registry.ids.find? (fun id =>
      !(u.record id).isPhantom && (u.record id).level < .hierarchy) = none := by
    rw [List.find?_eq_none]
    intro id hm
    obtain ⟨name, found⟩ := Registry.mem_ids_iff.mp hm
    rw [Bool.and_eq_true, Bool.not_eq_true', decide_eq_true_iff]
    rintro ⟨real, low⟩
    exact Nat.not_lt.mpr (h.level found real) low
  simp only [Universe.checkLinked, none]

theorem IsLinked.climb_ends (h : u.IsLinked) {steps : Nat} {name : String} {id : ClassId}
    (found : u.find? name = some id) (long : id.serial < steps) :
    ∃ last, (Catalog.ancestry.climb u.catalog steps id).getLast? = some last ∧
      u.catalog.superclass? last = none := by
  induction steps generalizing name id with
  | zero => exact absurd long (Nat.not_lt_zero _)
  | succ steps ih =>
      rw [Catalog.ancestry.climb]
      cases link : u.catalog.superclass? id with
      | none => exact ⟨id, rfl, link⟩
      | some parent =>
          obtain ⟨⟨above, found'⟩, earlier⟩ :=
            h.precedes found (Option.filter_eq_some_iff.mp link).1
          obtain ⟨last, ends, top⟩ := ih found' (by omega)
          exact ⟨last, by rw [List.getLast?_cons, ends]; rfl, top⟩

/-- The superclasses of a class are all that there are up to one without a superclass. -/
theorem IsLinked.ancestry_ends (h : u.IsLinked) (wf : u.IsWellFormed) {name : String} {id : ClassId}
    (found : u.find? name = some id) :
    ∃ last, (u.catalog.ancestry id).getLast? = some last ∧ u.catalog.superclass? last = none :=
  h.climb_ends found (wf.stands found).made

/-- Both hierarchies can be built. -/
theorem IsLinked.builds (h : u.IsLinked) :
    (∃ tree, Hierarchy.build u = .ok tree) ∧ ∃ index, SubtypeIndex.build u = .ok index := by
  unfold Hierarchy.build SubtypeIndex.build
  rw [h.checkLinked]
  exact ⟨⟨_, rfl⟩, ⟨_, rfl⟩⟩

end Universe

end ClassUniverse
