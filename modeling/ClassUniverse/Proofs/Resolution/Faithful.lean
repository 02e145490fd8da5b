import ClassUniverse.Proofs.Resolution.Moves
import ClassUniverse.Proofs.Universe.Members

/-!
# Classes as their definitions say

A registered class that is no phantom shows its definition, as far as its level goes: its supertypes
from `hierarchy` on, its members and the classes that these name from `signatures` on, and the
classes that its bodies mention from `bodies` on.  A universe in which every class does is faithful
to the supply, and every move of resolution keeps it so, whatever fails afterwards.
-/

namespace ClassUniverse

namespace Universe

/-- What a class shows of its definition. -/
structure Shows (u : Universe) (d : ClassDefinition) (id : ClassId) : Prop where
  links : .hierarchy ≤ (u.record id).level →
    u.Links d (u.record id).superclass (u.record id).interfaces
  memberless : (u.record id).level < .signatures →
    (u.record id).fields = [] ∧ (u.record id).methods = []
  fields : .signatures ≤ (u.record id).level →
    (u.record id).fields.map (·.definition) = d.fields ∧
      ∀ f ∈ (u.record id).fields, f.declaringClass = d.name
  methods : .signatures ≤ (u.record id).level →
    (u.record id).methods.map (·.definition) = d.methods ∧
      ∀ m ∈ (u.record id).methods, m.declaringClass = d.name
  signatures : .signatures ≤ (u.record id).level → u.Knows d.signatureReferences
  mentions : .bodies ≤ (u.record id).level → u.Knows d.mentions
  loaded : ∀ m ∈ (u.record id).methods,
    u.catalog.hasBody m = (decide (.bodies ≤ (u.record id).level) && m.definition.hasBody)

/-- Whether every registered class that is no phantom shows the definition that a supply has of
it. -/
structure IsFaithful (u : Universe) (s : Supply) : Prop where
  shows : ∀ {name id}, u.find? name = some id → (u.record id).isPhantom = false →
    ∃ d, s.lookup name = .ok (some d) ∧ u.Shows d id
  counted : u.catalog.IsCounted

theorem isFaithful_empty (recycles allowPhantoms : Bool) (s : Supply) :
    (empty recycles allowPhantoms).IsFaithful s where
  shows found := nomatch found
  counted := Catalog.isCounted_empty

variable {s : Supply} {u v : Universe} {name : String} {id : ClassId} {d : ClassDefinition}
  {a : Addition}

theorem Shows.grows (h : u.Shows d id) (wf : u.IsWellFormed) (grows : u.Grows v)
    (same : v.record id = u.record id)
    (bodies : ∀ m ∈ (u.record id).methods, v.catalog.hasBody m = u.catalog.hasBody m) :
    v.Shows d id := by
  constructor
  all_goals rw [same]
  · exact fun hl => (h.links hl).grows wf grows
  · exact h.memberless
  · exact h.fields
  · exact h.methods
  · exact fun hl => (h.signatures hl).grows wf grows
  · exact fun hl => (h.mentions hl).grows wf grows
  · exact fun m hm => (bodies m hm).trans (h.loaded m hm)

/-- A change that touches one class only, which shows its definition afterwards. -/
theorem IsFaithful.of_touches {one : ClassId} (h : u.IsFaithful s) (wf : u.IsWellFormed)
    (grows : u.Grows v) (touches : u.Touches v one)
    (bodies : ∀ {id m}, id ≠ one → m ∈ (u.record id).methods →
      v.catalog.hasBody m = u.catalog.hasBody m)
    (self : ∀ {name}, v.find? name = some one → (v.record one).isPhantom = false →
      ∃ d, s.lookup name = .ok (some d) ∧ v.Shows d one)
    (counted : v.catalog.IsCounted) : v.IsFaithful s where
  shows {name id} found real := by
    by_cases hid : id = one
    · subst hid
      exact self found real
    · obtain ⟨found', same⟩ := touches.untouched wf found hid
      rw [same] at real
      obtain ⟨d, given, shows⟩ := h.shows found' real
      exact ⟨d, given, shows.grows wf grows same fun m hm => bodies hid hm⟩
  counted := counted

theorem IsFaithful.of_eq (h : u.IsFaithful s) (wf : u.IsWellFormed)
    (catalog : v.catalog = u.catalog) (registry : v.registry = u.registry)
    (numbers : v.numbers = u.numbers) (allowPhantoms : v.allowPhantoms = u.allowPhantoms) :
    v.IsFaithful s := by
  refine h.of_touches wf (.of_eq catalog registry numbers allowPhantoms)
    (touches_of_eq catalog registry u.next) (fun _ _ => ?_) (fun hf _ => ?_) ?_
  · rw [catalog]
  · unfold Universe.find? at hf
    rw [registry] at hf
    exact absurd (wf.stands hf).made (Nat.lt_irrefl _)
  · rw [catalog]
    exact h.counted

/-! ## A class that rises -/

theorem record_lift_of_below (made : u.catalog.IsMade id) (below : u.isLoaded id a.level = false) :
    (u.lift d id a).record id =
      { a.onRecord d u.catalog.membersMade (u.record id) with level := a.level } := by
  have hlt : (u.record id).level < a.level := by
    rw [Bool.eq_false_iff, Ne, isLoaded_iff, not_or] at below
    exact Nat.lt_of_not_le below.2
  rw [record_lift_self made, ClassRecord.raise, Addition.level_onRecord, if_pos hlt]

theorem below_iff : u.isLoaded id a.level = false ↔
    (u.record id).isPhantom = false ∧ (u.record id).level < a.level := by
  rw [Bool.eq_false_iff, Ne, isLoaded_iff, not_or, Bool.not_eq_true]
  exact and_congr_right fun _ => Nat.not_le

theorem Serves.level_le {level : Level} (h : u.Serves name level id)
    (real : (u.record id).isPhantom = false) : level ≤ (u.record id).level := by
  refine (isLoaded_iff.mp h.loaded).resolve_left ?_
  rw [real]
  exact Bool.false_ne_true

/-- A class below `signatures` shows its supertypes alone. -/
theorem Shows.of_memberless (low : (u.record id).level < .signatures)
    (fields : (u.record id).fields = []) (methods : (u.record id).methods = [])
    (links : .hierarchy ≤ (u.record id).level →
      u.Links d (u.record id).superclass (u.record id).interfaces) : u.Shows d id where
  links := links
  memberless _ := ⟨fields, methods⟩
  fields hl := absurd low (Nat.not_lt.mpr hl)
  methods hl := absurd low (Nat.not_lt.mpr hl)
  signatures hl := absurd low (Nat.not_lt.mpr hl)
  mentions hl := absurd low (Nat.not_lt.mpr (Level.le_trans (by decide) hl))
  loaded m hm := absurd (methods ▸ hm) List.not_mem_nil

theorem Shows.lift_supertypes {superclass : Option ClassId} {interfaces : List ClassId}
    (h : u.Shows d id) (wf : u.IsWellFormed) (made : u.catalog.IsMade id)
    (below : u.isLoaded id .hierarchy = false)
    (ready : u.Ready d (.supertypes superclass interfaces)) :
    (u.lift d id (.supertypes superclass interfaces)).Shows d id := by
  have he := record_lift_of_below (a := .supertypes superclass interfaces) (d := d) made below
  have low : (u.record id).level < .hierarchy :=
    (below_iff (a := .supertypes superclass interfaces).mp below).2
  obtain ⟨none_fields, none_methods⟩ := h.memberless (Nat.lt_succ_of_lt low)
  have lifted : Level.hierarchy < .signatures := by decide
  apply Shows.of_memberless
  all_goals rw [he]
  · exact lifted
  · exact none_fields
  · exact none_methods
  · exact fun _ => ready.grows wf .lift

theorem Shows.lift_members (h : u.Shows d id) (wf : u.IsWellFormed) (counted : u.catalog.IsCounted)
    (found : u.find? d.name = some id) (below : u.isLoaded id .signatures = false)
    (ready : u.Ready d .members) : (u.lift d id .members).Shows d id := by
  have made := (wf.stands found).made
  have he := record_lift_of_below (a := .members) (d := d) made below
  obtain ⟨⟨id', linked⟩, references⟩ := ready
  have hid : id' = id := Option.some.inj (linked.found.symm.trans found)
  subst hid
  have high := linked.level_le (below_iff (a := .members).mp below).1
  have named : (u.record id').name = d.name := (wf.stands found).named
  have withMembers : ¬ Level.signatures < .signatures := by decide
  have bodiless : ¬ Level.bodies ≤ .signatures := by decide
  constructor
  all_goals rw [he]
  · exact fun _ => (h.links high).grows wf .lift
  · exact fun hl => absurd hl withMembers
  · intro _
    simp only [Addition.onRecord, named]
    refine ⟨?_, fun f hf => ?_⟩
    · rw [List.map_map]
      exact List.zipIdx_map_fst _ _
    · obtain ⟨_, -, rfl⟩ := List.mem_map.mp hf
      rfl
  · intro _
    simp only [Addition.onRecord, named]
    refine ⟨?_, fun m hm => ?_⟩
    · rw [List.map_map]
      exact List.zipIdx_map_fst _ _
    · obtain ⟨_, -, rfl⟩ := List.mem_map.mp hm
      rfl
  · exact fun _ => references.grows wf .lift
  · exact fun hl => absurd hl bodiless
  · intro m hm
    have hm' : m ∈ ((u.catalog.installMembers id' d).get id').methods := by
      rw [Catalog.methods_installMembers_self made]
      exact hm
    change _ = (decide (Level.bodies ≤ .signatures) && _)
    rw [decide_eq_false bodiless, Bool.false_and]
    exact counted.hasBody_installMembers made hm'

theorem Shows.lift_bodies (h : u.Shows d id) (wf : u.IsWellFormed) (counted : u.catalog.IsCounted)
    (found : u.find? d.name = some id) (below : u.isLoaded id .bodies = false)
    (ready : u.Ready d .bodies) : (u.lift d id .bodies).Shows d id := by
  have made := (wf.stands found).made
  have he := record_lift_of_below (a := .bodies) (d := d) made below
  obtain ⟨⟨id', loaded⟩, references⟩ := ready
  have hid : id' = id := Option.some.inj (loaded.found.symm.trans found)
  subst hid
  have high := loaded.level_le (below_iff (a := .bodies).mp below).1
  have withMembers : ¬ Level.bodies < .signatures := by decide
  have bodiless : ¬ Level.bodies ≤ (u.record id').level :=
    Nat.not_le.mpr (below_iff (a := .bodies).mp below).2
  constructor
  all_goals rw [he]
  · exact fun _ => (h.links (Level.le_trans (by decide) high)).grows wf .lift
  · exact fun hl => absurd hl withMembers
  · exact fun _ => h.fields high
  · exact fun _ => h.methods high
  · exact fun _ => (h.signatures high).grows wf .lift
  · exact fun _ => references.grows wf .lift
  · intro m hm
    have before := h.loaded m hm
    rw [decide_eq_false bodiless, Bool.false_and] at before
    have after := counted.hasBody_loadBodies_self hm
    rw [before, Bool.false_or] at after
    exact after

theorem counted_lift (h : u.catalog.IsCounted) (made : u.catalog.IsMade id) :
    (u.lift d id a).catalog.IsCounted := by
  have installed : (u.installed d id a).catalog.IsCounted := by
    cases a with
    | nothing => exact h
    | supertypes superclass interfaces => exact h.modify id fun _ => rfl
    | members => exact h.installMembers made
    | bodies => exact h.loadBodies id
  refine installed.modify id fun r => ?_
  unfold ClassRecord.raise
  split <;> rfl

theorem IsFaithful.lift (h : u.IsFaithful s) (wf : u.IsWellFormed) (named : s.IsNamed)
    (given : s.lookup name = .ok (some d)) (found : u.find? d.name = some id)
    (below : u.isLoaded id a.level = false) (ready : u.Ready d a) :
    (u.lift d id a).IsFaithful s := by
  have made := (wf.stands found).made
  have given' : s.lookup d.name = .ok (some d) := by rwa [named name d given]
  have shown : u.Shows d id := by
    obtain ⟨d', hd, shows⟩ := h.shows found (below_iff.mp below).1
    rw [given'] at hd
    cases hd
    exact shows
  refine h.of_touches wf .lift (touches_lift u d id a) (fun {other m} hne hm => ?_)
    (fun {other} hf _ => ⟨d, ?_, ?_⟩) ?_
  · cases a with
    | nothing | supertypes superclass interfaces | members => rfl
    | bodies => exact h.counted.hasBody_loadBodies_of_ne hne hm
  · rw [find?_lift] at hf
    rwa [wf.name_eq hf found]
  · cases a with
    | nothing => exact absurd (below_iff.mp below).2 (Nat.not_lt_zero _)
    | supertypes superclass interfaces => exact shown.lift_supertypes wf made below ready
    | members => exact shown.lift_members wf h.counted found below ready
    | bodies => exact shown.lift_bodies wf h.counted found below ready
  · exact counted_lift h.counted made

/-! ## A class that comes in -/

theorem counted_enter (h : u.catalog.IsCounted) (id : ClassId) :
    (u.enter id).2.catalog.IsCounted :=
  h.modify id fun _ => rfl

theorem counted_withNew {r : ClassRecord} (h : u.catalog.IsCounted) (none : r.methods = []) :
    (u.withNew r).catalog.IsCounted :=
  h.of_methods (Catalog.methods_make none u.catalog) rfl rfl

theorem IsFaithful.haunted (h : u.IsFaithful s) (wf : u.IsWellFormed) (new : u.find? name = none) :
    (u.haunted name).IsFaithful s := by
  refine h.of_touches wf (wf.haunted new).2 (touches_haunted u name) (fun _ _ => rfl)
    (fun _ real => ?_) (counted_enter (counted_withNew h.counted rfl) _)
  unfold Universe.haunted at real
  rw [record_enter_self isMade_next, record_next] at real
  cases real

theorem record_register_next (u : Universe) (d : ClassDefinition) (a : Addition) :
    (u.register d a).record u.next =
      { ((a.onRecord d u.catalog.membersMade (.ofDefinition d)).raise a.level).assign
          (some .library) with inScene := true } := by
  have stands := record_next_standsAs (u := u) (d := d) (a := a)
  unfold register
  rw [record_enter_self isMade_next_lift,
    entryPartition_of_isFresh ⟨stands.inScene, stands.partition⟩, stands.isPhantom,
    record_lift_self isMade_next, record_next]
  rfl

theorem not_serves {level : Level} (new : u.find? name = none) :
    ¬ ∃ id, u.Serves name level id := by
  rintro ⟨id, served⟩
  exact nomatch new.symm.trans served.found

theorem shows_register (wf : u.IsWellFormed) (new : u.find? d.name = none) (ready : u.Ready d a) :
    (u.register d a).Shows d u.next := by
  have he := record_register_next u d a
  cases a with
  | nothing =>
      have low : Level.dangling < .signatures := by decide
      have unlinked : ¬ Level.hierarchy ≤ .dangling := by decide
      apply Shows.of_memberless
      all_goals rw [he]
      · exact low
      · rfl
      · rfl
      · exact fun hl => absurd hl unlinked
  | supertypes superclass interfaces =>
      have low : Level.hierarchy < .signatures := by decide
      apply Shows.of_memberless
      all_goals rw [he]
      · exact low
      · rfl
      · rfl
      · exact fun _ => ready.grows wf (wf.register new).2
  | members | bodies => exact absurd ready.1 (not_serves new)

theorem IsFaithful.register (h : u.IsFaithful s) (wf : u.IsWellFormed) (named : s.IsNamed)
    (given : s.lookup name = .ok (some d)) (new : u.find? d.name = none) (ready : u.Ready d a) :
    (u.register d a).IsFaithful s := by
  refine h.of_touches wf (wf.register new).2 (touches_register u d a) (fun _ _ => ?_)
    (fun {other} hf _ => ⟨d, ?_, shows_register wf new ready⟩) ?_
  · cases a with
    | nothing | supertypes superclass interfaces => rfl
    | members | bodies => exact absurd ready.1 (not_serves new)
  · have entered : (u.register d a).find? d.name = some u.next := (serves_register u d a).found
    rwa [(wf.register new).1.name_eq hf entered, named name d given]
  · exact counted_enter (counted_lift (counted_withNew h.counted rfl) isMade_next) u.next

end Universe

open Universe

/-! ## Moves and runs -/

theorem Move.isFaithful {s : Supply} {floor : Level} {u v : Universe} (wf : u.IsWellFormed)
    (named : s.IsNamed) (h : u.IsFaithful s) (m : Move s floor u v) : v.IsFaithful s := by
  have grows := (m.keeps wf).2
  cases m with
  | ask => exact h.of_eq wf rfl rfl rfl rfl
  | @demote name id absent found allowed =>
      refine h.of_touches wf grows (touches_moved u id _) (fun _ _ => rfl) (fun _ real => ?_)
        (h.counted.modify id fun _ => rfl)
      rw [Universe.record_moved_self (wf.stands found).made] at real
      simp [ClassRecord.assign] at real
  | phantom absent new allowed => exact h.haunted wf new
  | register a given above new ready => exact h.register wf named given new (ready named)
  | lift a given above found below ready => exact h.lift wf named given found below (ready named)

theorem Moves.isFaithful {s : Supply} {floor : Level} {u v : Universe} (wf : u.IsWellFormed)
    (named : s.IsNamed) (h : u.IsFaithful s) (m : Moves s floor u v) : v.IsFaithful s := by
  induction m with
  | refl => exact h
  | tail moves step ih => exact step.isFaithful (Moves.isWellFormed wf moves) named ih

end ClassUniverse
