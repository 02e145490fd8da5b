import ClassUniverse.Proofs.Hierarchy.Mirrors
import ClassUniverse.Proofs.Workspace.Upkeep

/-!
# Stored hierarchies

A stored hierarchy or subtype index is handed out again while the number of changes stays what it
is.  Links do not keep a removed class in existence, but a stored hierarchy does, also one that is
out of date.  A hierarchy is only built after such a hierarchy has been dropped, so a hierarchy that
is handed out is always the one that would be built at that moment.  A subtype index may be built
before: it then knows of links to removed classes that are gone as soon as the hierarchy is dropped.
-/

namespace ClassUniverse

/-- The members that somebody holds from outside. -/
def Holders.members : Holders → List Nat
  | everything => []
  | these _ members => members

namespace Universe

variable {u v w : Universe} {id : ClassId}

/-- A change of a universe that keeps it well-formed, counts where it should, and brings nothing
back that has been let go. -/
structure Shifts (u v : Universe) : Prop where
  wellFormed : v.IsWellFormed
  counts : u.Counts v
  dead : ∀ {id}, u.catalog.isLive id = false → v.catalog.isLive id = false

theorem Shifts.refl (wf : u.IsWellFormed) : u.Shifts u := ⟨wf, .refl u, fun h => h⟩

theorem Shifts.trans (h : u.Shifts v) (k : v.Shifts w) : u.Shifts w :=
  ⟨k.wellFormed, h.counts.trans k.counts, fun hd => k.dead (h.dead hd)⟩

theorem shifts_letGo (wf : u.IsWellFormed) (held : List ClassId) (members : List Nat) :
    u.Shifts (u.letGo held members) where
  wellFormed := wf.letGo held members
  counts := .of_records (Nat.le_refl _) (fun _ => rfl) (fun h => h) (fun _ => .refl _) fun _ h => h
  dead {id} gone := by
    rw [Bool.eq_false_iff]
    intro live
    rw [(isLive_letGo.mp live (wf.known gone)).2] at gone
    cases gone

theorem shifts_call (wf : u.IsWellFormed) {c : Call} (indirect : c.IsIndirect) :
    u.Shifts (c.run u) where
  wellFormed := c.isWellFormed_run wf
  counts := c.counts wf indirect
  dead gone := by
    unfold Catalog.isLive at gone ⊢
    rwa [Call.released_run wf indirect]

/-- What was built from a universe with closed links answers for what it has become without a
change that counts. -/
theorem Shifts.mirrors (h : u.Shifts v) (wf : u.IsWellFormed)
    (same : v.registry.changes = u.registry.changes) (checked : u.checkLinked = .ok ())
    (closed : u.IsClosedUnder u.catalog.LinksTo) : u.Mirrors v :=
  (h.counts.still same).mirrors wf h.wellFormed h.dead checked closed

end Universe

/-! ## Use of the stored hierarchies -/

/-- A workspace in use, the classes that have been removed from it, and whether its subtype index
was built while a hierarchy was stored that was out of date. -/
structure HierarchyUse where
  workspace : Workspace
  removed : List ClassId
  mixed : Bool

/-- What can happen to a workspace in use.  Links, levels and flags of descriptors are left to
resolution. -/
inductive HierarchyCall
  | onUniverse (c : Call) (indirect : c.IsIndirect)
  | hold (classes : List ClassId) (members : List Nat)
  | getHierarchy
  | getSubtypes
  | hasHierarchy
  | hasSubtypes
  | releaseHierarchy
  | releaseSubtypes

namespace HierarchyUse

def start (recycles allowPhantoms : Bool) : HierarchyUse where
  workspace := { Workspace.ofUniverse (.empty recycles allowPhantoms) with holders := .these [] [] }
  removed := []
  mixed := false

/-- Some classes are held from outside, none of which has been removed. -/
def holding (w : Workspace) (removed classes : List ClassId) (members : List Nat) : Workspace :=
  { w with holders := .these (classes.filter fun id => !removed.contains id) members }

/-- One step of use.  Whoever makes a descriptor holds it, and a descriptor that is removed is held
by nobody outside any more. -/
def step (s : HierarchyUse) : HierarchyCall → HierarchyUse
  | .onUniverse c _ =>
      let w := s.workspace
      let u := c.run w.core
      let removed := s.removed ++ w.core.registry.ids.filter fun id => !u.registry.ids.contains id
      let classes := w.holders.classes ++ u.catalog.ids.drop w.core.catalog.records.size
      { s with
        workspace := (holding w removed classes w.holders.members).change c
        removed := removed }
  | .hold classes members =>
      { s with workspace := (holding s.workspace s.removed classes members).letGo }
  | .getHierarchy => { s with workspace := after Workspace.getHierarchy s.workspace }
  | .getSubtypes =>
      let w := s.workspace
      { s with
        workspace := after Workspace.getSubtypes w
        mixed :=
          if (w.current w.subtypes).isSome then s.mixed
          else !(w.hierarchy.all fun h => h.changes == w.changes) }
  | .hasHierarchy => { s with workspace := after Workspace.hasHierarchy s.workspace }
  | .hasSubtypes => { s with workspace := after Workspace.hasSubtypes s.workspace }
  | .releaseHierarchy => { s with workspace := s.workspace.releaseHierarchy }
  | .releaseSubtypes => { s with workspace := s.workspace.releaseSubtypes }

def run (s : HierarchyUse) (calls : List HierarchyCall) : HierarchyUse := calls.foldl step s

/-- What holds between the steps of use. -/
structure IsKept (s : HierarchyUse) : Prop where
  wellFormed : s.workspace.core.IsWellFormed
  outside : ∃ classes members, s.workspace.holders = .these classes members ∧
    ∀ id ∈ classes, id ∉ s.removed
  alive : ∀ {id}, s.workspace.core.catalog.IsMade id →
    s.workspace.core.catalog.isLive id = true → s.workspace.core.IsRegistered id ∨
      id ∈ s.workspace.treeClasses ∨ id ∈ s.workspace.holders.classes
  links : ∀ {id target}, s.workspace.core.Names id target →
    s.workspace.core.IsRegistered target ∨ target ∈ s.removed
  made : ∀ id ∈ s.removed, s.workspace.core.catalog.IsMade id
  tree : ∀ h, s.workspace.hierarchy = some h → h.changes ≤ s.workspace.changes ∧
    (h.changes = s.workspace.changes →
      s.workspace.core.IsClosedUnder s.workspace.core.catalog.LinksTo ∧
        Hierarchy.build s.workspace.core = .ok h.value)
  index : ∀ x, s.workspace.subtypes = some x → x.changes ≤ s.workspace.changes ∧
    (x.changes = s.workspace.changes → s.mixed = false →
      s.workspace.core.IsClosedUnder s.workspace.core.catalog.LinksTo ∧
        ∃ y, SubtypeIndex.build s.workspace.core = .ok y ∧ x.value.Agrees y)

theorem isKept_start (recycles allowPhantoms : Bool) : (start recycles allowPhantoms).IsKept where
  wellFormed := Universe.isWellFormed_empty recycles allowPhantoms
  outside := ⟨[], [], rfl, by simp⟩
  alive made := by simp [start, Workspace.ofUniverse, Universe.empty, Catalog.empty, Catalog.IsMade]
    at made
  links {id target} named := by
    have bare : ((Universe.empty recycles allowPhantoms).record id).targets = [] := by
      unfold Universe.record
      rw [Catalog.get_of_not_isMade (by simp [Universe.empty, Catalog.empty, Catalog.IsMade])]
      rfl
    have named : target ∈ ((Universe.empty recycles allowPhantoms).record id).targets := named
    rw [bare] at named
    cases named
  made := by simp [start]
  tree h stored := nomatch stored
  index x stored := nomatch stored

variable {s : HierarchyUse}

/-- Where no hierarchy is stored that is out of date, links lead to registered classes. -/
theorem IsKept.closed (kept : s.IsKept)
    (upToDate : ∀ h, s.workspace.hierarchy = some h → h.changes = s.workspace.changes) :
    s.workspace.core.IsClosedUnder s.workspace.core.catalog.LinksTo := by
  intro id target registered link
  obtain ⟨named, live⟩ := Universe.linksTo_iff.mp link
  cases kept.links named with
  | inl known => exact known
  | inr gone =>
      obtain ⟨classes, members, held, apart⟩ := kept.outside
      rcases kept.alive (kept.made target gone) live with known | stored | holds
      · exact known
      · cases slot : s.workspace.hierarchy with
        | none => simp [Workspace.treeClasses, slot] at stored
        | some h =>
            -- a hierarchy that is up to date holds the registered classes alone
            obtain ⟨-, built⟩ := (kept.tree h slot).2 (upToDate h slot)
            have member : target ∈ h.value.classes.values := by
              simpa [Workspace.treeClasses, slot] using stored
            obtain ⟨name, found⟩ := (OrderedMap.mem_values_iff _).mp member
            exact ⟨name, (Hierarchy.get?_classes kept.wellFormed built name).symm.trans found⟩
      · rw [held] at holds
        exact absurd gone (apart target holds)

/-! ## What a step keeps -/

section Shift

variable {w v : Workspace}

/-- A stored hierarchy stays right while the number of changes does. -/
theorem tree_shift (wf : w.core.IsWellFormed) (shifts : w.core.Shifts v.core)
    {h : Stamped Hierarchy} (kept : h.changes ≤ w.changes ∧ (h.changes = w.changes →
      w.core.IsClosedUnder w.core.catalog.LinksTo ∧ Hierarchy.build w.core = .ok h.value)) :
    h.changes ≤ v.changes ∧ (h.changes = v.changes →
      v.core.IsClosedUnder v.core.catalog.LinksTo ∧ Hierarchy.build v.core = .ok h.value) := by
  have le : w.changes ≤ v.changes := shifts.counts.le
  refine ⟨Nat.le_trans kept.1 le, fun same => ?_⟩
  obtain ⟨closed, built⟩ := kept.2 (by omega)
  have still : v.core.registry.changes = w.core.registry.changes := by
    show v.changes = w.changes
    omega
  have mirrors := shifts.mirrors wf still (Hierarchy.build_eq_ok built).1 closed
  exact ⟨mirrors.symm.closed, (Hierarchy.build_mirrors mirrors).trans built⟩

/-- A stored subtype index stays right while the number of changes does. -/
theorem index_shift (wf : w.core.IsWellFormed) (shifts : w.core.Shifts v.core)
    {x : Stamped SubtypeIndex} {mixed : Bool} (kept : x.changes ≤ w.changes ∧
      (x.changes = w.changes → mixed = false → w.core.IsClosedUnder w.core.catalog.LinksTo ∧
        ∃ y, SubtypeIndex.build w.core = .ok y ∧ x.value.Agrees y)) :
    x.changes ≤ v.changes ∧ (x.changes = v.changes → mixed = false →
      v.core.IsClosedUnder v.core.catalog.LinksTo ∧
        ∃ y, SubtypeIndex.build v.core = .ok y ∧ x.value.Agrees y) := by
  have le : w.changes ≤ v.changes := shifts.counts.le
  refine ⟨Nat.le_trans kept.1 le, fun same pure => ?_⟩
  obtain ⟨closed, y, built, agrees⟩ := kept.2 (by omega) pure
  have still : v.core.registry.changes = w.core.registry.changes := by
    show v.changes = w.changes
    omega
  have checked := (SubtypeIndex.build_eq_ok built).1
  have mirrors := shifts.mirrors wf still checked closed
  obtain ⟨z, built'⟩ := SubtypeIndex.exists_build (mirrors.checked.trans checked)
  exact ⟨mirrors.symm.closed, z, built',
    agrees.trans (SubtypeIndex.agrees_mirrors mirrors wf shifts.wellFormed built built')⟩

end Shift

/-- Letting go after a change of the universe, of what is held from outside, and of the slots by
dropping what is stored. -/
theorem IsKept.letGo (kept : s.IsKept) {w : Workspace} {removed classes : List ClassId}
    {members : List Nat} (shifts : s.workspace.core.Shifts w.core)
    (links : ∀ {id target}, w.core.Names id target →
      w.core.IsRegistered target ∨ target ∈ removed)
    (made : ∀ id ∈ removed, w.core.catalog.IsMade id)
    (held : w.holders = .these classes members) (apart : ∀ id ∈ classes, id ∉ removed)
    (tree : ∀ h, w.hierarchy = some h → s.workspace.hierarchy = some h)
    (index : ∀ x, w.subtypes = some x → s.workspace.subtypes = some x) :
    IsKept ⟨w.letGo, removed, s.mixed⟩ := by
  obtain ⟨released, core⟩ := Workspace.core_letGo held
  have slots := w.letGo_eq
  have shifts' : s.workspace.core.Shifts w.letGo.core := by
    rw [core]
    exact shifts.trans (Universe.shifts_letGo shifts.wellFormed _ _)
  constructor
  · exact shifts'.wellFormed
  · refine ⟨classes, members, ?_, apart⟩
    rw [slots]
    exact held
  · intro id hm live
    have tree : w.letGo.treeClasses = w.treeClasses := by rw [slots]; rfl
    have outside : w.letGo.holders.classes = classes := by
      rw [slots]
      show w.holders.classes = classes
      rw [held]
      rfl
    show w.letGo.core.IsRegistered id ∨ id ∈ w.letGo.treeClasses ∨ id ∈ w.letGo.holders.classes
    rw [tree, outside]
    rw [core] at hm live ⊢
    cases (Universe.isLive_letGo.mp live hm).1 with
    | inl registered => exact .inl (Registry.mem_ids_iff.mp registered)
    | inr other => exact .inr (List.mem_append.mp other)
  · intro id target named
    show w.letGo.core.IsRegistered target ∨ target ∈ removed
    rw [core] at named ⊢
    exact links named
  · intro id hm
    show w.letGo.core.catalog.IsMade id
    rw [core]
    exact made id hm
  · intro h stored
    rw [slots] at stored
    exact tree_shift kept.wellFormed shifts' (kept.tree h (tree h stored))
  · intro x stored
    rw [slots] at stored
    exact index_shift kept.wellFormed shifts' (kept.index x (index x stored))

theorem IsKept.names (kept : s.IsKept) {u : Universe} {removed : List ClassId}
    (registered : ∀ id, s.workspace.core.IsRegistered id → u.IsRegistered id ∨ id ∈ removed)
    (subset : s.removed ⊆ removed) {id target : ClassId}
    (named : s.workspace.core.Names id target) : u.IsRegistered target ∨ target ∈ removed := by
  cases kept.links named with
  | inl known => exact registered target known
  | inr gone => exact .inr (subset gone)

theorem not_removed_of_held {removed classes : List ClassId} :
    ∀ id ∈ classes.filter (fun id => !removed.contains id), id ∉ removed := by
  intro id hm
  simpa using (List.mem_filter.mp hm).2

theorem IsKept.onUniverse (kept : s.IsKept) (c : Call) (indirect : c.IsIndirect) :
    (s.step (.onUniverse c indirect)).IsKept := by
  have wf := kept.wellFormed
  have shifts := Universe.shifts_call wf indirect
  let removed := s.removed ++ s.workspace.core.registry.ids.filter fun id =>
    !(c.run s.workspace.core).registry.ids.contains id
  have registered (id : ClassId) (h : s.workspace.core.IsRegistered id) :
      (c.run s.workspace.core).IsRegistered id ∨ id ∈ removed := by
    by_cases still : id ∈ (c.run s.workspace.core).registry.ids
    · exact .inl (Registry.mem_ids_iff.mp still)
    · right
      apply List.mem_append_right
      rw [List.mem_filter]
      exact ⟨Registry.mem_ids_iff.mpr h, by simpa using still⟩
  refine kept.letGo (w := { holding s.workspace removed _ _ with core := c.run s.workspace.core })
    shifts ?_ ?_ rfl not_removed_of_held (fun h stored => stored) fun x stored => stored
  · intro id target named
    cases Call.names_run wf indirect named with
    | inl old => exact kept.names registered (List.subset_append_left _ _) old
    | inr new => exact .inl new
  · intro id hm
    apply shifts.counts.made
    cases List.mem_append.mp hm with
    | inl old => exact kept.made id old
    | inr gone =>
        obtain ⟨name, found⟩ := Registry.mem_ids_iff.mp (List.mem_of_mem_filter gone)
        exact (wf.stands found).made

theorem IsKept.hold (kept : s.IsKept) (classes : List ClassId) (members : List Nat) :
    (s.step (.hold classes members)).IsKept :=
  kept.letGo (w := holding s.workspace s.removed classes members) (.refl kept.wellFormed)
    (fun named => kept.links named) kept.made rfl not_removed_of_held (fun _ stored => stored)
    fun _ stored => stored

/-- What is stored may be dropped. -/
theorem IsKept.drop (kept : s.IsKept) {hierarchy : Option (Stamped Hierarchy)}
    (fewer : ∀ h, hierarchy = some h → s.workspace.hierarchy = some h) :
    IsKept { s with workspace := { s.workspace with hierarchy := hierarchy }.letGo } := by
  obtain ⟨classes, members, held, apart⟩ := kept.outside
  exact kept.letGo (w := { s.workspace with hierarchy := hierarchy }) (.refl kept.wellFormed)
    (fun named => kept.links named) kept.made held apart fewer fun x stored => stored

/-! ## Handing out -/

section Getters

variable {w v : Workspace}

theorem getHierarchy_apply (w : Workspace) : Workspace.getHierarchy w =
    let r := w.refreshHierarchy
    match r.hierarchy with
    | some h => .ok h r
    | none =>
        match Hierarchy.build r.core with
        | .error e => .error e r
        | .ok tree => .ok (r.stamp tree).1
            { (r.stamp tree).2 with hierarchy := some (r.stamp tree).1 } := by
  simp only [Workspace.getHierarchy, bind_apply, modify_apply, get_apply]
  cases stored : w.refreshHierarchy.hierarchy with
  | some h => rfl
  | none =>
      simp only [bind_apply, get_apply]
      cases Hierarchy.build w.refreshHierarchy.core <;> rfl

theorem getSubtypes_apply (w : Workspace) : Workspace.getSubtypes w =
    let r := w.refreshSubtypes
    match r.subtypes with
    | some x => .ok x r
    | none =>
        match SubtypeIndex.build r.core with
        | .error e => .error e r
        | .ok index => .ok (r.stamp index).1
            { (r.stamp index).2 with subtypes := some (r.stamp index).1 } := by
  simp only [Workspace.getSubtypes, bind_apply, modify_apply, get_apply]
  cases stored : w.refreshSubtypes.subtypes with
  | some x => rfl
  | none =>
      simp only [bind_apply, get_apply]
      cases SubtypeIndex.build w.refreshSubtypes.core <;> rfl

theorem hierarchy_refreshHierarchy (w : Workspace) :
    w.refreshHierarchy.hierarchy = w.current w.hierarchy := by
  unfold Workspace.refreshHierarchy
  rw [Workspace.letGo_eq]

theorem changes_refreshHierarchy (w : Workspace) : w.refreshHierarchy.changes = w.changes :=
  Workspace.changes_letGo _

/-- A hierarchy that is handed out is stored afterwards, with the stamp of that moment. -/
theorem stored_of_getHierarchy {h : Stamped Hierarchy} (given : Workspace.getHierarchy w = .ok h v) :
    v.hierarchy = some h ∧ h.changes = v.changes := by
  rw [getHierarchy_apply] at given
  dsimp only at given
  split at given
  · rename_i x stored
    cases given
    refine ⟨stored, ?_⟩
    rw [hierarchy_refreshHierarchy] at stored
    rw [changes_refreshHierarchy]
    exact (Workspace.current_eq_some_iff.mp stored).2
  · split at given
    · cases given
    · cases given
      exact ⟨rfl, rfl⟩

theorem stored_of_getSubtypes {x : Stamped SubtypeIndex}
    (given : Workspace.getSubtypes w = .ok x v) : v.subtypes = some x ∧ x.changes = v.changes := by
  rw [getSubtypes_apply] at given
  dsimp only at given
  split at given
  · rename_i y stored
    cases given
    exact ⟨stored, (Workspace.current_eq_some_iff.mp stored).2⟩
  · split at given
    · cases given
    · cases given
      exact ⟨rfl, rfl⟩

end Getters

theorem IsKept.refresh (kept : s.IsKept) :
    IsKept { s with workspace := s.workspace.refreshHierarchy } :=
  kept.drop fun _ stored => (Workspace.current_eq_some_iff.mp stored).1

/-- A hierarchy that is built when none is stored may be stored. -/
theorem IsKept.store (kept : s.IsKept) (empty : s.workspace.hierarchy = none) {tree : Hierarchy}
    (built : Hierarchy.build s.workspace.core = .ok tree) (stamps serial : Nat) :
    IsKept { s with workspace := { s.workspace with
      stamps := stamps, hierarchy := some ⟨s.workspace.changes, serial, tree⟩ } } where
  wellFormed := kept.wellFormed
  outside := kept.outside
  alive made live := by
    rcases kept.alive made live with known | stored | holds
    · exact .inl known
    · simp [Workspace.treeClasses, empty] at stored
    · exact .inr (.inr holds)
  links := kept.links
  made := kept.made
  tree h stored := by
    obtain rfl := Option.some.inj stored
    have closed := kept.closed fun h found => by cases empty.symm.trans found
    exact ⟨Nat.le_refl _, fun _ => ⟨closed, built⟩⟩
  index := kept.index

theorem IsKept.getHierarchy (kept : s.IsKept) : (s.step .getHierarchy).IsKept := by
  have refreshed := kept.refresh
  show IsKept { s with workspace := after Workspace.getHierarchy s.workspace }
  unfold after
  rw [getHierarchy_apply]
  dsimp only
  cases stored : s.workspace.refreshHierarchy.hierarchy with
  | some h => exact refreshed
  | none =>
      cases built : Hierarchy.build s.workspace.refreshHierarchy.core with
      | error e => exact refreshed
      | ok tree => exact refreshed.store stored built _ _

/-- The slot of the subtype index has no part in the rest. -/
theorem IsKept.withIndex (kept : s.IsKept) {subtypes : Option (Stamped SubtypeIndex)} {mixed : Bool}
    {stamps : Nat} (index : ∀ x, subtypes = some x → x.changes ≤ s.workspace.changes ∧
      (x.changes = s.workspace.changes → mixed = false →
        s.workspace.core.IsClosedUnder s.workspace.core.catalog.LinksTo ∧
          ∃ y, SubtypeIndex.build s.workspace.core = .ok y ∧ x.value.Agrees y)) :
    IsKept ⟨{ s.workspace with stamps := stamps, subtypes := subtypes }, s.removed, mixed⟩ where
  wellFormed := kept.wellFormed
  outside := kept.outside
  alive := kept.alive
  links := kept.links
  made := kept.made
  tree := kept.tree
  index := index

theorem IsKept.getSubtypes (kept : s.IsKept) : (s.step .getSubtypes).IsKept := by
  simp only [step, after]
  rw [getSubtypes_apply]
  dsimp only
  have slot : s.workspace.refreshSubtypes.subtypes = s.workspace.current s.workspace.subtypes := rfl
  rw [slot]
  cases stored : s.workspace.current s.workspace.subtypes with
  | some x =>
      rw [Option.isSome_some, if_pos rfl]
      apply kept.withIndex
      intro y hy
      exact kept.index y (Workspace.current_eq_some_iff.mp hy).1
  | none =>
      rw [Option.isSome_none, if_neg Bool.false_ne_true]
      cases built : SubtypeIndex.build s.workspace.refreshSubtypes.core with
      | error e =>
          apply kept.withIndex
          intro y hy
          exact nomatch stored.symm.trans hy
      | ok x =>
          apply kept.withIndex
          intro y hy
          obtain rfl := Option.some.inj hy
          refine ⟨Nat.le_refl _, fun _ pure => ⟨kept.closed ?_, x, built, .refl x⟩⟩
          intro h found
          simpa [found] using pure

theorem IsKept.step (kept : s.IsKept) (c : HierarchyCall) : (s.step c).IsKept := by
  cases c with
  | onUniverse c indirect => exact kept.onUniverse c indirect
  | hold classes members => exact kept.hold classes members
  | getHierarchy => exact kept.getHierarchy
  | getSubtypes => exact kept.getSubtypes
  | hasHierarchy => exact kept.refresh
  | hasSubtypes =>
      apply kept.withIndex
      intro x hx
      exact kept.index x (Workspace.current_eq_some_iff.mp hx).1
  | releaseHierarchy => exact kept.drop fun h stored => nomatch stored
  | releaseSubtypes => exact kept.withIndex fun x stored => nomatch stored

theorem IsKept.run (kept : s.IsKept) (calls : List HierarchyCall) : (s.run calls).IsKept := by
  induction calls generalizing s with
  | nil => exact kept
  | cons c calls ih => exact ih (kept.step c)

/-- A hierarchy that is handed out is the one that would be built at that moment.  So is a subtype
index, as far as its answers go, unless it was built while a hierarchy was stored that was out of
date. -/
theorem handed_out_run (recycles allowPhantoms : Bool) (calls : List HierarchyCall) :
    let s := (start recycles allowPhantoms).run calls
    (∀ h v, Workspace.getHierarchy s.workspace = .ok h v → Hierarchy.build v.core = .ok h.value) ∧
    ∀ x v, Workspace.getSubtypes s.workspace = .ok x v → (s.step .getSubtypes).mixed = false →
      ∃ y, SubtypeIndex.build v.core = .ok y ∧ x.value.Agrees y := by
  intro s
  have kept : s.IsKept := (isKept_start recycles allowPhantoms).run calls
  constructor
  · intro h v given
    obtain ⟨stored, upToDate⟩ := stored_of_getHierarchy given
    have tree := (kept.step .getHierarchy).tree h
    simp only [HierarchyUse.step, after, given] at tree
    exact ((tree stored).2 upToDate).2
  · intro x v given pure
    obtain ⟨stored, upToDate⟩ := stored_of_getSubtypes given
    have index := (kept.step .getSubtypes).index x
    rw [pure] at index
    simp only [HierarchyUse.step, after, given] at index
    exact ((index stored).2 upToDate trivial).2

/-! ## A subtype index that knows too much -/

/-- A class whose superclass has an interface. -/
def middleSource : MemorySource :=
  ((MemorySource.empty.add { name := "a.Shape", modifiers := ⟨1537⟩ }).add
    { name := "a.Base", interfaces := ["a.Shape"] }).add
    { name := "a.Circle", superclass := some "a.Base" }

/-- The superclass is removed while a hierarchy is stored, a subtype index is built, and the
hierarchy is dropped. -/
def outdatedUse : List HierarchyCall :=
  [.onUniverse (.request middleSource.supply (.resolve .regular "a.Circle" .hierarchy)) trivial,
    .getHierarchy, .onUniverse (.remove ⟨1⟩) trivial, .getSubtypes, .hasHierarchy]

/-- A subtype index that is handed out need not be the one that would be built at that moment. -/
theorem not_as_built_now :
    ¬ ∀ x v, Workspace.getSubtypes ((start false false).run outdatedUse).workspace = .ok x v →
      ∃ y, SubtypeIndex.build v.core = .ok y ∧ x.value.Agrees y := by
  intro claimed
  have outcome : (match Workspace.getSubtypes ((start false false).run outdatedUse).workspace with
      | .ok x v => (SubtypeIndex.build v.core).toOption.map fun y =>
          (x.value.canStore "a.Circle" "a.Shape", y.canStore "a.Circle" "a.Shape")
      | .error _ _ => none) = some (true, false) := by decide +kernel
  cases given : Workspace.getSubtypes ((start false false).run outdatedUse).workspace with
  | error e v =>
      rw [given] at outcome
      cases outcome
  | ok x v =>
      obtain ⟨y, built, agrees⟩ := claimed x v given
      rw [given] at outcome
      simp only [built, Except.toOption, Option.map_some, agrees.canStore, Option.some.injEq,
        Prod.mk.injEq] at outcome
      exact Bool.false_ne_true (outcome.2.symm.trans outcome.1)

end HierarchyUse

end ClassUniverse
