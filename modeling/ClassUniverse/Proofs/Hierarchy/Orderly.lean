import ClassUniverse.Proofs.Hierarchy.Paths
import ClassUniverse.Proofs.Universe.WellFormed

/-!
# Orderly links

Links between classes are orderly when they lead to registered classes and nowhere back, when no
interface is a superclass, and when nothing but an interface or a phantom without links is named as
an interface.  Paths of links can be followed by descriptors or by names alike.
-/

namespace ClassUniverse

open Relation (ReflTransGen TransGen)

namespace Universe

/-- Whether a descriptor is registered under some name. -/
def IsRegistered (u : Universe) (id : ClassId) : Prop := ∃ name, u.find? name = some id

/-- Whether the flags of a descriptor are those of an interface. -/
def IsInterface (u : Universe) (id : ClassId) : Prop := (u.record id).modifiers.isInterface = true

instance (u : Universe) (id : ClassId) : Decidable (u.IsInterface id) :=
  inferInstanceAs (Decidable (_ = _))

variable {u : Universe} {name other : String} {id id' parent : ClassId}
  {R : ClassId → ClassId → Prop} {S : String → String → Prop}

/-! ## Names of registered descriptors -/

namespace IsWellFormed

theorem find_nameOf (wf : u.IsWellFormed) (h : u.IsRegistered id) :
    u.find? (u.catalog.nameOf id) = some id := by
  obtain ⟨name, found⟩ := h
  have named : u.catalog.nameOf id = name := (wf.stands found).named
  rw [named, found]

/-- A registered descriptor is the one that its name stands for. -/
theorem eq_of_nameOf (wf : u.IsWellFormed) (h : u.IsRegistered id) (found : u.find? name = some id')
    (named : u.catalog.nameOf id = name) : id = id' := by
  have own := wf.find_nameOf h
  rw [named] at own
  exact Option.some.inj (own.symm.trans found)

theorem eq_iff_name_eq (wf : u.IsWellFormed) (hn : u.find? name = some id)
    (ho : u.find? other = some id') : id = id' ↔ name = other := by
  constructor
  · rintro rfl
    exact wf.name_eq hn ho
  · rintro rfl
    exact Option.some.inj (hn.symm.trans ho)

theorem names_ids (wf : u.IsWellFormed) :
    u.registry.ids.map u.catalog.nameOf = u.registry.classes.keys := by
  unfold Registry.ids OrderedMap.values OrderedMap.keys
  rw [List.map_map]
  refine List.map_congr_left fun entry he => ?_
  obtain ⟨name, id⟩ := entry
  have found : u.find? name = some id := (OrderedMap.get?_eq_some_iff _).mpr he
  exact (wf.stands found).named

theorem nodup_names (wf : u.IsWellFormed) : (u.registry.ids.map u.catalog.nameOf).Nodup := by
  rw [wf.names_ids]
  exact u.registry.classes.nodup

theorem nodup_ids (wf : u.IsWellFormed) : u.registry.ids.Nodup := wf.nodup_names.of_map

/-- There are no more registered descriptors than descriptors. -/
theorem length_ids_le (wf : u.IsWellFormed) :
    u.registry.ids.length ≤ u.catalog.records.size := by
  have serials : (u.registry.ids.map ClassId.serial).Nodup := by
    refine wf.nodup_ids.map fun a b same => ?_
    cases a
    cases b
    simpa using same
  have within : u.registry.ids.map ClassId.serial ⊆ List.range u.catalog.records.size := by
    intro serial hs
    obtain ⟨id, hm, rfl⟩ := List.mem_map.mp hs
    obtain ⟨name, found⟩ := Registry.mem_ids_iff.mp hm
    exact List.mem_range.mpr (wf.stands found).made
  have hl := serials.length_le_of_subset within
  rwa [List.length_map, List.length_range] at hl

end IsWellFormed

/-! ## Paths by names -/

/-- Steps between registered descriptors and steps between their names that go along with each
other. -/
structure Corresponds (u : Universe) (R : ClassId → ClassId → Prop) (S : String → String → Prop) :
    Prop where
  named : ∀ {name id parent}, u.find? name = some id → R id parent →
    ∃ above, S name above ∧ u.find? above = some parent
  linked : ∀ {name id above}, u.find? name = some id → S name above →
    ∃ parent, R id parent ∧ u.find? above = some parent

namespace Corresponds

theorem named_path (h : u.Corresponds R S) (found : u.find? name = some id)
    (path : ReflTransGen R id id') :
    ∃ other, ReflTransGen S name other ∧ u.find? other = some id' := by
  induction path with
  | refl => exact ⟨name, .refl, found⟩
  | tail _ step ih =>
      obtain ⟨middle, before, found⟩ := ih
      obtain ⟨other, last, found⟩ := h.named found step
      exact ⟨other, before.tail last, found⟩

theorem linked_path (h : u.Corresponds R S) (found : u.find? name = some id)
    (path : ReflTransGen S name other) :
    ∃ id', ReflTransGen R id id' ∧ u.find? other = some id' := by
  induction path with
  | refl => exact ⟨id, .refl, found⟩
  | tail _ step ih =>
      obtain ⟨middle, before, found⟩ := ih
      obtain ⟨id', last, found⟩ := h.linked found step
      exact ⟨id', before.tail last, found⟩

theorem path_iff (h : u.Corresponds R S) (wf : u.IsWellFormed) (hn : u.find? name = some id)
    (ho : u.find? other = some id') : ReflTransGen R id id' ↔ ReflTransGen S name other := by
  constructor
  · intro path
    obtain ⟨other', path', found⟩ := h.named_path hn path
    rwa [wf.name_eq found ho] at path'
  · intro path
    obtain ⟨id'', path', found⟩ := h.linked_path hn path
    rwa [Option.some.inj (found.symm.trans ho)] at path'

theorem cycle_iff (h : u.Corresponds R S) (wf : u.IsWellFormed) (found : u.find? name = some id) :
    TransGen R id id ↔ TransGen S name name := by
  constructor
  · intro cycle
    obtain ⟨parent, step, path⟩ := TransGen.head'_iff.mp cycle
    obtain ⟨above, first, found'⟩ := h.named found step
    exact TransGen.head' first ((h.path_iff wf found' found).mp path)
  · intro cycle
    obtain ⟨above, step, path⟩ := TransGen.head'_iff.mp cycle
    obtain ⟨parent, first, found'⟩ := h.linked found step
    exact TransGen.head' first ((h.path_iff wf found' found).mpr path)

end Corresponds

/-- A step between descriptors as a step between the names that they are registered under, from the
upper name to the lower one. -/
def NamedStep (u : Universe) (R : ClassId → ClassId → Prop) (above below : String) : Prop :=
  ∃ id parent, u.find? below = some id ∧ R id parent ∧ u.catalog.nameOf parent = above

/-- Whether steps from registered descriptors lead to registered ones. -/
def IsClosedUnder (u : Universe) (R : ClassId → ClassId → Prop) : Prop :=
  ∀ id parent, u.IsRegistered id → R id parent → u.IsRegistered parent

theorem IsClosedUnder.path (closed : u.IsClosedUnder R) (h : u.IsRegistered id)
    (path : ReflTransGen R id id') : u.IsRegistered id' := by
  induction path with
  | refl => exact h
  | tail _ step ih => exact closed _ _ ih step

namespace IsWellFormed

/-- Steps from registered descriptors to registered ones go along with the steps between names. -/
theorem corresponds_names (wf : u.IsWellFormed) (closed : u.IsClosedUnder R) :
    u.Corresponds R (Function.swap (u.NamedStep R)) where
  named {name id parent} found link := by
    have registered := closed id parent ⟨name, found⟩ link
    exact ⟨_, ⟨id, parent, found, link, rfl⟩, wf.find_nameOf registered⟩
  linked {name id above} found step := by
    obtain ⟨first, parent, found', link, named⟩ := step
    have same : first = id := Option.some.inj (found'.symm.trans found)
    subst same
    have registered := closed first parent ⟨name, found⟩ link
    refine ⟨parent, link, ?_⟩
    rw [← named]
    exact wf.find_nameOf registered

theorem namedPath_iff (wf : u.IsWellFormed) (closed : u.IsClosedUnder R)
    (hn : u.find? name = some id) (ho : u.find? other = some id') :
    ReflTransGen (u.NamedStep R) other name ↔ ReflTransGen R id id' := by
  rw [(wf.corresponds_names closed).path_iff wf hn ho, Relation.reflTransGen_swap]

theorem namedCycle (wf : u.IsWellFormed) (closed : u.IsClosedUnder R)
    (cycle : TransGen (u.NamedStep R) name name) :
    ∃ id, u.IsRegistered id ∧ TransGen R id id := by
  obtain ⟨middle, -, id, parent, found, -⟩ := TransGen.tail'_iff.mp cycle
  refine ⟨id, ⟨name, found⟩, ((wf.corresponds_names closed).cycle_iff wf found).mpr ?_⟩
  exact Relation.transGen_swap.mpr cycle

/-- Every name on a path from a registered name is registered. -/
theorem namedPath_registered (found : u.find? other = some id')
    (path : ReflTransGen (u.NamedStep R) other name) : ∃ id, u.find? name = some id := by
  rcases path.cases_tail with rfl | ⟨middle, -, id, parent, found', -, -⟩
  · exact ⟨id', found⟩
  · exact ⟨id, found'⟩

end IsWellFormed

/-! ## Rooted superclasses -/

/-- Whether the superclass links of registered classes lead to registered classes and nowhere
back. -/
structure IsRooted (u : Universe) : Prop where
  registered : u.IsClosedUnder u.catalog.Extends
  acyclic : ∀ id, u.IsRegistered id → ¬ TransGen u.catalog.Extends id id

namespace IsRooted

theorem isShort (o : u.IsRooted) (wf : u.IsWellFormed) (h : u.IsRegistered id) :
    IsShort u.catalog.Extends u.catalog.records.size id := by
  have short : IsShort u.catalog.Extends u.registry.ids.length id := by
    refine isShort_of_acyclic u.registry.ids (fun above path => ?_) fun above path => ?_
    · exact Registry.mem_ids_iff.mpr (o.registered.path h path)
    · exact o.acyclic above (o.registered.path h path)
  exact short.of_le wf.length_ids_le

theorem mem_ancestry_tail (o : u.IsRooted) (wf : u.IsWellFormed) (h : u.IsRegistered id) :
    parent ∈ (u.catalog.ancestry id).tail ↔ TransGen u.catalog.Extends id parent :=
  Catalog.mem_climb_tail (o.isShort wf h)

end IsRooted

/-! ## Orderly links -/

/-- Whether the links between registered classes, as far as they lead to classes that are still
there, make a hierarchy. -/
structure IsOrderly (u : Universe) : Prop where
  registered : u.IsClosedUnder u.catalog.LinksTo
  acyclic : ∀ id, u.IsRegistered id → ¬ TransGen u.catalog.LinksTo id id
  phantom : ∀ id above, u.IsRegistered id → (u.record id).isPhantom = true →
    ¬ u.catalog.LinksTo id above
  superclass : ∀ id parent, u.IsRegistered id → u.catalog.Extends id parent →
    ¬ u.IsInterface parent
  interface : ∀ id interface, u.IsRegistered id → u.catalog.Implements id interface →
    u.IsInterface interface ∨ (u.record interface).isPhantom = true

/-- Links that always lead to descriptors made earlier lead nowhere back. -/
theorem isOrderly_of_earlier
    (superclass : ∀ id ∈ u.registry.ids, ∀ parent ∈ u.catalog.superclass? id,
      parent ∈ u.registry.ids ∧ parent.serial < id.serial ∧ (u.record id).isPhantom = false ∧
        ¬ u.IsInterface parent)
    (interface : ∀ id ∈ u.registry.ids, ∀ interface ∈ u.catalog.interfaces id,
      interface ∈ u.registry.ids ∧ interface.serial < id.serial ∧
        (u.record id).isPhantom = false ∧
        (u.IsInterface interface ∨ (u.record interface).isPhantom = true)) : u.IsOrderly := by
  have linked {id above : ClassId} (h : u.IsRegistered id) (link : u.catalog.LinksTo id above) :
      above ∈ u.registry.ids ∧ above.serial < id.serial ∧ (u.record id).isPhantom = false := by
    have member := Registry.mem_ids_iff.mpr h
    rcases link with link | link
    · obtain ⟨known, earlier, real, -⟩ := superclass id member above link
      exact ⟨known, earlier, real⟩
    · obtain ⟨known, earlier, real, -⟩ := interface id member above link
      exact ⟨known, earlier, real⟩
  constructor
  · intro id above h link
    exact Registry.mem_ids_iff.mp (linked h link).1
  · intro id h
    refine acyclic_of_falls (P := u.IsRegistered) ClassId.serial (fun h link => ?_) h
    obtain ⟨known, earlier, -⟩ := linked h link
    exact ⟨Registry.mem_ids_iff.mp known, earlier⟩
  · intro id above h phantom link
    rw [(linked h link).2.2] at phantom
    cases phantom
  · intro id parent h link
    exact (superclass id (Registry.mem_ids_iff.mpr h) parent link).2.2.2
  · intro id above h link
    exact (interface id (Registry.mem_ids_iff.mpr h) above link).2.2.2

namespace IsOrderly

/-- Links of some sort among all links lead to registered classes. -/
theorem closed (o : u.IsOrderly)
    (links : ∀ {id parent}, R id parent → u.catalog.LinksTo id parent) : u.IsClosedUnder R :=
  fun id parent h step => o.registered id parent h (links step)

theorem acyclic_of (o : u.IsOrderly)
    (links : ∀ {id parent}, R id parent → u.catalog.LinksTo id parent) (h : u.IsRegistered id) :
    ¬ TransGen R id id :=
  fun cycle => o.acyclic id h (TransGen.mono (fun _ _ step => links step) _ _ cycle)

theorem isShort (o : u.IsOrderly)
    (links : ∀ {id parent}, R id parent → u.catalog.LinksTo id parent) (h : u.IsRegistered id) :
    IsShort R u.registry.ids.length id := by
  refine isShort_of_acyclic u.registry.ids (fun above path => ?_) fun above path => ?_
  · exact Registry.mem_ids_iff.mpr ((o.closed links).path h path)
  · exact o.acyclic_of links ((o.closed links).path h path)

/-- A descriptor and its superclasses are those that paths of superclasses lead to. -/
theorem mem_ancestry (o : u.IsOrderly) (wf : u.IsWellFormed) (h : u.IsRegistered id) :
    parent ∈ u.catalog.ancestry id ↔ ReflTransGen u.catalog.Extends id parent :=
  Catalog.mem_climb ((o.isShort Or.inl h).of_le wf.length_ids_le)

theorem isRooted (o : u.IsOrderly) : u.IsRooted where
  registered := o.closed Or.inl
  acyclic _ h := o.acyclic_of Or.inl h

/-- No superclass of a class that is no interface is one. -/
theorem not_isInterface (o : u.IsOrderly) (h : u.IsRegistered id) (class' : ¬ u.IsInterface id)
    (path : ReflTransGen u.catalog.Extends id parent) : ¬ u.IsInterface parent := by
  rcases path.cases_tail with rfl | ⟨last, before, step⟩
  · exact class'
  · exact o.superclass last parent ((o.closed Or.inl).path h before) step

end IsOrderly

end Universe

end ClassUniverse
