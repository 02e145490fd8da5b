import ClassUniverse.Proofs.Hierarchy.Subtypes
import ClassUniverse.Proofs.Resolution.Requests

/-!
# A hierarchy and a subtype index agree

A hierarchy answers from the pairs of classes that it has recorded and from the links, a subtype
index from intervals and from the interfaces that it has gathered.  Where links are orderly both
answers come down to the same paths of links.
-/

namespace ClassUniverse

open Relation (ReflTransGen TransGen)

namespace Hierarchy

variable {u : Universe} {tree : Hierarchy} {name other : String} {id id' : ClassId}

/-! ## What a hierarchy records -/

theorem build_eq_ok (built : build u = .ok tree) : u.checkLinked = .ok () ∧ tree = {
    classes := .ofList (u.registry.ids.map fun id => ((u.record id).name, id))
    subclasses := u.registry.ids.flatMap fun id =>
      (u.catalog.superclass? id).toList.map fun parent =>
        (u.catalog.nameOf parent, (u.record id).name)
    implementors := u.registry.ids.flatMap fun id =>
      (u.catalog.interfaces id).map fun i => (u.catalog.nameOf i, (u.record id).name) } := by
  unfold build at built
  cases checked : u.checkLinked with
  | error e =>
      rw [checked] at built
      cases built
  | ok done =>
      rw [checked] at built
      exact ⟨rfl, (Except.ok.inj built).symm⟩

theorem exists_build (linked : u.checkLinked = .ok ()) : ∃ tree, build u = .ok tree := by
  unfold build
  rw [linked]
  exact ⟨_, rfl⟩

theorem get?_classes (wf : u.IsWellFormed) (built : build u = .ok tree) (name : String) :
    tree.classes.get? name = u.find? name := by
  obtain ⟨-, rfl⟩ := build_eq_ok built
  have nodup : ((u.registry.ids.map fun id => (u.catalog.nameOf id, id)).map Prod.fst).Nodup := by
    have hn := wf.nodup_names
    rwa [List.map_map]
  apply Option.ext
  intro id
  refine (OrderedMap.get?_ofList nodup).trans ?_
  rw [List.mem_map]
  constructor
  · rintro ⟨first, hm, same⟩
    obtain ⟨rfl, rfl⟩ := Prod.mk.inj same
    exact wf.find_nameOf (Registry.mem_ids_iff.mp hm)
  · intro found
    refine ⟨id, Registry.mem_ids_iff.mpr ⟨name, found⟩, ?_⟩
    rw [show u.catalog.nameOf id = name from (wf.stands found).named]

theorem isInterface_iff (wf : u.IsWellFormed) (built : build u = .ok tree)
    (hn : u.find? name = some id) :
    tree.isInterface u.catalog name = true ↔ u.IsInterface id := by
  unfold isInterface
  rw [get?_classes wf built, hn]
  rfl

theorem mem_partners {pairs : List (String × String)} :
    other ∈ partners pairs name ↔ (name, other) ∈ pairs := by
  unfold partners
  rw [List.mem_filterMap]
  constructor
  · rintro ⟨⟨first, second⟩, hm, selected⟩
    dsimp only at selected
    split at selected
    · rename_i same
      rw [← same, ← Option.some.inj selected]
      exact hm
    · cases selected
  · intro hm
    exact ⟨(name, other), hm, if_pos rfl⟩

/-- The pairs of names that a list of links of every registered class makes. -/
theorem mem_pairs (wf : u.IsWellFormed) (links : ClassId → List ClassId) :
    (name, other) ∈ (u.registry.ids.flatMap fun id =>
        (links id).map fun parent => (u.catalog.nameOf parent, u.catalog.nameOf id)) ↔
      u.NamedStep (fun id parent => parent ∈ links id) name other := by
  rw [List.mem_flatMap]
  constructor
  · rintro ⟨id, hm, pair⟩
    obtain ⟨parent, link, same⟩ := List.mem_map.mp pair
    obtain ⟨named, rfl⟩ := Prod.mk.inj same
    exact ⟨id, parent, wf.find_nameOf (Registry.mem_ids_iff.mp hm), link, named⟩
  · rintro ⟨id, parent, found, link, named⟩
    have below : u.catalog.nameOf id = other := (wf.stands found).named
    refine ⟨id, Registry.mem_ids_iff.mpr ⟨other, found⟩, ?_⟩
    exact List.mem_map.mpr ⟨parent, link, by rw [named, below]⟩

theorem mem_subclasses (wf : u.IsWellFormed) (built : build u = .ok tree) :
    (name, other) ∈ tree.subclasses ↔ u.NamedStep u.catalog.Extends name other := by
  obtain ⟨-, rfl⟩ := build_eq_ok built
  refine (mem_pairs wf fun id => (u.catalog.superclass? id).toList).trans ?_
  simp only [Option.mem_toList]
  rfl

theorem mem_implementors (wf : u.IsWellFormed) (built : build u = .ok tree) :
    (name, other) ∈ tree.implementors ↔ u.NamedStep u.catalog.Implements name other := by
  obtain ⟨-, rfl⟩ := build_eq_ok built
  exact mem_pairs wf u.catalog.interfaces

theorem mem_lookup (wf : u.IsWellFormed) (built : build u = .ok tree) {names : List String} :
    id ∈ tree.lookup names ↔ ∃ name ∈ names, u.find? name = some id := by
  unfold lookup
  rw [List.mem_filterMap]
  simp only [get?_classes wf built]

/-! ## Upward questions -/

theorem isSubclassOrSame_iff (o : u.IsRooted) (wf : u.IsWellFormed) (built : build u = .ok tree)
    (hn : u.find? name = some id) (ho : u.find? other = some id') :
    tree.isSubclassOrSame u.catalog name other = true ↔ ReflTransGen u.catalog.Extends id id' := by
  have registered : u.IsRegistered id := ⟨name, hn⟩
  unfold isSubclassOrSame isSubclass above
  rw [get?_classes wf built, hn, Bool.or_eq_true, beq_iff_eq, List.any_eq_true,
    Relation.reflTransGen_iff_eq_or_transGen, wf.eq_iff_name_eq ho hn, eq_comm]
  refine or_congr_right ⟨?_, fun path => ?_⟩
  · rintro ⟨parent, hm, named⟩
    have path := (o.mem_ancestry_tail wf registered).mp hm
    have hp := o.registered.path registered path.to_reflTransGen
    rwa [wf.eq_of_nameOf hp ho (beq_iff_eq.mp named)] at path
  · refine ⟨id', (o.mem_ancestry_tail wf registered).mpr path, ?_⟩
    rw [beq_iff_eq]
    exact (wf.stands ho).named

/-! ## Downward questions -/

theorem mem_namesBelow (wf : u.IsWellFormed) (built : build u = .ok tree) :
    other ∈ tree.namesBelow name ↔ ReflTransGen (u.NamedStep u.catalog.Extends) name other := by
  have step (above below : String) : below ∈ partners tree.subclasses above ↔
      u.NamedStep u.catalog.Extends above below := mem_partners.trans (mem_subclasses wf built)
  unfold namesBelow
  rw [Search.mem_reach_names (tree.subclasses.map Prod.snd)]
  · simp only [Search.Reaches, List.mem_singleton, exists_eq_left, step]
  · intro above below hb
    exact List.mem_map.mpr ⟨_, mem_partners.mp hb, rfl⟩
  · rw [List.length_map]

/-- A step from an interface to one that it names. -/
def Refines (u : Universe) (id interface : ClassId) : Prop :=
  u.IsInterface id ∧ u.catalog.Implements id interface

theorem mem_interfacesBelow (wf : u.IsWellFormed) (built : build u = .ok tree) :
    other ∈ tree.interfacesBelow u.catalog name ↔
      ReflTransGen (u.NamedStep (Refines u)) name other := by
  have step (above below : String) :
      below ∈ (partners tree.implementors above).filter (tree.isInterface u.catalog) ↔
        u.NamedStep (Refines u) above below := by
    rw [List.mem_filter, mem_partners, mem_implementors wf built]
    constructor
    · rintro ⟨⟨id, parent, found, link, named⟩, kind⟩
      exact ⟨id, parent, found, ⟨(isInterface_iff wf built found).mp kind, link⟩, named⟩
    · rintro ⟨id, parent, found, ⟨kind, link⟩, named⟩
      exact ⟨⟨id, parent, found, link, named⟩, (isInterface_iff wf built found).mpr kind⟩
  unfold interfacesBelow
  rw [Search.mem_reach_names (tree.implementors.map Prod.snd)]
  · simp only [Search.Reaches, List.mem_singleton, exists_eq_left, step]
  · intro above below hb
    exact List.mem_map.mpr ⟨_, mem_partners.mp (List.mem_of_mem_filter hb), rfl⟩
  · rw [List.length_map]

theorem mem_directImplementers (wf : u.IsWellFormed) (built : build u = .ok tree) :
    other ∈ tree.directImplementers u.catalog name ↔
      ∃ id first middle, u.find? other = some id ∧ ¬ u.IsInterface id ∧
        u.catalog.Implements id first ∧ u.catalog.nameOf first = middle ∧
        ReflTransGen (u.NamedStep (Refines u)) name middle := by
  unfold directImplementers
  rw [mem_firstOccurrences, List.mem_filter, List.mem_flatMap]
  constructor
  · rintro ⟨⟨middle, hm, pair⟩, kind⟩
    obtain ⟨id, first, found, link, named⟩ := (mem_implementors wf built).mp (mem_partners.mp pair)
    have class' : ¬ u.IsInterface id := by
      rw [← isInterface_iff wf built found]
      simp_all
    exact ⟨id, first, middle, found, class', link, named, (mem_interfacesBelow wf built).mp hm⟩
  · rintro ⟨id, first, middle, found, kind, link, named, path⟩
    refine ⟨⟨middle, (mem_interfacesBelow wf built).mpr path, ?_⟩, ?_⟩
    · exact mem_partners.mpr ((mem_implementors wf built).mpr ⟨id, first, found, link, named⟩)
    · rw [← isInterface_iff wf built found] at kind
      have known : tree.classes.contains other = true := by
        rw [OrderedMap.contains_iff, OrderedMap.mem_keys_iff, get?_classes wf built, found]
        exact ⟨id, rfl⟩
      simp [known, kind]

/-- Whatever is named as an interface names only what it conforms to as an interface. -/
theorem refines_of_implements (o : u.IsOrderly) (h : u.IsRegistered id)
    (kind : u.IsInterface id ∨ (u.record id).isPhantom = true)
    (path : ReflTransGen u.catalog.Implements id id') : ReflTransGen (Refines u) id id' := by
  induction path using ReflTransGen.head_induction_on with
  | refl => exact .refl
  | @head first interface link _ ih =>
      have above := ih (o.registered first interface h (.inr link))
        (o.interface first interface h link)
      rcases kind with kind | phantom
      · exact .head ⟨kind, link⟩ above
      · exact absurd (.inr link) (o.phantom first interface h phantom)

/-- The classes that implement an interface, by the names of the classes that name one below it. -/
theorem mem_implementers_names (wf : u.IsWellFormed) (built : build u = .ok tree)
    (hn : u.find? name = some id) : id ∈ tree.implementers u.catalog other ↔
      ∃ direct ∈ tree.directImplementers u.catalog other,
        ReflTransGen (u.NamedStep u.catalog.Extends) direct name := by
  unfold implementers below
  rw [mem_lookup wf built]
  simp only [mem_firstOccurrences, List.mem_flatMap, List.mem_map, mem_lookup wf built,
    mem_namesBelow wf built]
  constructor
  · rintro ⟨lower, ⟨direct, hd, id', ⟨own, path, found⟩, named⟩, hl⟩
    have hi : u.find? lower = some id' := by
      rw [← named]
      exact wf.find_nameOf ⟨own, found⟩
    have same : id' = id := Option.some.inj (hi.symm.trans hl)
    subst same
    rw [wf.name_eq found hn] at path
    exact ⟨direct, hd, path⟩
  · rintro ⟨direct, hd, path⟩
    exact ⟨name, ⟨direct, hd, id, ⟨name, path, hn⟩, (wf.stands hn).named⟩, hn⟩

/-- The implementers of an interface are the classes that conform to it. -/
theorem mem_implementers (o : u.IsOrderly) (wf : u.IsWellFormed) (built : build u = .ok tree)
    (hn : u.find? name = some id) (ho : u.find? other = some id') (kind : ¬ u.IsInterface id) :
    id ∈ tree.implementers u.catalog other ↔ u.catalog.Conforms id id' := by
  have refining : u.IsClosedUnder (Refines u) := o.closed (R := Refines u) fun step => .inr step.2
  have extending : u.IsClosedUnder u.catalog.Extends := o.closed Or.inl
  rw [mem_implementers_names wf built hn]
  constructor
  · rintro ⟨direct, hd, path⟩
    obtain ⟨last, first, middle, found, -, link, named, path'⟩ :=
      (mem_directImplementers wf built).mp hd
    have hf := wf.find_nameOf (o.registered last first ⟨direct, found⟩ (.inr link))
    rw [named] at hf
    have refined := (wf.namedPath_iff refining hf ho).mp path'
    refine ⟨last, first, (wf.namedPath_iff extending hn found).mp path, link, ?_⟩
    exact ReflTransGen.mono (fun _ _ step => step.2) _ _ refined
  · rintro ⟨last, first, path, link, path'⟩
    have registered := extending.path ⟨name, hn⟩ path
    have found := wf.find_nameOf registered
    have hf := o.registered last first registered (.inr link)
    have refined := refines_of_implements o hf (o.interface last first registered link) path'
    refine ⟨_, (mem_directImplementers wf built).mpr ?_,
      (wf.namedPath_iff extending hn found).mpr path⟩
    exact ⟨last, first, _, found, o.not_isInterface ⟨name, hn⟩ kind path, link, rfl,
      (wf.namedPath_iff refining (wf.find_nameOf hf) ho).mpr refined⟩

end Hierarchy

/-! ## Agreement -/

/-- A hierarchy and a subtype index of the same universe agree: on the subclasses among the classes
that are no interfaces, and on the classes that implement an interface.  The steps of the walk fit
in 32 bits as long as the classes are fewer than half as many. -/
theorem index_agrees_with_tree {recycles allowPhantoms : Bool} {calls : List Call} {u : Universe}
    (reached : run calls (.empty recycles allowPhantoms) = u) {tree : Hierarchy}
    {index : SubtypeIndex} (built : Hierarchy.build u = .ok tree)
    (indexed : SubtypeIndex.build u = .ok index) (o : u.IsOrderly)
    (few : u.registry.size < 2 ^ 31) :
    (∀ entry ∈ index.intervals, entry.2.leave < 2 ^ 32) ∧
    ∀ name other id id', u.find? name = some id → u.find? other = some id' →
      ¬ u.IsInterface id →
      (¬ u.IsInterface id' → index.isSubclassOrSame name other =
        tree.isSubclassOrSame u.catalog name other) ∧
      (u.IsInterface id' → (index.canStore name other = true ↔
        id ∈ tree.implementers u.catalog other)) := by
  subst reached
  have wf := isWellFormed_run (Universe.isWellFormed_empty recycles allowPhantoms) calls
  refine ⟨?_, fun name other id id' hn ho kind => ⟨fun kind' => ?_, fun kind' => ?_⟩⟩
  · rintro ⟨name, interval⟩ he
    have hl := SubtypeIndex.leave_lt o wf indexed he
    dsimp only
    omega
  · rw [Bool.eq_iff_iff, SubtypeIndex.isSubclassOrSame_iff o wf indexed hn ho kind kind',
      Hierarchy.isSubclassOrSame_iff o.isRooted wf built hn ho]
  · have differ : id ≠ id' := by
      rintro rfl
      exact kind kind'
    rw [SubtypeIndex.canStore_iff o wf indexed hn ho,
      Hierarchy.mem_implementers o wf built hn ho kind]
    simp [differ, kind']

/-- A class under a base class that names an interface; that interface names one without
definition. -/
def shapeSource : MemorySource :=
  ((MemorySource.empty.add
      { name := "a.Shape", modifiers := ⟨1537⟩, interfaces := ["a.Drawable"] }).add
    { name := "a.Base", interfaces := ["a.Shape"] }).add
    { name := "a.Circle", superclass := some "a.Base" }

def shapes : Universe :=
  run (requests shapeSource.supply [.resolve .regular "a.Circle" .hierarchy]) (.empty false true)

theorem index_agrees_with_tree_shapes :
    ∃ tree index, Hierarchy.build shapes = .ok tree ∧ SubtypeIndex.build shapes = .ok index ∧
      shapes.IsOrderly ∧
      (index.canStore "a.Circle" "a.Shape" = true ↔
        ⟨3⟩ ∈ tree.implementers shapes.catalog "a.Shape") := by
  have linked : shapes.checkLinked = .ok () := by decide +kernel
  obtain ⟨tree, built⟩ := Hierarchy.exists_build linked
  obtain ⟨index, indexed⟩ := SubtypeIndex.exists_build linked
  have o : shapes.IsOrderly :=
    Universe.isOrderly_of_earlier (by decide +kernel) (by decide +kernel)
  have agree := (index_agrees_with_tree (u := shapes) rfl built indexed o (by decide +kernel)).2
    "a.Circle" "a.Shape" ⟨3⟩ ⟨1⟩ (by decide +kernel) (by decide +kernel) (by decide +kernel)
  exact ⟨tree, index, built, indexed, o, agree.2 (by decide +kernel)⟩

end ClassUniverse
