import ClassUniverse.Proofs.Hierarchy.Forest
import ClassUniverse.Proofs.Hierarchy.Orderly
import ClassUniverse.Proofs.Search

/-!
# What a subtype index answers

Where links are orderly, the classes that are no interfaces form a forest that the walk of a subtype
index passes through as a whole.  So the index knows of such a class all its superclasses, and of
every class the interfaces that it or a superclass names, directly or through other interfaces.
-/

namespace ClassUniverse

open Relation (ReflTransGen TransGen)

/-- A class and an interface that it or one of its superclasses names, directly or through other
interfaces. -/
def Catalog.Conforms (c : Catalog) (id interface : ClassId) : Prop :=
  ∃ last first, ReflTransGen c.Extends id last ∧ c.Implements last first ∧
    ReflTransGen c.Implements first interface

namespace SubtypeIndex

/-! ## The forest of classes -/

/-- The registered classes that are no interfaces. -/
def classes (u : Universe) : List ClassId :=
  u.registry.ids.filter fun id => !(u.record id).modifiers.isInterface

/-- The pairs of a superclass and a class that is no interface. -/
def parentPairs (u : Universe) : List (String × String) :=
  (classes u).flatMap fun id =>
    (registeredParent? u id).toList.map fun parent => (parent, u.catalog.nameOf id)

def children (u : Universe) : String → List String := Hierarchy.partners (parentPairs u)

/-- The classes without a superclass. -/
def roots (u : Universe) : List String :=
  ((classes u).filter fun id => (registeredParent? u id).isNone).map u.catalog.nameOf

/-- The intervals that the walk over all roots gives, and the number of its steps. -/
def walkAll (u : Universe) : List (String × Interval) × Nat :=
  (roots u).foldl (fun (found, step) root =>
    let (more, step) := walk (children u) u.registry.ids.length root step
    (found ++ more, step)) ([], 0)

theorem build_eq_ok {u : Universe} {x : SubtypeIndex} (built : build u = .ok x) :
    u.checkLinked = .ok () ∧ x = {
      intervals := (walkAll u).1
      closure := .ofList (u.registry.ids.map fun id =>
        (u.catalog.nameOf id, interfacesAbove u id))
      interfaces := (u.registry.ids.filter fun id =>
        (u.record id).modifiers.isInterface).map u.catalog.nameOf } := by
  unfold build at built
  cases checked : u.checkLinked with
  | error e =>
      rw [checked] at built
      cases built
  | ok done =>
      rw [checked] at built
      exact ⟨rfl, (Except.ok.inj built).symm⟩

theorem exists_build {u : Universe} (linked : u.checkLinked = .ok ()) :
    ∃ index, build u = .ok index := by
  unfold build
  rw [linked]
  exact ⟨_, rfl⟩

/-- A step from a class that is no interface to its superclass. -/
def Rises (u : Universe) (id parent : ClassId) : Prop :=
  ¬ u.IsInterface id ∧ u.catalog.Extends id parent

variable {u : Universe} {x : SubtypeIndex} {name other : String} {id id' : ClassId}

theorem mem_classes : id ∈ classes u ↔ u.IsRegistered id ∧ ¬ u.IsInterface id := by
  unfold classes Universe.IsInterface Universe.IsRegistered
  rw [List.mem_filter, Registry.mem_ids_iff, Bool.not_eq_true', Bool.not_eq_true]
  rfl

theorem rises_linksTo {parent : ClassId} (h : Rises u id parent) : u.catalog.LinksTo id parent :=
  .inl h.2

theorem registeredParent?_eq_some_iff (o : u.IsOrderly) (wf : u.IsWellFormed)
    (h : u.IsRegistered id) : registeredParent? u id = some name ↔
      ∃ parent, u.catalog.Extends id parent ∧ u.catalog.nameOf parent = name := by
  unfold registeredParent?
  rw [Option.filter_eq_some_iff, Option.map_eq_some_iff]
  constructor
  · rintro ⟨found, -⟩
    exact found
  · rintro ⟨parent, link, named⟩
    refine ⟨⟨parent, link, named⟩, ?_⟩
    have found := wf.find_nameOf (o.registered id parent h (.inl link))
    rw [Registry.contains_eq_isSome, ← named]
    exact Option.isSome_iff_exists.mpr ⟨parent, found⟩

/-- The classes with a given superclass, in the order in which they came. -/
theorem children_eq (u : Universe) (name : String) : children u name =
    ((classes u).filter fun id => registeredParent? u id = some name).map u.catalog.nameOf := by
  unfold children parentPairs
  induction classes u with
  | nil => rfl
  | cons id rest ih =>
      rw [List.flatMap_cons]
      unfold Hierarchy.partners at ih ⊢
      rw [List.filterMap_append, ih]
      cases hp : registeredParent? u id with
      | none => simp [hp]
      | some parent =>
          by_cases same : parent = name
          · simp [hp, same]
          · simp [hp, same]

/-- One class is a child of another exactly by its superclass link. -/
theorem above_eq (o : u.IsOrderly) (wf : u.IsWellFormed) :
    Above (children u) = u.NamedStep (Rises u) := by
  funext upper lower
  rw [eq_iff_iff]
  unfold Above Universe.NamedStep
  rw [children_eq, List.mem_map]
  simp only [List.mem_filter, decide_eq_true_eq]
  constructor
  · rintro ⟨id, ⟨member, parent⟩, rfl⟩
    obtain ⟨registered, kind⟩ := mem_classes.mp member
    obtain ⟨parent, link, named⟩ := (registeredParent?_eq_some_iff o wf registered).mp parent
    exact ⟨id, parent, wf.find_nameOf registered, ⟨kind, link⟩, named⟩
  · rintro ⟨id, parent, found, ⟨kind, link⟩, named⟩
    have registered : u.IsRegistered id := ⟨lower, found⟩
    refine ⟨id, ⟨mem_classes.mpr ⟨registered, kind⟩, ?_⟩, (wf.stands found).named⟩
    exact (registeredParent?_eq_some_iff o wf registered).mpr ⟨parent, link, named⟩

theorem nodup_names_classes (wf : u.IsWellFormed) (p : ClassId → Bool) :
    (((classes u).filter p).map u.catalog.nameOf).Nodup :=
  wf.nodup_names.sublist ((List.filter_sublist.trans List.filter_sublist).map _)

theorem isForest_children (o : u.IsOrderly) (wf : u.IsWellFormed) : IsForest (children u) where
  nodup name := by
    rw [children_eq]
    exact nodup_names_classes wf _
  single {upper upper' lower} h k := by
    rw [above_eq o wf] at h k
    obtain ⟨id, parent, found, link, named⟩ := h
    obtain ⟨id', parent', found', link', named'⟩ := k
    have same : id = id' := Option.some.inj (found.symm.trans found')
    subst same
    have same : parent = parent' := Option.some.inj (link.2.symm.trans link'.2)
    rw [← named, ← named', same]
  acyclic name cycle := by
    rw [above_eq o wf] at cycle
    obtain ⟨id, registered, cycle⟩ := wf.namedCycle (o.closed (R := Rises u) rises_linksTo) cycle
    exact o.acyclic_of (R := Rises u) rises_linksTo registered cycle

theorem above_iff (o : u.IsOrderly) (wf : u.IsWellFormed) (hn : u.find? name = some id)
    (ho : u.find? other = some id') (kind : ¬ u.IsInterface id) :
    ReflTransGen (Above (children u)) other name ↔ ReflTransGen u.catalog.Extends id id' := by
  rw [above_eq o wf, wf.namedPath_iff (o.closed (R := Rises u) rises_linksTo) hn ho]
  refine ⟨ReflTransGen.mono (fun _ _ step => step.2) _ _, fun path => ?_⟩
  clear ho
  induction path with
  | refl => exact .refl
  | tail before step ih => exact ih.tail ⟨o.not_isInterface ⟨name, hn⟩ kind before, step⟩

theorem isShort_above (o : u.IsOrderly) (wf : u.IsWellFormed) (hn : u.find? name = some id) :
    IsShort (Above (children u)) u.registry.ids.length name := by
  have count : u.registry.ids.length = u.registry.classes.keys.length := by
    rw [← wf.names_ids, List.length_map]
  rw [count]
  refine isShort_of_acyclic _ (fun lower path => ?_)
    fun lower _ => (isForest_children o wf).acyclic lower
  rw [above_eq o wf] at path
  obtain ⟨id', found⟩ := Universe.IsWellFormed.namedPath_registered hn path
  exact (OrderedMap.mem_keys_iff _).mpr ⟨id', found⟩

/-- Every class that is no interface is below a root. -/
theorem below_root (o : u.IsOrderly) (wf : u.IsWellFormed) (hn : u.find? name = some id)
    (kind : ¬ u.IsInterface id) :
    ∃ root ∈ roots u, ReflTransGen (Above (children u)) root name := by
  have short := o.isShort Or.inl (R := u.catalog.Extends) ⟨name, hn⟩
  generalize u.registry.ids.length = steps at short
  induction steps generalizing name id with
  | zero => exact absurd short.pos (Nat.lt_irrefl 0)
  | succ steps ih =>
      have registered : u.IsRegistered id := ⟨name, hn⟩
      have named : u.catalog.nameOf id = name := (wf.stands hn).named
      cases hp : registeredParent? u id with
      | none =>
          refine ⟨name, ?_, .refl⟩
          refine List.mem_map.mpr ⟨id, List.mem_filter.mpr ⟨?_, by simp [hp]⟩, named⟩
          exact mem_classes.mpr ⟨registered, kind⟩
      | some upper =>
          obtain ⟨parent, link, named⟩ := (registeredParent?_eq_some_iff o wf registered).mp hp
          have found := wf.find_nameOf (o.registered id parent registered (.inl link))
          rw [named] at found
          obtain ⟨root, hr, path⟩ :=
            ih found (o.superclass id parent registered link) (short.next link)
          refine ⟨root, hr, path.tail ?_⟩
          rw [above_eq o wf]
          exact ⟨id, parent, hn, ⟨kind, link⟩, named⟩

theorem root_registered {root : String} (wf : u.IsWellFormed) (h : root ∈ roots u) :
    ∃ id, u.find? root = some id ∧ id ∈ classes u ∧ registeredParent? u id = none := by
  obtain ⟨id, hm, rfl⟩ := List.mem_map.mp h
  obtain ⟨member, top⟩ := List.mem_filter.mp hm
  exact ⟨id, wf.find_nameOf (mem_classes.mp member).1, member, by simpa using top⟩

theorem covers_walkAll (o : u.IsOrderly) (wf : u.IsWellFormed) :
    Covers (children u) (roots u) 0 (walkAll u).1 (walkAll u).2 := by
  have forest := isForest_children o wf
  have apart : (roots u).Pairwise (Apart (children u)) := by
    refine forest.apart_roots (nodup_names_classes wf _) fun root hr upper link => ?_
    obtain ⟨id, found, member, top⟩ := root_registered wf hr
    rw [above_eq o wf] at link
    obtain ⟨id', parent, found', ⟨-, link⟩, -⟩ := link
    have same : id' = id := Option.some.inj (found'.symm.trans found)
    subst same
    have some := (registeredParent?_eq_some_iff o wf ⟨root, found⟩).mpr ⟨parent, link, rfl⟩
    rw [top] at some
    cases some
  refine (covers_nil (children u) 0).foldl (walk (children u) u.registry.ids.length)
    (roots u) (fun root hr step => ?_) apart
  obtain ⟨id, found, -⟩ := root_registered wf hr
  exact covers_walk forest (isShort_above o wf found) step

/-! ## Classes -/

theorem intervals_of_build (built : build u = .ok x) : x.intervals = (walkAll u).1 := by
  obtain ⟨-, rfl⟩ := build_eq_ok built
  rfl

/-- Of two classes that are no interfaces an index knows whether one is a superclass of the
other. -/
theorem isSubclassOrSame_iff (o : u.IsOrderly) (wf : u.IsWellFormed) (built : build u = .ok x)
    (hn : u.find? name = some id) (ho : u.find? other = some id') (kind : ¬ u.IsInterface id)
    (kind' : ¬ u.IsInterface id') :
    x.isSubclassOrSame name other = true ↔ ReflTransGen u.catalog.Extends id id' := by
  have covers := covers_walkAll o wf
  rw [← intervals_of_build built] at covers
  rw [covers.isSubclassOrSame_iff (below_root o wf hn kind) (below_root o wf ho kind'),
    above_iff o wf hn ho kind]

theorem not_below_root (o : u.IsOrderly) (wf : u.IsWellFormed) (hn : u.find? name = some id)
    (kind : u.IsInterface id) :
    ¬ ∃ root ∈ roots u, ReflTransGen (Above (children u)) root name := by
  rintro ⟨root, hr, path⟩
  rcases path.cases_tail with rfl | ⟨upper, -, link⟩
  · obtain ⟨id', found, member, -⟩ := root_registered wf hr
    have same : id' = id := Option.some.inj (found.symm.trans hn)
    subst same
    exact (mem_classes.mp member).2 kind
  · rw [above_eq o wf] at link
    obtain ⟨id', parent, found, ⟨kind', -⟩, -⟩ := link
    have same : id' = id := Option.some.inj (found.symm.trans hn)
    subst same
    exact kind' kind

/-- Of an interface an index does not know the superclass. -/
theorem isSubclassOrSame_interface (o : u.IsOrderly) (wf : u.IsWellFormed)
    (built : build u = .ok x) (hn : u.find? name = some id) (kind : u.IsInterface id)
    (other : String) : x.isSubclassOrSame name other = false := by
  have covers := covers_walkAll o wf
  rw [← intervals_of_build built] at covers
  exact covers.isSubclassOrSame_eq_false fun both => not_below_root o wf hn kind both.1

/-- The steps of the walk are twice as many as the classes that are no interfaces at most. -/
theorem leave_lt (o : u.IsOrderly) (wf : u.IsWellFormed) (built : build u = .ok x)
    {interval : Interval} (h : (name, interval) ∈ x.intervals) :
    interval.leave < 2 * u.registry.size := by
  have covers := covers_walkAll o wf
  rw [← intervals_of_build built] at covers
  have known : x.intervals.map Prod.fst ⊆ u.registry.classes.keys := by
    intro lower hm
    obtain ⟨root, hr, path⟩ := covers.mem.mp hm
    obtain ⟨id, found, -⟩ := root_registered wf hr
    rw [above_eq o wf] at path
    obtain ⟨id', found'⟩ := Universe.IsWellFormed.namedPath_registered found path
    exact (OrderedMap.mem_keys_iff _).mpr ⟨id', found'⟩
  have hl := covers.nodup.length_le_of_subset known
  rw [List.length_map] at hl
  have size : u.registry.classes.keys.length = u.registry.size := List.length_map _
  have hw := covers.within _ h
  have hs := covers.steps
  dsimp only at hw
  omega

/-! ## Interfaces -/

theorem mem_start (o : u.IsOrderly) (wf : u.IsWellFormed) (h : u.IsRegistered id)
    {first : ClassId} : first ∈ (u.catalog.ancestry id).flatMap u.catalog.interfaces ↔
      ∃ last, ReflTransGen u.catalog.Extends id last ∧ u.catalog.Implements last first := by
  rw [List.mem_flatMap]
  constructor
  · rintro ⟨last, hm, link⟩
    exact ⟨last, (o.mem_ancestry wf h).mp hm, link⟩
  · rintro ⟨last, path, link⟩
    exact ⟨last, (o.mem_ancestry wf h).mpr path, link⟩

/-- The names kept for a registered class are those of the interfaces that it conforms to. -/
theorem mem_interfacesAbove (o : u.IsOrderly) (wf : u.IsWellFormed) (h : u.IsRegistered id)
    (ho : u.find? other = some id') :
    other ∈ interfacesAbove u id ↔ u.catalog.Conforms id id' := by
  let start := (u.catalog.ancestry id).flatMap u.catalog.interfaces
  have registered : ∀ i, Search.Reaches u.catalog.interfaces start i → u.IsRegistered i := by
    rintro i ⟨first, hf, path⟩
    obtain ⟨last, before, link⟩ := (mem_start o wf h).mp hf
    have hl := (o.closed Or.inl).path h before
    exact (o.closed Or.inr).path (o.registered last first hl (.inr link)) path
  have within : Search.Within u.catalog.nameOf u.catalog.interfaces start
      (u.registry.ids.map u.catalog.nameOf) := by
    intro i hi above link
    have ha := o.registered i above (registered i hi) (.inr link)
    exact List.mem_map_of_mem (Registry.mem_ids_iff.mpr ha)
  have fits : (u.registry.ids.map u.catalog.nameOf).length ≤ u.catalog.records.size := by
    rw [List.length_map]
    exact wf.length_ids_le
  have searched := Search.isExploring_reach within fits
  have found (i : ClassId) := searched.mem_iff (a := i) fun i j hi hj same =>
    wf.eq_of_nameOf (registered i hi) (wf.find_nameOf (registered j hj)) same
  unfold interfacesAbove Catalog.Conforms
  rw [List.mem_map]
  constructor
  · rintro ⟨i, hm, named⟩
    have reached := (found i).mp hm
    have same := wf.eq_of_nameOf (registered i reached) ho named
    subst same
    obtain ⟨first, hf, path⟩ := reached
    obtain ⟨last, before, link⟩ := (mem_start o wf h).mp hf
    exact ⟨last, first, before, link, path⟩
  · rintro ⟨last, first, before, link, path⟩
    refine ⟨id', (found id').mpr ⟨first, ?_, path⟩, (wf.stands ho).named⟩
    exact (mem_start o wf h).mpr ⟨last, before, link⟩

theorem closure_of_build (wf : u.IsWellFormed) (built : build u = .ok x)
    (hn : u.find? name = some id) : x.closure.get? name = some (interfacesAbove u id) := by
  obtain ⟨-, rfl⟩ := build_eq_ok built
  have named : u.catalog.nameOf id = name := (wf.stands hn).named
  have nodup := wf.nodup_names
  refine (OrderedMap.get?_ofList ?_).mpr ?_
  · rwa [List.map_map]
  · exact List.mem_map.mpr ⟨id, Registry.mem_ids_iff.mpr ⟨name, hn⟩, by rw [named]⟩

theorem contains_interfaces (wf : u.IsWellFormed) (built : build u = .ok x)
    (hn : u.find? name = some id) : x.interfaces.contains name = true ↔ u.IsInterface id := by
  obtain ⟨-, rfl⟩ := build_eq_ok built
  rw [List.contains_iff_mem, List.mem_map]
  constructor
  · rintro ⟨i, hm, named⟩
    obtain ⟨member, kind⟩ := List.mem_filter.mp hm
    rwa [wf.eq_of_nameOf (Registry.mem_ids_iff.mp member) hn named] at kind
  · intro kind
    have member : id ∈ u.registry.ids := Registry.mem_ids_iff.mpr ⟨name, hn⟩
    exact ⟨id, List.mem_filter.mpr ⟨member, kind⟩, (wf.stands hn).named⟩

/-- When a subtype index lets a value of one type be kept in a variable of another: the two are the
same, or an interface that the first conforms to, or a superclass of a class that is no
interface. -/
theorem canStore_iff (o : u.IsOrderly) (wf : u.IsWellFormed) (built : build u = .ok x)
    (hn : u.find? name = some id) (ho : u.find? other = some id') :
    x.canStore name other = true ↔
      id = id' ∨ (u.IsInterface id' ∧ u.catalog.Conforms id id') ∨
        (¬ u.IsInterface id ∧ ¬ u.IsInterface id' ∧ ReflTransGen u.catalog.Extends id id') := by
  have same : id = id' ↔ name = other := wf.eq_iff_name_eq hn ho
  unfold canStore
  rw [closure_of_build wf built hn, Option.getD_some]
  by_cases equal : id = id'
  · simp [same.mp equal, equal]
  · rw [if_neg (same.not.mp equal)]
    by_cases kind' : u.IsInterface id'
    · rw [if_pos ((contains_interfaces wf built ho).mpr kind'), List.contains_iff_mem,
        mem_interfacesAbove o wf ⟨name, hn⟩ ho]
      simp [equal, kind']
    · rw [if_neg ((contains_interfaces wf built ho).not.mpr kind')]
      by_cases kind : u.IsInterface id
      · simp [isSubclassOrSame_interface o wf built hn kind, equal, kind, kind']
      · rw [isSubclassOrSame_iff o wf built hn ho kind kind']
        simp [equal, kind, kind']

end SubtypeIndex

end ClassUniverse
