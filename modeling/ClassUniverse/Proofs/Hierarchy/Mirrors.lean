import ClassUniverse.Proofs.Hierarchy.Agreement
import ClassUniverse.Proofs.Resolution.Links

/-!
# Universes with the same hierarchy

Two universes mirror each other when the same classes are registered and have the same links, and
the links lead to registered classes alone.  What is built from the one answers as what is built
from the other.
-/

namespace ClassUniverse

open Relation (ReflTransGen)

namespace Universe

variable {u v : Universe} {name : String} {id target : ClassId}

theorem checkLinked_eq_ok_iff :
    u.checkLinked = .ok () ↔ ∀ id ∈ u.registry.ids, u.isLoaded id .hierarchy = true := by
  unfold checkLinked
  constructor
  · intro checked id hm
    cases found : u.registry.ids.find? fun id =>
        !(u.record id).isPhantom && (u.record id).level < .hierarchy with
    | some first =>
        simp only [found] at checked
        cases checked
    | none =>
        have linked := List.find?_eq_none.mp found id hm
        rw [isLoaded_iff]
        by_contra h
        rw [not_or, Bool.not_eq_true] at h
        apply linked
        rw [h.1, Bool.not_false, Bool.true_and, decide_eq_true_iff]
        exact Nat.lt_of_not_le h.2
  · intro linked
    have none : u.registry.ids.find? (fun id =>
        !(u.record id).isPhantom && (u.record id).level < .hierarchy) = none := by
      rw [List.find?_eq_none]
      intro id hm low
      rw [Bool.and_eq_true, Bool.not_eq_true', decide_eq_true_iff] at low
      cases isLoaded_iff.mp (linked id hm) with
      | inl phantom => exact Bool.false_ne_true (low.1.symm.trans phantom)
      | inr high => exact Nat.not_lt.mpr high low.2
    simp only [none]

theorem linksTo_iff : u.catalog.LinksTo id target ↔
    u.Names id target ∧ u.catalog.isLive target = true := by
  unfold Catalog.LinksTo Catalog.Extends Catalog.Implements Names ClassRecord.targets
    Catalog.superclass? Catalog.interfaces
  rw [List.mem_append, Option.mem_toList, Option.filter_eq_some_iff, List.mem_filter, or_and_right]
  rfl

/-- Whether one universe has the registered classes and the links of another one, which lead to
registered classes. -/
structure Mirrors (u v : Universe) : Prop where
  classes : v.registry.classes = u.registry.classes
  checked : v.checkLinked = u.checkLinked
  name : ∀ {id}, u.IsRegistered id → v.catalog.nameOf id = u.catalog.nameOf id
  kind : ∀ {id}, u.IsRegistered id → (v.record id).modifiers = (u.record id).modifiers
  superclass : ∀ {id}, u.IsRegistered id → v.catalog.superclass? id = u.catalog.superclass? id
  interfaces : ∀ {id}, u.IsRegistered id → v.catalog.interfaces id = u.catalog.interfaces id
  closed : u.IsClosedUnder u.catalog.LinksTo

/-- A universe mirrors one that comes from it without a change that counts, when links lead to
registered classes. -/
theorem Still.mirrors (still : u.Still v) (wf : u.IsWellFormed) (wf' : v.IsWellFormed)
    (dead : ∀ {id}, u.catalog.isLive id = false → v.catalog.isLive id = false)
    (checked : u.checkLinked = .ok ()) (closed : u.IsClosedUnder u.catalog.LinksTo) :
    u.Mirrors v := by
  have find (name : String) : v.find? name = u.find? name := by
    unfold find? Registry.get?
    rw [still.classes]
  have made {id : ClassId} (h : u.IsRegistered id) : u.catalog.IsMade id := by
    obtain ⟨name, found⟩ := h
    exact (wf.stands found).made
  have loaded {id : ClassId} (h : u.IsRegistered id) : u.isLoaded id .hierarchy = true :=
    checkLinked_eq_ok_iff.mp checked id (Registry.mem_ids_iff.mpr h)
  have links {id : ClassId} (h : u.IsRegistered id) : (v.record id).LinksLike (u.record id) :=
    still.links (made h) (loaded h)
  have alive {target : ClassId} (h : u.IsRegistered target) :
      v.catalog.isLive target = true := by
    obtain ⟨name, found⟩ := h
    exact (wf'.stands ((find name).trans found)).live
  -- a link is there in both or in neither
  have same {id target : ClassId} (h : u.IsRegistered id) (named : u.Names id target) :
      v.catalog.isLive target = u.catalog.isLive target := by
    cases live : u.catalog.isLive target with
    | false => exact dead live
    | true => exact alive (closed id target h (linksTo_iff.mpr ⟨named, live⟩))
  constructor
  · exact still.classes
  · rw [checked, checkLinked_eq_ok_iff]
    intro id hm
    have registered : u.IsRegistered id := by
      obtain ⟨name, found⟩ := Registry.mem_ids_iff.mp hm
      exact ⟨name, (find name).symm.trans found⟩
    exact still.loaded (made registered) (loaded registered)
  · intro id h
    exact (links h).name
  · intro id h
    exact (links h).modifiers
  · intro id h
    show (v.record id).superclass.filter _ = (u.record id).superclass.filter _
    rw [(links h).superclass]
    cases above : (u.record id).superclass with
    | none => rfl
    | some target =>
        have named : u.Names id target := by simp [Names, ClassRecord.targets, above]
        simp only [Option.filter, same h named]
  · intro id h
    show (v.record id).interfaces.filter _ = (u.record id).interfaces.filter _
    rw [(links h).interfaces]
    apply List.filter_congr
    intro target ht
    apply same h
    simp [Names, ClassRecord.targets, ht]
  · exact closed

namespace Mirrors

theorem find? (h : u.Mirrors v) (name : String) : v.find? name = u.find? name := by
  unfold Universe.find? Registry.get?
  rw [h.classes]

theorem ids (h : u.Mirrors v) : v.registry.ids = u.registry.ids := by
  unfold Registry.ids
  rw [h.classes]

theorem linksTo_iff (h : u.Mirrors v) (registered : u.IsRegistered id) :
    v.catalog.LinksTo id target ↔ u.catalog.LinksTo id target := by
  unfold Catalog.LinksTo Catalog.Extends Catalog.Implements
  rw [h.superclass registered, h.interfaces registered]

theorem isRegistered_iff (h : u.Mirrors v) : v.IsRegistered id ↔ u.IsRegistered id := by
  unfold IsRegistered
  simp only [h.find?]

theorem symm (h : u.Mirrors v) : v.Mirrors u where
  classes := h.classes.symm
  checked := h.checked.symm
  name registered := (h.name (h.isRegistered_iff.mp registered)).symm
  kind registered := (h.kind (h.isRegistered_iff.mp registered)).symm
  superclass registered := (h.superclass (h.isRegistered_iff.mp registered)).symm
  interfaces registered := (h.interfaces (h.isRegistered_iff.mp registered)).symm
  closed id target registered link := by
    have registered := h.isRegistered_iff.mp registered
    exact h.isRegistered_iff.mpr (h.closed id target registered ((h.linksTo_iff registered).mp link))

end Mirrors

end Universe

namespace Hierarchy

/-- The same hierarchy is built from universes that mirror each other. -/
theorem build_mirrors {u v : Universe} (h : u.Mirrors v) : build v = build u := by
  have ids : v.registry.ids = u.registry.ids := h.ids
  have classes : (u.registry.ids.map fun id => ((v.record id).name, id)) =
      u.registry.ids.map fun id => ((u.record id).name, id) := by
    apply List.map_congr_left
    intro id hm
    rw [show (v.record id).name = (u.record id).name from h.name (Registry.mem_ids_iff.mp hm)]
  have subclasses : (u.registry.ids.flatMap fun id =>
      (v.catalog.superclass? id).toList.map fun parent =>
        (v.catalog.nameOf parent, (v.record id).name)) =
      u.registry.ids.flatMap fun id => (u.catalog.superclass? id).toList.map fun parent =>
        (u.catalog.nameOf parent, (u.record id).name) := by
    apply List.flatMap_congr
    intro id hm
    have registered : u.IsRegistered id := Registry.mem_ids_iff.mp hm
    rw [h.superclass registered, show (v.record id).name = (u.record id).name from h.name registered]
    apply List.map_congr_left
    intro parent link
    rw [h.name (h.closed id parent registered (.inl (Option.mem_toList.mp link)))]
  have implementors : (u.registry.ids.flatMap fun id =>
      (v.catalog.interfaces id).map fun i => (v.catalog.nameOf i, (v.record id).name)) =
      u.registry.ids.flatMap fun id =>
        (u.catalog.interfaces id).map fun i => (u.catalog.nameOf i, (u.record id).name) := by
    apply List.flatMap_congr
    intro id hm
    have registered : u.IsRegistered id := Registry.mem_ids_iff.mp hm
    rw [h.interfaces registered, show (v.record id).name = (u.record id).name from h.name registered]
    apply List.map_congr_left
    intro i link
    rw [h.name (h.closed id i registered (.inr link))]
  unfold build
  rw [h.checked, ids]
  dsimp only
  rw [classes, subclasses, implementors]

end Hierarchy

namespace SubtypeIndex

variable {u v : Universe} {x y : SubtypeIndex} {name other : String} {id : ClassId}

theorem registeredParent?_mirrors (h : u.Mirrors v) (registered : u.IsRegistered id) :
    registeredParent? v id = registeredParent? u id := by
  have contains : v.registry.contains = u.registry.contains := by
    funext name
    unfold Registry.contains
    rw [h.classes]
  unfold registeredParent?
  rw [h.superclass registered, contains]
  cases link : u.catalog.superclass? id with
  | none => rfl
  | some parent =>
      have same := h.name (h.closed id parent registered (.inl link))
      simp only [Option.map_some, same]

theorem classes_mirrors (h : u.Mirrors v) : classes v = classes u := by
  unfold classes
  rw [h.ids]
  apply List.filter_congr
  intro id hm
  rw [h.kind (Registry.mem_ids_iff.mp hm)]

theorem walkAll_mirrors (h : u.Mirrors v) : walkAll v = walkAll u := by
  have registered {id : ClassId} (hm : id ∈ classes u) : u.IsRegistered id := (mem_classes.mp hm).1
  have pairs : parentPairs v = parentPairs u := by
    unfold parentPairs
    rw [classes_mirrors h]
    apply List.flatMap_congr
    intro id hm
    rw [registeredParent?_mirrors h (registered hm), h.name (registered hm)]
  have tops : roots v = roots u := by
    unfold roots
    rw [classes_mirrors h]
    have same : ((classes u).filter fun id => (registeredParent? v id).isNone) =
        (classes u).filter fun id => (registeredParent? u id).isNone := by
      apply List.filter_congr
      intro id hm
      rw [registeredParent?_mirrors h (registered hm)]
    rw [same]
    apply List.map_congr_left
    intro id hm
    exact h.name (registered (List.mem_of_mem_filter hm))
  unfold walkAll children
  rw [pairs, tops, h.ids]

/-- The names kept for a registered class are those of the interfaces that it conforms to, where
links lead to registered classes. -/
theorem mem_interfacesAbove_of_closed (wf : u.IsWellFormed)
    (closed : u.IsClosedUnder u.catalog.LinksTo) (h : u.IsRegistered id) :
    name ∈ interfacesAbove u id ↔
      ∃ i, u.catalog.Conforms id i ∧ u.catalog.nameOf i = name := by
  have upward : u.IsClosedUnder u.catalog.Extends := fun id above hid link =>
    closed id above hid (.inl link)
  have sideward : u.IsClosedUnder u.catalog.Implements := fun id above hid link =>
    closed id above hid (.inr link)
  have ancestry (other : ClassId) : other ∈ u.catalog.ancestry id ↔
      ReflTransGen u.catalog.Extends id other :=
    Catalog.mem_climb_of_pool (fun b path => Registry.mem_ids_iff.mpr (upward.path h path))
      wf.length_ids_le
  let start := (u.catalog.ancestry id).flatMap u.catalog.interfaces
  have begins (first : ClassId) : first ∈ start ↔
      ∃ last, ReflTransGen u.catalog.Extends id last ∧ u.catalog.Implements last first := by
    simp only [start, List.mem_flatMap, ancestry]
    rfl
  have registered : ∀ i, Search.Reaches u.catalog.interfaces start i → u.IsRegistered i := by
    intro i hi
    obtain ⟨first, hf, path⟩ := hi
    obtain ⟨last, before, link⟩ := (begins first).mp hf
    exact sideward.path (sideward last first (upward.path h before) link) path
  have within : Search.Within u.catalog.nameOf u.catalog.interfaces start
      (u.registry.ids.map u.catalog.nameOf) := by
    intro i hi above link
    have ha := sideward i above (registered i hi) link
    exact List.mem_map_of_mem (Registry.mem_ids_iff.mpr ha)
  have fits : (u.registry.ids.map u.catalog.nameOf).length ≤ u.catalog.records.size := by
    rw [List.length_map]
    exact wf.length_ids_le
  have searched := Search.isExploring_reach within fits
  have found (i : ClassId) := searched.mem_iff (a := i) fun i j hi hj same =>
    wf.eq_of_nameOf (registered i hi) (wf.find_nameOf (registered j hj)) same
  unfold interfacesAbove Catalog.Conforms
  rw [List.mem_map]
  constructor
  · intro h
    obtain ⟨i, hm, named⟩ := h
    obtain ⟨first, hf, path⟩ := (found i).mp hm
    obtain ⟨last, before, link⟩ := (begins first).mp hf
    exact ⟨i, ⟨last, first, before, link, path⟩, named⟩
  · intro h
    obtain ⟨i, ⟨last, first, before, link, path⟩, named⟩ := h
    exact ⟨i, (found i).mpr ⟨first, (begins first).mpr ⟨last, before, link⟩, path⟩, named⟩

/-- A path of steps from registered classes to registered ones goes along with other such steps. -/
theorem path_of_steps {R S : ClassId → ClassId → Prop}
    (step : ∀ {a b}, u.IsRegistered a → R a b → S a b ∧ u.IsRegistered b)
    (registered : u.IsRegistered id) {i : ClassId} (path : ReflTransGen R id i) :
    ReflTransGen S id i ∧ u.IsRegistered i := by
  induction path with
  | refl => exact ⟨.refl, registered⟩
  | tail _ last ih =>
      obtain ⟨step', known⟩ := step ih.2 last
      exact ⟨ih.1.tail step', known⟩

theorem conforms_mirrors (h : u.Mirrors v) (registered : u.IsRegistered id) {i : ClassId}
    (conforms : v.catalog.Conforms id i) : u.catalog.Conforms id i ∧ u.IsRegistered i := by
  have upward {a b : ClassId} (ha : u.IsRegistered a) (link : v.catalog.Extends a b) :
      u.catalog.Extends a b ∧ u.IsRegistered b := by
    have link' : u.catalog.Extends a b := (h.superclass ha).symm.trans link
    exact ⟨link', h.closed a b ha (.inl link')⟩
  have sideward {a b : ClassId} (ha : u.IsRegistered a) (link : v.catalog.Implements a b) :
      u.catalog.Implements a b ∧ u.IsRegistered b := by
    have link' : u.catalog.Implements a b := by
      show b ∈ u.catalog.interfaces a
      rw [← h.interfaces ha]
      exact link
    exact ⟨link', h.closed a b ha (.inr link')⟩
  obtain ⟨last, first, before, link, after⟩ := conforms
  obtain ⟨before', known⟩ := path_of_steps upward registered before
  obtain ⟨link', known'⟩ := sideward known link
  obtain ⟨after', there⟩ := path_of_steps sideward known' after
  exact ⟨⟨last, first, before', link', after'⟩, there⟩

theorem mem_interfacesAbove_mirrors (h : u.Mirrors v) (wf : u.IsWellFormed) (wf' : v.IsWellFormed)
    (registered : u.IsRegistered id) (named : name ∈ interfacesAbove v id) :
    name ∈ interfacesAbove u id := by
  obtain ⟨i, conforms, hn⟩ :=
    (mem_interfacesAbove_of_closed wf' h.symm.closed (h.isRegistered_iff.mpr registered)).mp named
  obtain ⟨conforms', known⟩ := conforms_mirrors h registered conforms
  rw [h.name known] at hn
  exact (mem_interfacesAbove_of_closed wf h.closed registered).mpr ⟨i, conforms', hn⟩

/-- What is kept of the interfaces above a class. -/
theorem mem_closure_of_build (wf : u.IsWellFormed) (built : build u = .ok x) :
    other ∈ (x.closure.get? name).getD [] ↔
      ∃ id, u.find? name = some id ∧ other ∈ interfacesAbove u id := by
  constructor
  · intro hm
    cases kept : x.closure.get? name with
    | none => simp [kept] at hm
    | some names =>
        rw [kept, Option.getD_some] at hm
        have kept' := kept
        obtain ⟨-, rfl⟩ := build_eq_ok built
        have nodup : ((u.registry.ids.map fun id =>
            (u.catalog.nameOf id, interfacesAbove u id)).map Prod.fst).Nodup := by
          rw [List.map_map]
          exact wf.nodup_names
        obtain ⟨id, member, pair⟩ := List.mem_map.mp ((OrderedMap.get?_ofList nodup).mp kept')
        obtain ⟨rfl, rfl⟩ := Prod.mk.inj pair
        exact ⟨id, wf.find_nameOf (Registry.mem_ids_iff.mp member), hm⟩
  · intro h
    obtain ⟨id, found, hm⟩ := h
    rw [closure_of_build wf built found]
    exact hm

/-- Whether two subtype indexes give the same answers. -/
structure Agrees (x y : SubtypeIndex) : Prop where
  isSubclassOrSame : ∀ child parent,
    x.isSubclassOrSame child parent = y.isSubclassOrSame child parent
  canStore : ∀ child parent, x.canStore child parent = y.canStore child parent

theorem Agrees.refl (x : SubtypeIndex) : x.Agrees x := ⟨fun _ _ => rfl, fun _ _ => rfl⟩

theorem Agrees.trans {z : SubtypeIndex} (h : x.Agrees y) (k : y.Agrees z) : x.Agrees z where
  isSubclassOrSame child parent :=
    (h.isSubclassOrSame child parent).trans (k.isSubclassOrSame child parent)
  canStore child parent := (h.canStore child parent).trans (k.canStore child parent)

/-- Subtype indexes that are built from universes that mirror each other give the same answers. -/
theorem agrees_mirrors (h : u.Mirrors v) (wf : u.IsWellFormed) (wf' : v.IsWellFormed)
    (built : build u = .ok x) (built' : build v = .ok y) : x.Agrees y := by
  have intervals : y.intervals = x.intervals := by
    rw [intervals_of_build built, intervals_of_build built', walkAll_mirrors h]
  have interfaces : y.interfaces = x.interfaces := by
    obtain ⟨-, rfl⟩ := build_eq_ok built
    obtain ⟨-, rfl⟩ := build_eq_ok built'
    dsimp only
    rw [h.ids]
    have same : (u.registry.ids.filter fun id => (v.record id).modifiers.isInterface) =
        u.registry.ids.filter fun id => (u.record id).modifiers.isInterface := by
      apply List.filter_congr
      intro id hm
      rw [h.kind (Registry.mem_ids_iff.mp hm)]
    rw [same]
    apply List.map_congr_left
    intro id hm
    exact h.name (Registry.mem_ids_iff.mp (List.mem_of_mem_filter hm))
  have kept (child parent : String) : ((y.closure.get? child).getD []).contains parent =
      ((x.closure.get? child).getD []).contains parent := by
    rw [Bool.eq_iff_iff, List.contains_iff_mem, List.contains_iff_mem, mem_closure_of_build wf built,
      mem_closure_of_build wf' built']
    simp only [h.find?]
    apply exists_congr
    intro id
    apply and_congr_right
    intro found
    have registered : u.IsRegistered id := ⟨child, found⟩
    constructor
    · exact mem_interfacesAbove_mirrors h wf wf' registered
    · exact mem_interfacesAbove_mirrors h.symm wf' wf (h.isRegistered_iff.mpr registered)
  have lower (child parent : String) :
      x.isSubclassOrSame child parent = y.isSubclassOrSame child parent := by
    unfold isSubclassOrSame
    rw [intervals]
  refine ⟨lower, fun child parent => ?_⟩
  unfold canStore
  rw [interfaces, kept, lower]

end SubtypeIndex

end ClassUniverse
