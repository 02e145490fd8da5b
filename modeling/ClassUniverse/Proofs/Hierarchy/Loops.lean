import ClassUniverse.EntryPoints
import ClassUniverse.Proofs.Hierarchy.Subtypes

/-!
# Loops over links

The way up from a class and the walk down from the roots follow links without a look at where they
have been.  Both are described here without a bound on their steps.  The way up ends where links
lead nowhere back; the walk ends in every well-formed universe, since a name that can be reached
from a root has one name directly above it and no root has any.
-/

namespace ClassUniverse

open Relation (ReflTransGen TransGen)

/-! ## The way up -/

namespace Catalog

/-- A class and its superclasses in order, up to one without a superclass. -/
inductive Climbs (c : Catalog) : ClassId → List ClassId → Prop
  | top {id : ClassId} (link : c.superclass? id = none) : c.Climbs id [id]
  | next {id parent : ClassId} {above : List ClassId} (link : c.superclass? id = some parent)
      (rest : c.Climbs parent above) : c.Climbs id (id :: above)

variable {c : Catalog} {id : ClassId} {steps : Nat}

theorem climbs_climb (short : IsShort c.Extends steps id) :
    c.Climbs id (ancestry.climb c steps id) := by
  induction steps generalizing id with
  | zero => exact absurd short.pos (Nat.lt_irrefl 0)
  | succ steps ih =>
      rw [ancestry.climb]
      cases link : c.superclass? id with
      | none => exact .top link
      | some parent => exact .next link (ih (short.next link))

theorem mem_ids_iff : id ∈ c.ids ↔ c.IsMade id := by
  obtain ⟨serial⟩ := id
  simp [Catalog.ids, Catalog.IsMade]

/-- The steps that a catalog allows are enough where links lead to descriptors and nowhere back. -/
theorem climbs_ancestry (within : ∀ {id parent}, c.Extends id parent → c.IsMade parent)
    (acyclic : ∀ id, ¬ TransGen c.Extends id id) (made : c.IsMade id) :
    c.Climbs id (c.ancestry id) := by
  have short : IsShort c.Extends c.ids.length id := by
    apply isShort_of_acyclic
    · intro other path
      rw [mem_ids_iff]
      cases path.cases_tail with
      | inl same => exact same ▸ made
      | inr last =>
          obtain ⟨_, _, link⟩ := last
          exact within link
    · intro other _
      exact acyclic other
  have size : c.ids.length = c.records.size := by simp [Catalog.ids]
  rw [size] at short
  exact climbs_climb short

end Catalog

/-! ## The walk down -/

namespace SubtypeIndex

/-- A walk over some names and what is below them, one after the other, from one step to another,
and the intervals that it gives. -/
inductive Passes (children : String → List String) :
    List String → Nat → List (String × Interval) → Nat → Prop
  | done {step : Nat} : Passes children [] step [] step
  | visit {name : String} {rest : List String} {step middle stop : Nat}
      {below found : List (String × Interval)}
      (inner : Passes children (children name) (step + 1) below middle)
      (outer : Passes children rest (middle + 1) found stop) :
      Passes children (name :: rest) step ((name, ⟨step, middle⟩) :: below ++ found) stop

variable {children : String → List String} {names others : List String}
  {found more : List (String × Interval)} {start middle stop depth : Nat} {name : String}

theorem Passes.append (h : Passes children names start found middle)
    (k : Passes children others middle more stop) :
    Passes children (names ++ others) start (found ++ more) stop := by
  induction h with
  | done => exact k
  | visit inner _ _ ih =>
      have both := Passes.visit inner (ih k)
      simpa using both

/-- Walks over some names one after the other. -/
theorem Passes.foldl (visit : String → Nat → List (String × Interval) × Nat)
    (each : ∀ other ∈ others, ∀ step,
      Passes children [other] step (visit other step).1 (visit other step).2)
    (h : Passes children names start found middle) :
    let all := others.foldl (fun (found, step) other =>
      let (more, step) := visit other step
      (found ++ more, step)) (found, middle)
    Passes children (names ++ others) start all.1 all.2 := by
  induction others generalizing names found middle with
  | nil => simpa using h
  | cons other others ih =>
      have first := h.append (each other List.mem_cons_self middle)
      have rest := ih (fun next hn => each next (List.mem_cons_of_mem other hn)) first
      simpa using rest

theorem passes_walk (short : IsShort (Above children) depth name) (step : Nat) :
    Passes children [name] step (walk children depth name step).1
      (walk children depth name step).2 := by
  induction depth generalizing name step with
  | zero => exact absurd short.pos (Nat.lt_irrefl 0)
  | succ depth ih =>
      have nothing : Passes children [] (step + 1) [] (step + 1) := .done
      have below := nothing.foldl (walk children depth) fun child hc step => ih (short.next hc) step
      have whole : Passes children [name] step _ _ := .visit below .done
      rw [List.append_nil] at whole
      exact whole

variable {u : Universe}

theorem mem_children {lower upper : String} : lower ∈ SubtypeIndex.children u upper ↔
    ∃ id ∈ classes u, registeredParent? u id = some upper ∧ u.catalog.nameOf id = lower := by
  rw [children_eq, List.mem_map]
  simp only [List.mem_filter, decide_eq_true_eq, and_assoc]

/-- A class has one name directly above it at most. -/
theorem above_single (wf : u.IsWellFormed) {upper other lower : String}
    (h : Above (SubtypeIndex.children u) upper lower)
    (k : Above (SubtypeIndex.children u) other lower) : upper = other := by
  obtain ⟨id, member, parent, named⟩ := mem_children.mp h
  obtain ⟨id', member', parent', named'⟩ := mem_children.mp k
  have found := wf.find_nameOf (mem_classes.mp member').1
  rw [named'] at found
  have same : id = id' := wf.eq_of_nameOf (mem_classes.mp member).1 found named
  rw [same, parent'] at parent
  exact (Option.some.inj parent).symm

theorem not_above_root (wf : u.IsWellFormed) {root upper : String} (h : root ∈ roots u) :
    ¬ Above (SubtypeIndex.children u) upper root := by
  intro link
  obtain ⟨id, found, _, top⟩ := root_registered wf h
  obtain ⟨id', member, parent, named⟩ := mem_children.mp link
  rw [wf.eq_of_nameOf (mem_classes.mp member).1 found named, top] at parent
  cases parent

/-- Nothing that a root leads to is below itself, whatever other names are. -/
theorem acyclic_below_root (wf : u.IsWellFormed) {root : String} (h : root ∈ roots u)
    (path : ReflTransGen (Above (SubtypeIndex.children u)) root name) :
    ¬ TransGen (Above (SubtypeIndex.children u)) name name := by
  induction path with
  | refl =>
      intro cycle
      obtain ⟨last, _, link⟩ := TransGen.tail'_iff.mp cycle
      exact not_above_root wf h link
  | tail _ step ih =>
      intro cycle
      obtain ⟨last, before, link⟩ := TransGen.tail'_iff.mp cycle
      rw [above_single wf link step] at before
      exact ih (TransGen.head' step before)

theorem isShort_root (wf : u.IsWellFormed) {root : String} (h : root ∈ roots u) :
    IsShort (Above (SubtypeIndex.children u)) u.registry.ids.length root := by
  have count : u.registry.ids.length = (u.registry.ids.map u.catalog.nameOf).length := by simp
  rw [count]
  apply isShort_of_acyclic
  · intro lower path
    cases path.cases_tail with
    | inl same =>
        obtain ⟨id, hm, named⟩ := List.mem_map.mp h
        have registered := (mem_classes.mp (List.mem_filter.mp hm).1).1
        rw [same, ← named]
        exact List.mem_map_of_mem (Registry.mem_ids_iff.mpr registered)
    | inr last =>
        obtain ⟨_, _, link⟩ := last
        obtain ⟨id, member, _, named⟩ := mem_children.mp link
        rw [← named]
        exact List.mem_map_of_mem (Registry.mem_ids_iff.mpr (mem_classes.mp member).1)
  · intro lower path
    exact acyclic_below_root wf h path

/-- The walk over all roots ends. -/
theorem passes_walkAll (wf : u.IsWellFormed) :
    Passes (SubtypeIndex.children u) (roots u) 0 (walkAll u).1 (walkAll u).2 := by
  have nothing : Passes (SubtypeIndex.children u) [] 0 [] 0 := .done
  have all := nothing.foldl (walk (SubtypeIndex.children u) u.registry.ids.length)
    fun root hr step => passes_walk (isShort_root wf hr) step
  rwa [List.nil_append] at all

end SubtypeIndex

/-! ## All loops -/

/-- Whether the loops over links end: the way up that gives the superclasses of a class, the
interfaces above it and the initializers of a main class, and the walk that gives the intervals of a
subtype index. -/
structure Universe.LoopsEnd (u : Universe) : Prop where
  climbs : ∀ {id}, u.catalog.IsMade id → ∃ chain, u.catalog.Climbs id chain ∧
    (∀ (h : Hierarchy) name, h.classes.get? name = some id →
      h.above u.catalog name = chain.tail) ∧
    SubtypeIndex.interfacesAbove u id =
      (Search.reach u.catalog.nameOf u.catalog.interfaces u.catalog.records.size
        (chain.flatMap u.catalog.interfaces)).map u.catalog.nameOf ∧
    EntryPoints.ofMain u id = ((u.record id).method? EntryPoints.mainMember).toList ++
      chain.filterMap fun id => (u.record id).method? EntryPoints.initializerMember
  passes : ∀ {index}, SubtypeIndex.build u = .ok index → ∃ stop,
    SubtypeIndex.Passes (SubtypeIndex.children u) (SubtypeIndex.roots u) 0 index.intervals stop

theorem Universe.loopsEnd {u : Universe} (wf : u.IsWellFormed)
    (within : ∀ {id parent}, u.catalog.Extends id parent → u.catalog.IsMade parent)
    (acyclic : ∀ id, ¬ TransGen u.catalog.Extends id id) : u.LoopsEnd where
  climbs {id} made := by
    have climbs := Catalog.climbs_ancestry within acyclic made
    exact ⟨u.catalog.ancestry id, climbs, fun h name found => by simp [Hierarchy.above, found],
      rfl, rfl⟩
  passes built := by
    rw [SubtypeIndex.intervals_of_build built]
    exact ⟨_, SubtypeIndex.passes_walkAll wf⟩

end ClassUniverse
