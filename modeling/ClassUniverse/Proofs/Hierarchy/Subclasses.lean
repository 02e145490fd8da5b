import ClassUniverse.Proofs.Hierarchy.Agreement
import ClassUniverse.Proofs.Hierarchy.Loops
import ClassUniverse.Proofs.Search.Loops

/-!
# Subclasses, downward and upward

Downward a hierarchy looks for subclasses among the names that it has recorded, upward it follows
the links of descriptors.  Where superclass links lead to registered classes and nowhere back both
ways pass the same classes.  The search downward ends whatever has been recorded.
-/

namespace ClassUniverse

open Relation (ReflTransGen TransGen)

namespace Hierarchy

/-! ## The search downward -/

/-- The names directly below a name come from the pairs that have been recorded. -/
theorem within_partners (tree : Hierarchy) (start : List String) :
    Search.Within id (partners tree.subclasses) start (tree.subclasses.map Prod.snd) := by
  intro above _ below hb
  exact List.mem_map.mpr ⟨_, mem_partners.mp hb, rfl⟩

theorem isExploring_namesBelow (tree : Hierarchy) (name : String) :
    Search.IsExploring id (partners tree.subclasses) [name] (tree.namesBelow name) [] :=
  Search.isExploring_reach (within_partners tree [name]) (by rw [List.length_map])

/-- The search ends in every hierarchy, also in one with names that lead back to themselves. -/
theorem visits_namesBelow (tree : Hierarchy) (name : String) :
    Search.Visits id (partners tree.subclasses) [] [name] (tree.namesBelow name) := by
  have loop := Search.explores_reach (within_partners tree [name])
    (show _ ≤ tree.subclasses.length by rw [List.length_map])
  exact loop.visits

theorem namesBelow_eq_cons (tree : Hierarchy) (name : String) :
    ∃ rest, tree.namesBelow name = name :: rest := by
  obtain ⟨rest, all⟩ := Search.prefix_explore id (partners tree.subclasses)
    (1 + tree.subclasses.length) [name] [name]
  exact ⟨rest, all.symm⟩

variable {u : Universe} {tree : Hierarchy} {name other : String} {id id' parent : ClassId}

/-! ## Direct subclasses -/

theorem partners_append (pairs more : List (String × String)) (name : String) :
    partners (pairs ++ more) name = partners pairs name ++ partners more name :=
  List.filterMap_append

theorem lookup_append (tree : Hierarchy) (names more : List String) :
    tree.lookup (names ++ more) = tree.lookup names ++ tree.lookup more := List.filterMap_append

/-- What one class adds to the direct subclasses of another one: itself, if it names it. -/
theorem lookup_partners_one (wf : u.IsWellFormed) (built : build u = .ok tree)
    (closed : u.IsClosedUnder u.catalog.Extends) (found : u.find? name = some parent)
    (registered : u.IsRegistered id) :
    tree.lookup (partners ((u.catalog.superclass? id).toList.map fun above =>
        (u.catalog.nameOf above, u.catalog.nameOf id)) name) =
      [id].filter fun id => u.catalog.superclass? id = some parent := by
  cases link : u.catalog.superclass? id with
  | none => simp [partners, lookup, link]
  | some above =>
      have own : tree.classes.get? (u.catalog.nameOf id) = some id := by
        rw [get?_classes wf built, wf.find_nameOf registered]
      by_cases same : above = parent
      · have named : u.catalog.nameOf parent = name := (wf.stands found).named
        simp [partners, lookup, link, same, named, own]
      · have differ : u.catalog.nameOf above ≠ name := fun named =>
          same (wf.eq_of_nameOf (closed id above registered link) found named)
        simp [partners, lookup, link, same, differ]

/-- The direct subclasses of a class are the classes that name it as their superclass, in order of
registration. -/
theorem directSubclasses_eq (wf : u.IsWellFormed) (built : build u = .ok tree)
    (closed : u.IsClosedUnder u.catalog.Extends) (found : u.find? name = some parent) :
    tree.directSubclasses name =
      u.registry.ids.filter fun id => u.catalog.superclass? id = some parent := by
  have all (ids : List ClassId) (registered : ∀ id ∈ ids, u.IsRegistered id) :
      tree.lookup (partners (ids.flatMap fun id => (u.catalog.superclass? id).toList.map
        fun above => (u.catalog.nameOf above, u.catalog.nameOf id)) name) =
      ids.filter fun id => u.catalog.superclass? id = some parent := by
    induction ids with
    | nil => rfl
    | cons id ids ih =>
        have first := lookup_partners_one wf built closed found (registered id List.mem_cons_self)
        have rest := ih fun id hm => registered id (List.mem_cons_of_mem _ hm)
        rw [List.flatMap_cons, partners_append, lookup_append, first, rest, ← List.filter_append]
        rfl
  have recorded : tree.subclasses = u.registry.ids.flatMap fun id =>
      (u.catalog.superclass? id).toList.map fun above =>
        (u.catalog.nameOf above, u.catalog.nameOf id) := by
    obtain ⟨-, rfl⟩ := build_eq_ok built
    rfl
  rw [directSubclasses, recorded]
  exact all u.registry.ids fun id hm => Registry.mem_ids_iff.mp hm

/-! ## All subclasses -/

theorem mem_below_iff (wf : u.IsWellFormed) (built : build u = .ok tree)
    (found : u.find? other = some id) : id ∈ tree.below name ↔ other ∈ tree.namesBelow name := by
  unfold below
  rw [mem_lookup wf built]
  constructor
  · rintro ⟨lower, hl, found'⟩
    rwa [← wf.name_eq found' found]
  · exact fun hb => ⟨other, hb, found⟩

theorem nodup_below (wf : u.IsWellFormed) (built : build u = .ok tree) (name : String) :
    (tree.below name).Nodup := by
  have names := (isExploring_namesBelow tree name).nodup
  rw [List.append_nil, List.map_id] at names
  refine names.filterMap fun lower lower' id found found' => ?_
  rw [Option.mem_def, get?_classes wf built] at found found'
  exact wf.name_eq found found'

theorem head?_below (wf : u.IsWellFormed) (built : build u = .ok tree)
    (found : u.find? name = some id) : (tree.below name).head? = some id := by
  obtain ⟨rest, names⟩ := namesBelow_eq_cons tree name
  have own : tree.classes.get? name = some id := by rw [get?_classes wf built, found]
  simp [below, lookup, names, own]

/-- The subclasses found downward are those that the way up from a class passes. -/
theorem mem_below_iff_isSubclassOrSame (o : u.IsRooted) (wf : u.IsWellFormed)
    (built : build u = .ok tree) (hn : u.find? name = some id) (ho : u.find? other = some id') :
    id' ∈ tree.below name ↔ tree.isSubclassOrSame u.catalog other name = true := by
  rw [mem_below_iff wf built ho, mem_namesBelow wf built, isSubclassOrSame_iff o wf built ho hn]
  exact wf.namedPath_iff o.registered ho hn

/-- In a hierarchy of classes whose superclass links lead to registered classes and nowhere back:
downward a class is found below another one exactly if the way up from it, which ends, leads to
that one; the class itself comes first and none comes twice; and the classes directly below are
those that name the class as their superclass, in order of registration.  The search downward ends
in every hierarchy, with the names that it gives. -/
theorem below_agrees_with_links {recycles allowPhantoms : Bool} {calls : List Call} {u : Universe}
    (reached : run calls (.empty recycles allowPhantoms) = u) (o : u.IsRooted) {tree : Hierarchy}
    (built : Hierarchy.build u = .ok tree) :
    (∀ parent id, u.find? parent = some id →
      (∀ child id', u.find? child = some id' →
        (id' ∈ tree.below parent ↔ tree.isSubclassOrSame u.catalog child parent = true)) ∧
      (tree.below parent).Nodup ∧ (tree.below parent).head? = some id ∧
      tree.directSubclasses parent =
        u.registry.ids.filter (fun id' => u.catalog.superclass? id' = some id) ∧
      u.catalog.Climbs id (u.catalog.ancestry id)) ∧
    ∀ (any : Hierarchy) (name : String),
      Search.Visits (fun name => name) (partners any.subclasses) [] [name]
        (any.namesBelow name) := by
  subst reached
  have wf := isWellFormed_run (Universe.isWellFormed_empty recycles allowPhantoms) calls
  refine ⟨fun parent id found => ⟨fun child id' found' => ?_, nodup_below wf built parent,
    head?_below wf built found, directSubclasses_eq wf built o.registered found,
    Catalog.climbs_climb (o.isShort wf ⟨parent, found⟩)⟩, visits_namesBelow⟩
  exact mem_below_iff_isSubclassOrSame o wf built found found'

/-- Two classes under a base class, and a class under one of them. -/
def formSource : MemorySource :=
  (((MemorySource.empty.add { name := "a.Form" }).add
    { name := "a.Circle", superclass := some "a.Form" }).add
    { name := "a.Square", superclass := some "a.Form" }).add
    { name := "a.Tile", superclass := some "a.Square" }

def forms : Universe :=
  run (requests formSource.supply [.resolve .regular "a.Tile" .hierarchy,
    .resolve .regular "a.Circle" .hierarchy]) (.empty false false)

theorem below_agrees_with_links_forms :
    ∃ tree, Hierarchy.build forms = .ok tree ∧ forms.IsRooted ∧
      (⟨2⟩ ∈ tree.below "a.Form" ↔ tree.isSubclassOrSame forms.catalog "a.Tile" "a.Form" = true) ∧
      tree.directSubclasses "a.Form" =
        forms.registry.ids.filter fun id => forms.catalog.superclass? id = some ⟨0⟩ := by
  obtain ⟨tree, built⟩ := Hierarchy.exists_build (u := forms) (by decide +kernel)
  have o : forms.IsRooted :=
    (Universe.isOrderly_of_earlier (by decide +kernel) (by decide +kernel)).isRooted
  have agree := (below_agrees_with_links rfl o built).1 "a.Form" ⟨0⟩ (by decide +kernel)
  exact ⟨tree, built, o, agree.1 "a.Tile" ⟨2⟩ (by decide +kernel), agree.2.2.2.1⟩

end Hierarchy

end ClassUniverse
