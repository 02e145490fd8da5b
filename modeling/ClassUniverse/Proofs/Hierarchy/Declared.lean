import ClassUniverse.Proofs.Hierarchy.Subtypes
import ClassUniverse.Proofs.Resolution.Declared

/-!
# Subtypes as definitions declare them

Between the classes that requests have registered a path of links is a path of declared names.  So a
subtype index can be read against the definitions: it knows every declared supertype but those that
lead through the superclass of an interface.
-/

namespace ClassUniverse

open Relation (ReflTransGen TransGen)

/-! ## What requests build -/

namespace Universe

/-- What holds of a universe of classes from one supply that hierarchies can be built from. -/
structure IsBuiltFrom (u : Universe) (s : Supply) : Prop where
  wellFormed : u.IsWellFormed
  faithful : u.IsFaithful s
  kinded : u.IsKinded s
  linked : u.checkLinked = .ok ()

variable {s : Supply} {u : Universe} {name other : String} {id id' : ClassId}

theorem level_of_checkLinked (linked : u.checkLinked = .ok ()) (found : u.find? name = some id)
    (real : (u.record id).isPhantom = false) : .hierarchy ≤ (u.record id).level := by
  unfold checkLinked at linked
  dsimp only at linked
  split at linked
  · cases linked
  · rename_i none
    have high := List.find?_eq_none.mp none id (Registry.mem_ids_iff.mpr ⟨name, found⟩)
    rw [real, Bool.not_false, Bool.true_and, decide_eq_true_iff] at high
    exact Level.le_of_not_lt high

namespace IsBuiltFrom

/-- A registered class links to its supertypes and has the flags of its definition, or it is a
phantom without definition and links. -/
theorem declared_or_phantom (h : u.IsBuiltFrom s) (found : u.find? name = some id) :
    (∃ d, s.lookup name = .ok (some d) ∧ (u.record id).modifiers = d.modifiers ∧
        u.Links d (u.catalog.superclass? id) (u.catalog.interfaces id)) ∨
      ((u.record id).isPhantom = true ∧ s.lookup name = .ok none ∧
        (u.record id).modifiers = Modifiers.publicFlag ∧ u.catalog.superclass? id = none ∧
        u.catalog.interfaces id = []) := by
  have fits := h.kinded name id found
  cases kind : (u.record id).isPhantom with
  | false =>
      obtain ⟨d, given, shows⟩ := h.faithful.shows found kind
      have links := shows.links (level_of_checkLinked h.linked found kind)
      exact .inl ⟨d, given, fits.flags kind d given, links.live h.wellFormed⟩
  | true =>
      obtain ⟨absent, superclass, interfaces, flags⟩ := fits.phantom kind
      refine .inr ⟨rfl, absent, flags, ?_, ?_⟩
      · unfold Catalog.superclass?
        rw [show (u.catalog.get id).superclass = none from superclass]
        rfl
      · unfold Catalog.interfaces
        rw [show (u.catalog.get id).interfaces = [] from interfaces]
        rfl

theorem corresponds_extends (h : u.IsBuiltFrom s) : u.Corresponds u.catalog.Extends s.Extends where
  named {name id parent} found link := by
    unfold Catalog.Extends at link
    rcases h.declared_or_phantom found with ⟨d, given, -, links⟩ | ⟨-, -, -, none, -⟩
    · have superclass := links.superclass
      rw [link] at superclass
      cases hd : d.superclass with
      | none =>
          rw [hd] at superclass
          cases superclass
      | some above =>
          rw [hd] at superclass
          cases superclass with
          | some served => exact ⟨above, ⟨d, given, hd⟩, served.found⟩
    · rw [none] at link
      cases link
  linked {name id above} found step := by
    obtain ⟨d, given, hd⟩ := step
    rcases h.declared_or_phantom found with ⟨d', given', -, links⟩ | ⟨-, absent, -⟩
    · rw [given] at given'
      cases given'
      have superclass := links.superclass
      rw [hd] at superclass
      unfold Catalog.Extends
      generalize u.catalog.superclass? id = link at superclass ⊢
      cases superclass with
      | some served => exact ⟨_, rfl, served.found⟩
    · rw [given] at absent
      cases absent

theorem corresponds_implements (h : u.IsBuiltFrom s) :
    u.Corresponds u.catalog.Implements s.Implements where
  named {name id parent} found link := by
    unfold Catalog.Implements at link
    rcases h.declared_or_phantom found with ⟨d, given, -, links⟩ | ⟨-, -, -, -, none⟩
    · obtain ⟨above, member, served⟩ := exists_related links.interfaces.flip link
      exact ⟨above, ⟨d, given, member⟩, served.found⟩
    · rw [none] at link
      cases link
  linked {name id above} found step := by
    obtain ⟨d, given, hd⟩ := step
    rcases h.declared_or_phantom found with ⟨d', given', -, links⟩ | ⟨-, absent, -⟩
    · rw [given] at given'
      cases given'
      obtain ⟨parent, member, served⟩ := exists_related links.interfaces hd
      exact ⟨parent, member, served.found⟩
    · rw [given] at absent
      cases absent

theorem corresponds_links (h : u.IsBuiltFrom s) :
    u.Corresponds u.catalog.LinksTo s.Declares where
  named found link := by
    simp only [Supply.declares_iff]
    rcases link with link | link
    · obtain ⟨above, step, found⟩ := h.corresponds_extends.named found link
      exact ⟨above, .inl step, found⟩
    · obtain ⟨above, step, found⟩ := h.corresponds_implements.named found link
      exact ⟨above, .inr step, found⟩
  linked found step := by
    rcases Supply.declares_iff.mp step with step | step
    · obtain ⟨parent, link, found⟩ := h.corresponds_extends.linked found step
      exact ⟨parent, .inl link, found⟩
    · obtain ⟨parent, link, found⟩ := h.corresponds_implements.linked found step
      exact ⟨parent, .inr link, found⟩

theorem isInterface_iff (h : u.IsBuiltFrom s) (found : u.find? name = some id) :
    u.IsInterface id ↔ s.IsInterface name := by
  unfold Universe.IsInterface Supply.IsInterface
  rcases h.declared_or_phantom found with ⟨d, given, flags, -⟩ | ⟨-, absent, flags, -⟩
  · rw [flags, given]
    constructor
    · intro kind
      exact ⟨d, rfl, kind⟩
    · rintro ⟨d', given', kind⟩
      cases given'
      exact kind
  · rw [flags, absent]
    refine iff_of_false (by decide) ?_
    rintro ⟨d, given, -⟩
    cases given

theorem conforms_iff (h : u.IsBuiltFrom s) (hn : u.find? name = some id)
    (ho : u.find? other = some id') : u.catalog.Conforms id id' ↔ s.Conforms name other := by
  constructor
  · rintro ⟨last, first, before, link, after⟩
    obtain ⟨lower, before, found⟩ := h.corresponds_extends.named_path hn before
    obtain ⟨upper, link, found⟩ := h.corresponds_implements.named found link
    exact ⟨lower, upper, before, link,
      (h.corresponds_implements.path_iff h.wellFormed found ho).mp after⟩
  · rintro ⟨lower, upper, before, link, after⟩
    obtain ⟨last, before, found⟩ := h.corresponds_extends.linked_path hn before
    obtain ⟨first, link, found⟩ := h.corresponds_implements.linked found link
    exact ⟨last, first, before, link,
      (h.corresponds_implements.path_iff h.wellFormed found ho).mpr after⟩

/-- Where definitions are well-kinded, links are orderly. -/
theorem isOrderly (h : u.IsBuiltFrom s) (kinds : s.IsWellKinded) : u.IsOrderly where
  registered := by
    rintro id parent ⟨name, found⟩ link
    obtain ⟨above, -, found'⟩ := h.corresponds_links.named found link
    exact ⟨above, found'⟩
  acyclic := by
    rintro id ⟨name, found⟩ cycle
    exact kinds.acyclic name ((h.corresponds_links.cycle_iff h.wellFormed found).mp cycle)
  phantom := by
    rintro id above ⟨name, found⟩ phantom link
    obtain ⟨upper, ⟨d, given, -⟩, -⟩ := h.corresponds_links.named found link
    rw [((h.kinded name id found).phantom phantom).1] at given
    cases given
  superclass := by
    rintro id parent ⟨name, found⟩ link kind
    obtain ⟨above, step, found'⟩ := h.corresponds_extends.named found link
    exact kinds.superclass step ((h.isInterface_iff found').mp kind)
  interface := by
    rintro id parent ⟨name, found⟩ link
    obtain ⟨above, step, found'⟩ := h.corresponds_implements.named found link
    exact .inl ((h.isInterface_iff found').mpr (kinds.interface step))

end IsBuiltFrom

end Universe

/-- Requests build a universe that hierarchies can be built from, unless a class has been left
without its supertypes. -/
theorem isBuiltFrom_run {s : Supply} (named : s.IsNamed) {recycles allowPhantoms : Bool}
    {qs : List Request} {u : Universe}
    (reached : run (requests s qs) (.empty recycles allowPhantoms) = u)
    (linked : u.checkLinked = .ok ()) : u.IsBuiltFrom s := by
  have start := Universe.isWellFormed_empty recycles allowPhantoms
  have faithful := Universe.isFaithful_empty recycles allowPhantoms s
  subst reached
  exact ⟨isWellFormed_run start _, isFaithful_run named start faithful qs,
    isKinded_run named start faithful (Universe.isKinded_empty recycles allowPhantoms s) qs, linked⟩

/-! ## Declared paths -/

namespace Supply

variable {s : Supply} {name above other : String}

theorem declares_of_extends (path : ReflTransGen s.Extends name above) :
    ReflTransGen s.Declares name above :=
  ReflTransGen.mono (fun _ _ step => declares_iff.mpr (.inl step)) _ _ path

theorem Conforms.declares (h : s.Conforms name above) : ReflTransGen s.Declares name above := by
  obtain ⟨last, first, before, step, after⟩ := h
  have up : ReflTransGen s.Declares first above :=
    ReflTransGen.mono (fun _ _ step => declares_iff.mpr (.inr step)) _ _ after
  exact (declares_of_extends before).trans (.head (declares_iff.mpr (.inr step)) up)

namespace IsWellKinded

theorem isInterface_of_conforms (kinds : s.IsWellKinded) (h : s.Conforms name above) :
    s.IsInterface above := by
  obtain ⟨last, first, -, step, after⟩ := h
  rcases after.cases_tail with rfl | ⟨before, -, step⟩
  · exact kinds.interface step
  · exact kinds.interface step

/-- A declared path from a name up leads along superclasses or to an interface that the name
conforms to, where no interface on the way has a superclass. -/
theorem extends_or_conforms (kinds : s.IsWellKinded)
    (plain : ∀ middle parent, ReflTransGen s.Declares name middle → s.IsInterface middle →
      ¬ s.Extends middle parent)
    (path : ReflTransGen s.Declares name above) :
    ReflTransGen s.Extends name above ∨ s.Conforms name above := by
  induction path using ReflTransGen.head_induction_on with
  | refl => exact .inl .refl
  | @head name next step _ ih =>
      have ih := ih fun middle parent path => plain middle parent (.head step path)
      rcases declares_iff.mp step with up | up
      · rcases ih with path | ⟨last, first, before, link, after⟩
        · exact .inl (.head up path)
        · exact .inr ⟨last, first, .head up before, link, after⟩
      · have kind := kinds.interface up
        have stays {last : String} (path : ReflTransGen s.Extends next last) : next = last := by
          rcases path.cases_head with same | ⟨parent, link, -⟩
          · exact same
          · exact absurd link (plain next parent (.single step) kind)
        rcases ih with path | ⟨last, first, before, link, after⟩
        · exact .inr ⟨name, next, .refl, up, stays path ▸ .refl⟩
        · rw [← stays before] at link
          exact .inr ⟨name, next, .refl, up, .head link after⟩

end IsWellKinded

end Supply

/-! ## What an index knows -/

/-- What an index knows of declared supertypes: the interfaces that a class or interface conforms
to, and the superclasses of a class. -/
theorem Universe.IsBuiltFrom.canStore_iff {s : Supply} {u : Universe} (h : u.IsBuiltFrom s)
    (kinds : s.IsWellKinded) {index : SubtypeIndex} (indexed : SubtypeIndex.build u = .ok index)
    {child parent : String} (hc : child ∈ u.registry.classes.keys)
    (hp : parent ∈ u.registry.classes.keys) : index.canStore child parent = true ↔
      s.Conforms child parent ∨
        ReflTransGen s.Extends child parent ∧ (s.IsInterface child → child = parent) := by
  obtain ⟨id, hc⟩ := (OrderedMap.mem_keys_iff _).mp hc
  obtain ⟨id', hp⟩ := (OrderedMap.mem_keys_iff _).mp hp
  have wf := h.wellFormed
  rw [SubtypeIndex.canStore_iff (h.isOrderly kinds) wf indexed hc hp, h.conforms_iff hc hp,
    h.isInterface_iff hc, h.isInterface_iff hp, h.corresponds_extends.path_iff wf hc hp]
  constructor
  · rintro (rfl | ⟨-, conforms⟩ | ⟨kind, -, path⟩)
    · exact .inr ⟨wf.name_eq hc hp ▸ .refl, fun _ => wf.name_eq hc hp⟩
    · exact .inl conforms
    · exact .inr ⟨path, fun kind' => absurd kind' kind⟩
  · rintro (conforms | ⟨path, same⟩)
    · exact .inr (.inl ⟨kinds.isInterface_of_conforms conforms, conforms⟩)
    · by_cases kind : s.IsInterface child
      · have same := same kind
        subst same
        exact .inl (Option.some.inj (hc.symm.trans hp))
      · rcases path.cases_tail with rfl | ⟨last, -, step⟩
        · exact .inl (Option.some.inj (hc.symm.trans hp))
        · exact .inr (.inr ⟨kind, kinds.superclass step, path⟩)

/-- A subtype index lets a value of one type be kept in a variable of another if the second is an
interface that the first conforms to, is the first itself, or is a superclass of the first and the
first is no interface.  These are all supertypes that definitions declare exactly if no registered
interface has a superclass. -/
theorem canStore_iff_declared {s : Supply} (kinds : s.IsWellKinded)
    {recycles allowPhantoms : Bool} {qs : List Request} {u : Universe}
    (reached : run (requests s qs) (.empty recycles allowPhantoms) = u) {index : SubtypeIndex}
    (indexed : SubtypeIndex.build u = .ok index) :
    (∀ child ∈ u.registry.classes.keys, ∀ parent ∈ u.registry.classes.keys,
      (index.canStore child parent = true ↔ s.Conforms child parent ∨
        ReflTransGen s.Extends child parent ∧ (s.IsInterface child → child = parent))) ∧
    ((∀ child ∈ u.registry.classes.keys, ∀ parent ∈ u.registry.classes.keys,
        (index.canStore child parent = true ↔ ReflTransGen s.Declares child parent)) ↔
      ∀ name ∈ u.registry.classes.keys, s.IsInterface name →
        ∀ parent, ¬ s.Extends name parent) := by
  have built := isBuiltFrom_run kinds.named reached (SubtypeIndex.build_eq_ok indexed).1
  have links := built.corresponds_links
  have known {name above : String} (h : name ∈ u.registry.classes.keys)
      (path : ReflTransGen s.Declares name above) : above ∈ u.registry.classes.keys := by
    obtain ⟨id, found⟩ := (OrderedMap.mem_keys_iff _).mp h
    obtain ⟨id', -, found'⟩ := links.linked_path found path
    exact (OrderedMap.mem_keys_iff _).mpr ⟨id', found'⟩
  refine ⟨fun child hc parent hp => built.canStore_iff kinds indexed hc hp, ?_, ?_⟩
  · intro knows name hn kind parent step
    have path : ReflTransGen s.Declares name parent := .single (Supply.declares_iff.mpr (.inl step))
    have stored := (knows name hn parent (known hn path)).mpr path
    rcases (built.canStore_iff kinds indexed hn (known hn path)).mp stored with conforms | ⟨-, same⟩
    · exact kinds.superclass step (kinds.isInterface_of_conforms conforms)
    · rw [← same kind] at step
      exact kinds.acyclic name (.single (Supply.declares_iff.mpr (.inl step)))
  · intro plain child hc parent hp
    rw [built.canStore_iff kinds indexed hc hp]
    constructor
    · rintro (conforms | ⟨path, -⟩)
      · exact conforms.declares
      · exact Supply.declares_of_extends path
    · intro path
      rcases kinds.extends_or_conforms
        (fun middle parent path kind => plain middle (known hc path) kind parent) path with
        path | conforms
      · refine .inr ⟨path, fun kind => ?_⟩
        rcases path.cases_head with same | ⟨above, step, -⟩
        · exact same
        · exact absurd step (plain child hc kind above)
      · exact .inl conforms

/-- Definitions that name only what comes before them, superclasses that are no interfaces and
interfaces that are, are well-kinded. -/
theorem MemorySource.isWellKinded_supply (m : MemorySource)
    (superclass : ∀ d ∈ m.definitions.values, ∀ parent ∈ d.superclass,
      ((m.definitions.get? parent).all fun p => !p.modifiers.isInterface) = true ∧
        m.definitions.keys.idxOf parent < m.definitions.keys.idxOf d.name)
    (interface : ∀ d ∈ m.definitions.values, ∀ i ∈ d.interfaces,
      ((m.definitions.get? i).any fun p => p.modifiers.isInterface) = true ∧
        m.definitions.keys.idxOf i < m.definitions.keys.idxOf d.name) : m.supply.IsWellKinded := by
  have held {name : String} {d : ClassDefinition} (given : m.supply.lookup name = .ok (some d)) :
      d ∈ m.definitions.values ∧ d.name = name :=
    ⟨(OrderedMap.mem_values_iff _).mpr ⟨name, Except.ok.inj given⟩, m.isNamed_supply name d given⟩
  refine ⟨m.isNamed_supply, ?_, ?_, ?_⟩
  · rintro name parent ⟨d, given, hd⟩ ⟨p, given', kind⟩
    have flags := (superclass d (held given).1 parent hd).1
    rw [Except.ok.inj given', Option.all_some, kind] at flags
    cases flags
  · rintro name i ⟨d, given, hd⟩
    obtain ⟨p, found, kind⟩ := (Option.any_eq_true _ _).mp (interface d (held given).1 i hd).1
    exact ⟨p, congrArg Except.ok found, kind⟩
  · have earlier {name above : String} (step : m.supply.Declares name above) :
        m.definitions.keys.idxOf above < m.definitions.keys.idxOf name := by
      rcases Supply.declares_iff.mp step with ⟨d, given, hd⟩ | ⟨d, given, hd⟩
      · rw [← (held given).2]
        exact (superclass d (held given).1 above hd).2
      · rw [← (held given).2]
        exact (interface d (held given).1 above hd).2
    intro name
    exact acyclic_of_falls (P := fun _ => True) m.definitions.keys.idxOf
      (fun _ step => ⟨trivial, earlier step⟩) trivial

/-- A class with an interface; both have the same superclass. -/
def drawingSource : MemorySource :=
  ((MemorySource.empty.add { name := "java.lang.Object" }).add
    { name := "a.Shape", modifiers := ⟨1537⟩, superclass := some "java.lang.Object" }).add
    { name := "a.Circle", superclass := some "java.lang.Object", interfaces := ["a.Shape"] }

def drawings : Universe :=
  run (requests drawingSource.supply [.resolve .regular "a.Circle" .hierarchy]) (.empty false false)

theorem isWellKinded_drawingSource : drawingSource.supply.IsWellKinded :=
  drawingSource.isWellKinded_supply (by decide +kernel) (by decide +kernel)

theorem canStore_iff_declared_drawings :
    ∃ index, SubtypeIndex.build drawings = .ok index ∧
      (index.canStore "a.Circle" "a.Shape" = true ↔
        drawingSource.supply.Conforms "a.Circle" "a.Shape" ∨
          ReflTransGen drawingSource.supply.Extends "a.Circle" "a.Shape" ∧
            (drawingSource.supply.IsInterface "a.Circle" → "a.Circle" = "a.Shape")) := by
  obtain ⟨index, indexed⟩ :=
    SubtypeIndex.exists_build (u := drawings) (by decide +kernel)
  refine ⟨index, indexed, ?_⟩
  exact (canStore_iff_declared isWellKinded_drawingSource rfl indexed).1 "a.Circle"
    (by decide +kernel) "a.Shape" (by decide +kernel)

/-- The superclass of an interface is declared, and a subtype index does not know it. -/
theorem not_canStore_superclass_of_interface :
    drawingSource.supply.IsWellKinded ∧
    (∀ name above, drawingSource.supply.Declares name above →
      ∃ d, drawingSource.supply.lookup above = .ok (some d)) ∧
    "a.Shape" ∈ drawings.registry.classes.keys ∧
    "java.lang.Object" ∈ drawings.registry.classes.keys ∧
    drawingSource.supply.Declares "a.Shape" "java.lang.Object" ∧
    (SubtypeIndex.build drawings).toOption.map
      (·.canStore "a.Shape" "java.lang.Object") = some false := by
  refine ⟨isWellKinded_drawingSource, ?_, by decide +kernel, by decide +kernel, ?_,
    by decide +kernel⟩
  · rintro name above ⟨d, given, hd⟩
    have all : ∀ d ∈ drawingSource.definitions.values, ∀ above ∈ d.supertypes,
        (drawingSource.definitions.get? above).isSome = true := by decide +kernel
    have member : d ∈ drawingSource.definitions.values :=
      (OrderedMap.mem_values_iff _).mpr ⟨name, Except.ok.inj given⟩
    obtain ⟨p, found⟩ := Option.isSome_iff_exists.mp (all d member above hd)
    exact ⟨p, congrArg Except.ok found⟩
  · exact ⟨_, rfl, by decide +kernel⟩

end ClassUniverse
