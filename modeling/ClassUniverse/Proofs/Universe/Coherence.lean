import ClassUniverse.Proofs.Universe.Runs

/-!
# The places of a class agree

In every universe of a run the partitions share the registered names among them, each descriptor
knows its place, and the registered classes have different numbers that they keep.
-/

namespace ClassUniverse

namespace Registry

/-- Whether partitions share the registered names among them, each name in one. -/
structure IsShared (r : Registry) : Prop where
  apart : ∀ {p q name}, name ∈ r.namesIn p → name ∈ r.namesIn q → p = q
  covers : ∀ {name}, (∃ p, name ∈ r.namesIn p) ↔ r.contains name = true
  nodup : ∀ p, (r.namesIn p).Nodup

variable {r : Registry}

theorem IsShared.partitions_perm (h : r.IsShared) :
    (r.application ++ r.library ++ r.phantom).Perm r.classes.keys := by
  have differ {p q : Partition} (hpq : p ≠ q) :
      ∀ name ∈ r.namesIn p, ∀ other ∈ r.namesIn q, name ≠ other := by
    rintro name hp _ hq rfl
    exact hpq (h.apart hp hq)
  have nodup : (r.application ++ r.library ++ r.phantom).Nodup := by
    refine List.nodup_append.mpr ⟨List.nodup_append.mpr ⟨h.nodup .application, h.nodup .library,
      differ (p := .application) (q := .library) (by decide)⟩, h.nodup .phantom, ?_⟩
    intro name hm
    rcases List.mem_append.mp hm with hm | hm
    · exact differ (p := .application) (q := .phantom) (by decide) name hm
    · exact differ (p := .library) (q := .phantom) (by decide) name hm
  refine (List.perm_ext_iff_of_nodup nodup r.classes.nodup).mpr fun name => ?_
  have hm : name ∈ r.classes.keys ↔ ∃ p, name ∈ r.namesIn p := by
    rw [h.covers]
    exact (OrderedMap.contains_iff _ _).symm
  rw [show r.classes.entries.map Prod.fst = r.classes.keys from rfl, hm, List.mem_append,
    List.mem_append]
  constructor
  · rintro ((ha | hl) | hp)
    · exact ⟨.application, ha⟩
    · exact ⟨.library, hl⟩
    · exact ⟨.phantom, hp⟩
  · rintro ⟨p, hn⟩
    cases p with
    | application => exact .inl (.inl hn)
    | library => exact .inl (.inr hn)
    | phantom => exact .inr hn

theorem IsShared.isConsistent (h : r.IsShared) : r.isConsistent = true := by
  unfold Registry.isConsistent
  rw [Bool.and_eq_true, beq_iff_eq, List.all_eq_true]
  refine ⟨?_, fun name hm => ?_⟩
  · have hl := h.partitions_perm.length_eq
    rw [List.length_append, List.length_append] at hl
    rw [hl]
    exact List.length_map _
  · obtain ⟨p, hp⟩ := h.covers.mpr ((OrderedMap.contains_iff _ _).mpr hm)
    have only (q : Partition) : (r.namesIn q).contains name = decide (q = p) := by
      rw [Bool.eq_iff_iff, List.contains_iff_mem, decide_eq_true_iff]
      exact ⟨fun hq => h.apart hq hp, fun hq => hq ▸ hp⟩
    simp only [only]
    cases p <;> rfl

end Registry

namespace Universe

/-- Whether all that is known of the place of a class agrees. -/
structure IsCoherent (u : Universe) : Prop where
  shared : u.registry.IsShared
  named : ∀ {name id}, u.find? name = some id → (u.record id).name = name
  inScene : ∀ {name id}, u.find? name = some id → (u.record id).inScene = true
  placed : ∀ {name id}, u.find? name = some id → ∃ p, (u.record id).partition = some p ∧
    name ∈ u.registry.namesIn p ∧ (p = .phantom ↔ (u.record id).isPhantom = true)
  outside : ∀ {id}, (∀ name, u.find? name ≠ some id) →
    (u.record id).inScene = false ∧ (u.record id).partition = none
  numbered : ∀ {name id}, u.find? name = some id → ∃ number,
    u.numbers.classes.idOf? id = some number ∧
      ∀ other, u.numbers.classes.get? u.catalog.isLive other = some id ↔ other = number
  distinct : ∀ {name other id id'}, u.find? name = some id → u.find? other = some id' →
    u.numbers.classes.idOf? id = u.numbers.classes.idOf? id' → id = id'

variable {u : Universe}

theorem IsWellFormed.isShared (wf : u.IsWellFormed) : u.registry.IsShared where
  apart {p q name} hp hq := by
    obtain ⟨id, found, placed⟩ := wf.held hp
    obtain ⟨id', found', placed'⟩ := wf.held hq
    rw [found] at found'
    cases found'
    exact Option.some.inj (placed.symm.trans placed')
  covers {name} := by
    rw [Registry.contains_eq_isSome, Option.isSome_iff_exists]
    constructor
    · rintro ⟨p, hp⟩
      obtain ⟨id, found, -⟩ := wf.held hp
      exact ⟨id, found⟩
    · rintro ⟨id, found⟩
      obtain ⟨p, -, hp, -⟩ := (wf.stands found).placed
      exact ⟨p, hp⟩
  nodup := wf.nodup

theorem IsWellFormed.isCoherent (wf : u.IsWellFormed) : u.IsCoherent where
  shared := wf.isShared
  named found := (wf.stands found).named
  inScene found := (wf.stands found).inScene
  placed found := (wf.stands found).placed
  outside h := ⟨(wf.outside h).inScene, (wf.outside h).partition⟩
  numbered {name id} found := by
    obtain ⟨number, hn⟩ := (wf.stands found).numbered
    refine ⟨number, hn, fun other => ?_⟩
    rw [Numbering.get?_eq_some_iff wf.numbering (wf.stands found).live, hn, Option.some.injEq]
    exact eq_comm
  distinct found found' h := by
    obtain ⟨number, hn⟩ := (wf.stands found).numbered
    exact Numbering.eq_of_idOf? wf.numbering hn (h ▸ hn)

end Universe

/-- In every state of a run from the universe without classes the places of each class agree, and a
class that is registered from one state to another keeps its number. -/
theorem isCoherent_run (recycles allowPhantoms : Bool) (past future : List Call) :
    (run past (.empty recycles allowPhantoms)).IsCoherent ∧
      (run past (.empty recycles allowPhantoms)).registry.isConsistent = true ∧
      ∀ name id, (∀ k ≤ future.length,
          (run (past ++ future.take k) (.empty recycles allowPhantoms)).find? name = some id) →
        (run (past ++ future) (.empty recycles allowPhantoms)).numbers.classes.idOf? id =
          (run past (.empty recycles allowPhantoms)).numbers.classes.idOf? id := by
  have wf : (run past (.empty recycles allowPhantoms)).IsWellFormed :=
    isWellFormed_run (Universe.isWellFormed_empty recycles allowPhantoms) past
  refine ⟨wf.isCoherent, wf.isShared.isConsistent, fun name id registered => ?_⟩
  simp only [run_append] at registered ⊢
  obtain ⟨number, hn⟩ := (wf.stands (registered 0 (Nat.zero_le _))).numbered
  rw [hn]
  exact number_run wf future registered hn

end ClassUniverse
