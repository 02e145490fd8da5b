import ClassUniverse.Proofs.Numbering.Holders
import ClassUniverse.Proofs.Universe.Lookup

/-!
# Well-formed universes

The name of a class is known in four places: in the registry, in a partition, in the flags of its
descriptor, and in the numbering of classes.  A universe is well-formed when they agree.  Each
change that the operations on a universe are made of keeps it so.
-/

namespace ClassUniverse

/-- A descriptor as it is made: outside of the universe and in no partition. -/
structure ClassRecord.IsFresh (r : ClassRecord) : Prop where
  inScene : r.inScene = false
  partition : r.partition = none

instance (r : ClassRecord) : Decidable r.IsFresh :=
  decidable_of_iff (r.inScene = false ∧ r.partition = none)
    ⟨fun h => ⟨h.1, h.2⟩, fun h => ⟨h.inScene, h.partition⟩⟩

/-- Two records of a class that agree on its name and its place in the universe. -/
structure ClassRecord.StandsAs (a b : ClassRecord) : Prop where
  name : a.name = b.name
  partition : a.partition = b.partition
  inScene : a.inScene = b.inScene
  isPhantom : a.isPhantom = b.isPhantom

theorem ClassRecord.StandsAs.refl (a : ClassRecord) : a.StandsAs a := ⟨rfl, rfl, rfl, rfl⟩

theorem ClassRecord.StandsAs.trans {a b c : ClassRecord} (hab : a.StandsAs b) (hbc : b.StandsAs c) :
    a.StandsAs c :=
  ⟨hab.name.trans hbc.name, hab.partition.trans hbc.partition, hab.inScene.trans hbc.inScene,
    hab.isPhantom.trans hbc.isPhantom⟩

theorem ClassRecord.raise_standsAs (r : ClassRecord) (level : Level) :
    (r.raise level).StandsAs r := by
  unfold raise
  split <;> exact ⟨rfl, rfl, rfl, rfl⟩

namespace Universe

/-- What is known of a registered descriptor in each of the places. -/
structure Stands (u : Universe) (name : String) (id : ClassId) : Prop where
  made : u.catalog.IsMade id
  live : u.catalog.isLive id = true
  named : (u.record id).name = name
  inScene : (u.record id).inScene = true
  placed : ∃ p, (u.record id).partition = some p ∧ name ∈ u.registry.namesIn p ∧
    (p = .phantom ↔ (u.record id).isPhantom = true)
  numbered : ∃ number, u.numbers.classes.idOf? id = some number

/-- The registry, the partitions, the descriptors and the numbers of classes agree. -/
structure IsWellFormed (u : Universe) : Prop where
  stands : ∀ {name id}, u.find? name = some id → u.Stands name id
  held : ∀ {p name}, name ∈ u.registry.namesIn p →
    ∃ id, u.find? name = some id ∧ (u.record id).partition = some p
  nodup : ∀ p, (u.registry.namesIn p).Nodup
  outside : ∀ {id}, (∀ name, u.find? name ≠ some id) → (u.record id).IsFresh
  numbering : u.numbers.classes.IsWellFormed
  known : ∀ {id}, u.catalog.isLive id = false → u.catalog.IsMade id

theorem isWellFormed_empty (recycles allow : Bool) : (empty recycles allow).IsWellFormed where
  stands h := by simp [find?, empty, Registry.get?, Registry.empty] at h
  held {p _} h := by cases p <;> simp [empty, Registry.empty, Registry.namesIn] at h
  nodup p := by cases p <;> exact List.nodup_nil
  outside _ := ⟨rfl, rfl⟩
  numbering := Numbering.isWellFormed_empty recycles
  known h := by simp [empty, Catalog.empty, Catalog.isLive] at h

variable {u v : Universe} {name other : String} {id : ClassId}

theorem IsWellFormed.name_eq (w : u.IsWellFormed) (h : u.find? name = some id)
    (h' : u.find? other = some id) : name = other :=
  (w.stands h).named.symm.trans (w.stands h').named

theorem IsWellFormed.isLive_next (w : u.IsWellFormed) : u.catalog.isLive u.next = true := by
  cases h : u.catalog.isLive u.next with
  | true => rfl
  | false => exact absurd (w.known h) (Nat.lt_irrefl _)

theorem IsWellFormed.isManaged_iff (w : u.IsWellFormed) :
    u.isManaged id = true ↔ ∃ name, u.find? name = some id := by
  unfold isManaged
  rw [beq_iff_eq]
  refine ⟨fun h => ⟨_, h⟩, ?_⟩
  rintro ⟨name, h⟩
  rwa [(w.stands h).named]

/-! ## Changes that concern no place -/

/-- Descriptors are made and changed, but the registry, the numbers of classes and the standing of
each descriptor remain. -/
structure StandsLike (v u : Universe) : Prop where
  registry : v.registry = u.registry
  numbering : v.numbers.classes = u.numbers.classes
  made : ∀ {id}, u.catalog.IsMade id → v.catalog.IsMade id
  live : ∀ {name id}, u.find? name = some id → v.catalog.isLive id = true
  record : ∀ {id}, u.catalog.IsMade id → (v.record id).StandsAs (u.record id)
  fresh : ∀ {id}, ¬ u.catalog.IsMade id → (v.record id).IsFresh
  known : ∀ {id}, v.catalog.isLive id = false → v.catalog.IsMade id

theorem StandsLike.find? (h : v.StandsLike u) (name : String) : v.find? name = u.find? name := by
  unfold Universe.find?
  rw [h.registry]

theorem IsWellFormed.of_standsLike (w : u.IsWellFormed) (h : v.StandsLike u) : v.IsWellFormed where
  stands {name id} hf := by
    rw [h.find?] at hf
    have s := w.stands hf
    have same := h.record s.made
    refine ⟨h.made s.made, h.live hf, same.name.trans s.named, same.inScene.trans s.inScene, ?_, ?_⟩
    · rw [same.partition, same.isPhantom, h.registry]
      exact s.placed
    · rw [h.numbering]
      exact s.numbered
  held {p name} hm := by
    rw [h.registry] at hm
    obtain ⟨id, hf, hp⟩ := w.held hm
    exact ⟨id, by rw [h.find?, hf], (h.record (w.stands hf).made).partition.trans hp⟩
  nodup p := by
    rw [h.registry]
    exact w.nodup p
  outside {id} hn := by
    by_cases hm : u.catalog.IsMade id
    · have f : (u.record id).IsFresh := w.outside fun name => by
        rw [← h.find?]
        exact hn name
      exact ⟨(h.record hm).inScene.trans f.inScene, (h.record hm).partition.trans f.partition⟩
    · exact h.fresh hm
  numbering := by
    rw [h.numbering]
    exact w.numbering
  known := h.known

theorem default_isFresh : (default : ClassRecord).IsFresh := ⟨rfl, rfl⟩

theorem IsWellFormed.standsLike_withNew (w : u.IsWellFormed) {r : ClassRecord} (hr : r.IsFresh) :
    (u.withNew r).StandsLike u where
  registry := rfl
  numbering := rfl
  made hm := Catalog.isMade_make.mpr (.inl hm)
  live hf := (w.stands hf).live
  record {id} hm := by
    have hne : id ≠ (u.catalog.make r).1 := fun h => Catalog.not_isMade_new u.catalog r (h ▸ hm)
    unfold Universe.record withNew
    rw [Catalog.get_make_of_ne _ _ hne]
    exact .refl _
  fresh {id} hm := by
    unfold Universe.record withNew
    by_cases h : id = (u.catalog.make r).1
    · rw [h, Catalog.get_make_new]
      exact hr
    · rw [Catalog.get_make_of_ne _ _ h, Catalog.get_of_not_isMade hm]
      exact default_isFresh
  known h := Catalog.isMade_make.mpr (.inl (w.known h))

/-- A change of one record, whatever happens to the members that are numbered. -/
theorem IsWellFormed.standsLike_change (w : u.IsWellFormed) (id : ClassId)
    (self : u.catalog.IsMade id → (v.record id).StandsAs (u.record id))
    (others : ∀ other, other ≠ id → v.record other = u.record other)
    (size : v.catalog.records.size = u.catalog.records.size) (registry : v.registry = u.registry)
    (numbering : v.numbers.classes = u.numbers.classes)
    (released : v.catalog.released = u.catalog.released) : v.StandsLike u where
  registry := registry
  numbering := numbering
  made hm := by
    unfold Catalog.IsMade
    rw [size]
    exact hm
  live hf := by
    unfold Catalog.isLive
    rw [released]
    exact (w.stands hf).live
  record {other} hm := by
    by_cases h : other = id
    · subst h
      exact self hm
    · rw [others other h]
      exact .refl _
  fresh {other} hm := by
    have hv : ¬ v.catalog.IsMade other := by
      unfold Catalog.IsMade
      rw [size]
      exact hm
    unfold Universe.record
    rw [Catalog.get_of_not_isMade hv]
    exact default_isFresh
  known h := by
    unfold Catalog.isLive at h
    rw [released] at h
    unfold Catalog.IsMade
    rw [size]
    exact w.known h

theorem IsWellFormed.of_eq (w : u.IsWellFormed) (catalog : v.catalog = u.catalog)
    (registry : v.registry = u.registry) (numbers : v.numbers = u.numbers) : v.IsWellFormed := by
  have record (id : ClassId) : v.record id = u.record id := by
    unfold Universe.record
    rw [catalog]
  refine w.of_standsLike (w.standsLike_change u.next (fun _ => ?_) (fun id _ => record id) ?_
    registry ?_ ?_)
  · rw [record]
    exact .refl _
  · rw [catalog]
  · rw [numbers]
  · rw [catalog]

/-! ## Entering -/

theorem find?_enter (u : Universe) (id : ClassId) (name : String) :
    (u.enter id).2.find? name = if name = (u.record id).name then some id else u.find? name :=
  Registry.get?_insert _ _ _ _ _

theorem record_enter_self (made : u.catalog.IsMade id) :
    (u.enter id).2.record id =
      { (u.record id).assign (some (entryPartition (u.record id))) with inScene := true } :=
  Catalog.get_modify_self made _

theorem record_enter_of_ne {other : ClassId} (h : other ≠ id) :
    (u.enter id).2.record other = u.record other :=
  Catalog.get_modify_of_ne _ h _

theorem mem_namesIn_enter {p : Partition} :
    other ∈ (u.enter id).2.registry.namesIn p ↔ other ∈ u.registry.namesIn p ∨
      (p = entryPartition (u.record id) ∧ other = (u.record id).name) := by
  change other ∈ (u.registry.insert _ _ _).namesIn p ↔ _
  rw [Registry.namesIn_insert, Registry.mem_namesIn_put]

/-- A descriptor outside of the universe has no partition, so it enters the one of its kind. -/
theorem entryPartition_of_isFresh {r : ClassRecord} (h : r.IsFresh) :
    entryPartition r = if r.isPhantom then .phantom else .library := by
  simp [entryPartition, h.partition]

theorem IsWellFormed.isFresh_of_not_inScene (w : u.IsWellFormed)
    (h : (u.record id).inScene = false) : (u.record id).IsFresh := by
  refine w.outside fun name hf => ?_
  rw [(w.stands hf).inScene] at h
  cases h

theorem IsWellFormed.ne_of_not_inScene (w : u.IsWellFormed) {registered : ClassId}
    (h : (u.record id).inScene = false) (hf : u.find? name = some registered) :
    registered ≠ id := by
  rintro rfl
  rw [(w.stands hf).inScene] at h
  cases h

theorem IsWellFormed.ne_of_find (w : u.IsWellFormed) {registered : ClassId}
    (hname : other ≠ (u.record id).name) (hf : u.find? other = some registered) :
    registered ≠ id := by
  intro h
  subst h
  exact hname (w.stands hf).named.symm

theorem IsWellFormed.enter (w : u.IsWellFormed) (made : u.catalog.IsMade id)
    (live : u.catalog.isLive id = true) (out : (u.record id).inScene = false)
    (absent : u.find? (u.record id).name = none) : (u.enter id).2.IsWellFormed where
  stands {name registered} hf := by
    rw [find?_enter] at hf
    split at hf
    · rename_i hname
      cases hf
      have fresh := w.isFresh_of_not_inScene out
      refine ⟨Catalog.isMade_modify.mpr made, live, ?_, ?_, ?_, ?_⟩
      · rw [record_enter_self made]
        exact hname.symm
      · rw [record_enter_self made]
      · refine ⟨entryPartition (u.record id), ?_, mem_namesIn_enter.mpr (.inr ⟨rfl, hname⟩), ?_⟩
        · rw [record_enter_self made]
          rfl
        · rw [record_enter_self made, entryPartition_of_isFresh fresh]
          cases hp : (u.record id).isPhantom <;> simp [ClassRecord.assign, hp]
      · exact ⟨_, Numbering.idOf?_add_self _ w.numbering id⟩
    · have s := w.stands hf
      have hne := w.ne_of_not_inScene out hf
      refine ⟨Catalog.isMade_modify.mpr s.made, s.live, ?_, ?_, ?_, ?_⟩
      · rw [record_enter_of_ne hne]
        exact s.named
      · rw [record_enter_of_ne hne]
        exact s.inScene
      · rw [record_enter_of_ne hne]
        obtain ⟨p, hp, hm, hphantom⟩ := s.placed
        exact ⟨p, hp, mem_namesIn_enter.mpr (.inl hm), hphantom⟩
      · obtain ⟨number, hn⟩ := s.numbered
        exact ⟨number, Numbering.idOf?_add_of_live w.numbering id hn s.live⟩
  held {p name} hm := by
    rw [mem_namesIn_enter] at hm
    rcases hm with hm | ⟨rfl, rfl⟩
    · obtain ⟨registered, hf, hp⟩ := w.held hm
      have hname : name ≠ (u.record id).name := by
        rintro rfl
        rw [absent] at hf
        cases hf
      refine ⟨registered, by rw [find?_enter, if_neg hname, hf], ?_⟩
      rw [record_enter_of_ne (w.ne_of_not_inScene out hf), hp]
    · refine ⟨id, by rw [find?_enter, if_pos rfl], ?_⟩
      rw [record_enter_self made]
      rfl
  nodup p := by
    change ((u.registry.insert _ _ _).namesIn p).Nodup
    rw [Registry.namesIn_insert]
    exact Registry.nodup_namesIn_put (w.nodup p) _ _
  outside {other} hn := by
    have hne : other ≠ id := by
      rintro rfl
      exact hn (u.record other).name (by rw [find?_enter, if_pos rfl])
    rw [record_enter_of_ne hne]
    refine w.outside fun name hf => hn name ?_
    rw [find?_enter, if_neg, hf]
    rintro rfl
    rw [absent] at hf
    cases hf
  numbering := Numbering.isWellFormed_add _ w.numbering id
  known h := Catalog.isMade_modify.mpr (w.known h)

/-! ## Leaving -/

theorem find?_without (u : Universe) (id : ClassId) (name : String) :
    (u.without id).find? name = if name = (u.record id).name then none else u.find? name :=
  Registry.get?_erase _ _ _

theorem record_without_self (made : u.catalog.IsMade id) :
    (u.without id).record id = { (u.record id).assign none with inScene := false } :=
  Catalog.get_modify_self made _

theorem record_without_of_ne {other : ClassId} (h : other ≠ id) :
    (u.without id).record other = u.record other :=
  Catalog.get_modify_of_ne _ h _

theorem mem_namesIn_without {p : Partition} :
    other ∈ (u.without id).registry.namesIn p ↔
      other ∈ u.registry.namesIn p ∧ other ≠ (u.record id).name := by
  change other ∈ (u.registry.erase _).namesIn p ↔ _
  rw [Registry.namesIn_erase, Registry.mem_namesIn_takeOut]

theorem IsWellFormed.without (w : u.IsWellFormed) (found : u.find? name = some id) :
    (u.without id).IsWellFormed := by
  have s := w.stands found
  refine ⟨?_, ?_, ?_, ?_, ?_, fun h => Catalog.isMade_modify.mpr (w.known h)⟩
  · intro other registered hf
    rw [find?_without] at hf
    split at hf
    · cases hf
    rename_i hname
    have t := w.stands hf
    have hne := w.ne_of_find hname hf
    refine ⟨Catalog.isMade_modify.mpr t.made, t.live, ?_, ?_, ?_, ?_⟩
    · rw [record_without_of_ne hne]
      exact t.named
    · rw [record_without_of_ne hne]
      exact t.inScene
    · rw [record_without_of_ne hne]
      obtain ⟨p, hp, hm, hphantom⟩ := t.placed
      exact ⟨p, hp, mem_namesIn_without.mpr ⟨hm, hname⟩, hphantom⟩
    · obtain ⟨number, hn⟩ := t.numbered
      exact ⟨number, (Numbering.idOf?_remove_of_ne w.numbering hne).trans hn⟩
  · intro p other hm
    obtain ⟨hm, hname⟩ := mem_namesIn_without.mp hm
    obtain ⟨registered, hf, hp⟩ := w.held hm
    refine ⟨registered, by rw [find?_without, if_neg hname, hf], ?_⟩
    rw [record_without_of_ne (w.ne_of_find hname hf), hp]
  · intro p
    change ((u.registry.erase _).namesIn p).Nodup
    rw [Registry.namesIn_erase]
    exact Registry.nodup_namesIn_takeOut (w.nodup p) _
  · intro other hn
    by_cases hid : other = id
    · subst hid
      rw [record_without_self s.made]
      exact ⟨rfl, rfl⟩
    · rw [record_without_of_ne hid]
      refine w.outside fun name' hf => hn name' ?_
      rw [find?_without, if_neg, hf]
      rintro rfl
      rw [s.named, found] at hf
      exact hid (Option.some.inj hf).symm
  · exact Numbering.isWellFormed_remove w.numbering id

/-! ## Moving between partitions -/

theorem find?_moved (u : Universe) (id : ClassId) (p : Partition) (name : String) :
    (u.moved id p).find? name = u.find? name := by
  unfold Universe.find? moved
  dsimp only
  rw [Registry.get?_put]
  rfl

theorem record_moved_self (made : u.catalog.IsMade id) (p : Partition) :
    (u.moved id p).record id = (u.record id).assign (some p) :=
  Catalog.get_modify_self made _

theorem record_moved_of_ne {other : ClassId} (h : other ≠ id) (p : Partition) :
    (u.moved id p).record other = u.record other :=
  Catalog.get_modify_of_ne _ h _

theorem mem_namesIn_moved {p q : Partition} :
    other ∈ (u.moved id p).registry.namesIn q ↔
      (other ∈ u.registry.namesIn q ∧ other ≠ (u.record id).name) ∨
        (q = p ∧ other = (u.record id).name) := by
  unfold moved
  dsimp only
  rw [Registry.mem_namesIn_put, Registry.mem_namesIn_takeOut]

theorem IsWellFormed.moved (w : u.IsWellFormed) (found : u.find? name = some id) {p : Partition}
    (allowed : (u.record id).isPhantom = true → p = .phantom) : (u.moved id p).IsWellFormed := by
  have s := w.stands found
  refine ⟨?_, ?_, ?_, ?_, w.numbering, fun h => Catalog.isMade_modify.mpr (w.known h)⟩
  · intro other registered hf
    rw [find?_moved] at hf
    have t := w.stands hf
    by_cases hid : registered = id
    · subst hid
      have hname := t.named
      refine ⟨Catalog.isMade_modify.mpr t.made, t.live, ?_, ?_, ?_, t.numbered⟩
      · rw [record_moved_self t.made]
        exact hname
      · rw [record_moved_self t.made]
        exact t.inScene
      · refine ⟨p, by rw [record_moved_self t.made]; rfl,
          mem_namesIn_moved.mpr (.inr ⟨rfl, hname.symm⟩), ?_⟩
        rw [record_moved_self t.made]
        by_cases hp : p = .phantom
        · simp [ClassRecord.assign, hp]
        · simpa [ClassRecord.assign, hp] using fun h => hp (allowed h)
    · refine ⟨Catalog.isMade_modify.mpr t.made, t.live, ?_, ?_, ?_, t.numbered⟩
      · rw [record_moved_of_ne hid]
        exact t.named
      · rw [record_moved_of_ne hid]
        exact t.inScene
      · rw [record_moved_of_ne hid]
        obtain ⟨q, hq, hm, hphantom⟩ := t.placed
        refine ⟨q, hq, mem_namesIn_moved.mpr (.inl ⟨hm, ?_⟩), hphantom⟩
        rintro rfl
        rw [s.named, found] at hf
        exact hid (Option.some.inj hf).symm
  · intro q other hm
    rw [mem_namesIn_moved] at hm
    rcases hm with ⟨hm, hname⟩ | ⟨rfl, rfl⟩
    · obtain ⟨registered, hf, hq⟩ := w.held hm
      refine ⟨registered, by rw [find?_moved, hf], ?_⟩
      rw [record_moved_of_ne (w.ne_of_find hname hf), hq]
    · refine ⟨id, by rw [find?_moved, s.named, found], ?_⟩
      rw [record_moved_self s.made]
      rfl
  · intro q
    exact Registry.nodup_namesIn_put (Registry.nodup_namesIn_takeOut (w.nodup q) _) _ _
  · intro other hn
    have hid : other ≠ id := by
      rintro rfl
      exact hn name (by rw [find?_moved, found])
    rw [record_moved_of_ne hid]
    exact w.outside fun name' hf => hn name' (by rw [find?_moved, hf])

end Universe

end ClassUniverse
