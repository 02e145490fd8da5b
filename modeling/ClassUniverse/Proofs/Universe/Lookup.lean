import ClassUniverse.Proofs.Operation
import ClassUniverse.Universe

/-!
# Descriptors and names after a change

What the catalog knows of each descriptor, and what the registry has under each name and in each
partition, after each of the changes that an operation on a universe is made of.
-/

namespace ClassUniverse

theorem mem_appendNew {names : List String} {name other : String} :
    other ∈ appendNew names name ↔ other ∈ names ∨ other = name := by
  unfold appendNew
  by_cases h : name ∈ names
  · rw [if_pos h]
    refine ⟨Or.inl, ?_⟩
    rintro (hm | rfl)
    · exact hm
    · exact h
  · simp [if_neg h]

theorem mem_foldl_appendNew (names seen : List String) {name : String} :
    name ∈ names.foldl appendNew seen ↔ name ∈ seen ∨ name ∈ names := by
  induction names generalizing seen with
  | nil => simp
  | cons first names ih => rw [List.foldl_cons, ih, mem_appendNew, List.mem_cons, or_assoc]

@[simp] theorem mem_firstOccurrences {names : List String} {name : String} :
    name ∈ firstOccurrences names ↔ name ∈ names := by
  simp [firstOccurrences, mem_foldl_appendNew]

/-! ## The catalog -/

namespace Catalog

/-- A descriptor that has been made. -/
def IsMade (c : Catalog) (id : ClassId) : Prop := id.serial < c.records.size

instance (c : Catalog) (id : ClassId) : Decidable (c.IsMade id) :=
  inferInstanceAs (Decidable (_ < _))

theorem get_of_not_isMade {c : Catalog} {id : ClassId} (h : ¬ c.IsMade id) :
    c.get id = default := by
  unfold IsMade at h
  simp [get, Array.getElem?_eq_none (Nat.le_of_not_lt h)]

theorem get_modify_self {c : Catalog} {id : ClassId} (h : c.IsMade id)
    (change : ClassRecord → ClassRecord) : (c.modify id change).get id = change (c.get id) := by
  simp [get, modify, Array.getElem?_modify, Array.getElem?_eq_getElem h]

theorem get_modify_of_ne (c : Catalog) {id other : ClassId} (h : other ≠ id)
    (change : ClassRecord → ClassRecord) : (c.modify id change).get other = c.get other := by
  have hs : ¬ id.serial = other.serial := fun hs => h (by cases id; cases other; simp_all)
  simp [get, modify, Array.getElem?_modify, hs]

theorem isMade_modify {c : Catalog} {id other : ClassId} {change : ClassRecord → ClassRecord} :
    (c.modify id change).IsMade other ↔ c.IsMade other := by
  simp [IsMade, modify]

theorem get_make_new (c : Catalog) (r : ClassRecord) : (c.make r).2.get (c.make r).1 = r := by
  simp [get, make]

theorem get_make_of_ne (c : Catalog) (r : ClassRecord) {id : ClassId} (h : id ≠ (c.make r).1) :
    (c.make r).2.get id = c.get id := by
  have hs : ¬ id.serial = c.records.size := fun hs => h (by cases id; simp_all [make])
  simp [get, make, Array.getElem?_push, hs]

theorem isMade_make {c : Catalog} {r : ClassRecord} {id : ClassId} :
    (c.make r).2.IsMade id ↔ c.IsMade id ∨ id = (c.make r).1 := by
  obtain ⟨serial⟩ := id
  simp only [IsMade, make, Array.size_push, ClassId.mk.injEq]
  omega

theorem not_isMade_new (c : Catalog) (r : ClassRecord) : ¬ c.IsMade (c.make r).1 :=
  Nat.lt_irrefl _

end Catalog

/-! ## The registry -/

namespace Registry

theorem get?_insert (r : Registry) (name other : String) (id : ClassId) (p : Partition) :
    (r.insert name id p).get? other = if other = name then some id else r.get? other := by
  cases p <;> exact OrderedMap.get?_insert _ name other id

theorem get?_erase (r : Registry) (name other : String) :
    (r.erase name).get? other = if other = name then none else r.get? other :=
  OrderedMap.get?_erase _ name other

theorem get?_put (r : Registry) (name other : String) (p : Partition) :
    (r.put name p).get? other = r.get? other := by
  cases p <;> rfl

theorem contains_eq_isSome (r : Registry) (name : String) :
    r.contains name = (r.get? name).isSome := by
  rw [Bool.eq_iff_iff]
  unfold contains get?
  rw [OrderedMap.contains_iff, OrderedMap.mem_keys_iff, Option.isSome_iff_exists]

theorem mem_namesIn_put {r : Registry} {name other : String} {p q : Partition} :
    other ∈ (r.put name p).namesIn q ↔ other ∈ r.namesIn q ∨ (q = p ∧ other = name) := by
  cases p <;> cases q <;> simp [put, namesIn, mem_appendNew]

theorem mem_namesIn_takeOut {r : Registry} {name other : String} {q : Partition} :
    other ∈ (r.takeOut name).namesIn q ↔ other ∈ r.namesIn q ∧ other ≠ name := by
  cases q <;> simp [takeOut, namesIn]

theorem nodup_namesIn_put {r : Registry} {q : Partition} (h : (r.namesIn q).Nodup) (name : String)
    (p : Partition) : ((r.put name p).namesIn q).Nodup := by
  cases p <;> cases q <;> first
    | exact nodup_appendNew h name
    | exact h

theorem nodup_namesIn_takeOut {r : Registry} {q : Partition} (h : (r.namesIn q).Nodup)
    (name : String) : ((r.takeOut name).namesIn q).Nodup := by
  cases q <;> exact h.sublist List.filter_sublist

theorem namesIn_insert (r : Registry) (name : String) (id : ClassId) (p q : Partition) :
    (r.insert name id p).namesIn q = (r.put name p).namesIn q := by
  cases q <;> rfl

theorem namesIn_erase (r : Registry) (name : String) (q : Partition) :
    (r.erase name).namesIn q = (r.takeOut name).namesIn q := by
  cases q <;> rfl

theorem mem_ids_iff {r : Registry} {id : ClassId} : id ∈ r.ids ↔ ∃ name, r.get? name = some id :=
  OrderedMap.mem_values_iff _

end Registry

/-! ## Operations of a universe -/

namespace Universe

/-- The universe with a further descriptor. -/
def withNew (u : Universe) (r : ClassRecord) : Universe :=
  { u with catalog := (u.catalog.make r).2 }

/-- The descriptor that is made next. -/
def next (u : Universe) : ClassId := ⟨u.catalog.records.size⟩

/-- The universe with the record of a descriptor changed. -/
def change (u : Universe) (id : ClassId) (f : ClassRecord → ClassRecord) : Universe :=
  { u with catalog := u.catalog.modify id f }

/-- The universe without a registered descriptor. -/
def without (u : Universe) (id : ClassId) : Universe :=
  { u with
    catalog := u.catalog.modify id fun r => { r.assign none with inScene := false }
    registry := u.registry.erase (u.record id).name
    numbers := u.numbers.removeClass u.catalog id }

/-- The universe with a registered descriptor in a partition. -/
def moved (u : Universe) (id : ClassId) (p : Partition) : Universe :=
  { u with
    catalog := u.catalog.modify id (·.assign (some p))
    registry := (u.registry.takeOut (u.record id).name).put (u.record id).name p }

theorem make_apply (u : Universe) (r : ClassRecord) : make r u = .ok u.next (u.withNew r) := rfl

theorem addClass_apply (u : Universe) (id : ClassId) :
    addClass id u =
      if (u.record id).inScene || u.registry.contains (u.record id).name then
        .error (.duplicateClass (u.record id).name) u
      else .ok (u.enter id).1 (u.enter id).2 := by
  simp only [addClass, bind_apply, get_apply]
  split <;> rfl

theorem removeClass_apply (u : Universe) (id : ClassId) :
    removeClass id u =
      if u.isManaged id then .ok () (u.without id)
      else .error (.notManaged (u.record id).name) u := by
  simp only [removeClass, bind_apply, get_apply]
  cases u.isManaged id <;> rfl

theorem reclassify_apply (u : Universe) (id : ClassId) (p : Partition) :
    reclassify id p u =
      if !u.isManaged id then .error (.notManaged (u.record id).name) u
      else if (u.record id).isPhantom && p != .phantom then
        .error (.configuration (.phantomPromotion (u.record id).name p)) u
      else .ok () (u.moved id p) := by
  simp only [reclassify, bind_apply, get_apply]
  cases u.isManaged id
  · rfl
  · cases (u.record id).isPhantom && p != .phantom <;> rfl

theorem expect_apply (u : Universe) (name : String) :
    expect name u = match u.find? name with
      | some id => .ok id u
      | none => .error (.classNotFound name) u := by
  simp only [expect, bind_apply, get_apply]
  cases u.find? name <;> rfl

end Universe

end ClassUniverse
