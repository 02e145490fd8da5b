import ClassUniverse.Proofs.Universe.Lookup

/-!
# The members of the catalog

A member is told from others by its serial number, and so is a loaded body.  This works as long as
no two methods share a number and no body is loaded under a number that a later member gets.
-/

namespace ClassUniverse

namespace Catalog

/-- Methods have serial numbers of their own, and these and the numbers of loaded bodies are in
use. -/
structure IsCounted (c : Catalog) : Prop where
  below : ∀ {id m}, m ∈ (c.get id).methods → m.serial < c.membersMade
  apart : ∀ {id other m m'}, m ∈ (c.get id).methods → m' ∈ (c.get other).methods →
    m.serial = m'.serial → id = other ∧ m = m'
  loaded : ∀ {serial}, serial ∈ c.loadedBodies → serial < c.membersMade

variable {c c' : Catalog} {id other : ClassId} {d : ClassDefinition} {m : Method}

theorem isCounted_empty : Catalog.empty.IsCounted where
  below h := nomatch h
  apart h := nomatch h
  loaded h := nomatch h

theorem IsCounted.of_methods (h : c.IsCounted)
    (methods : ∀ id, (c'.get id).methods = (c.get id).methods)
    (made : c'.membersMade = c.membersMade) (loaded : c'.loadedBodies = c.loadedBodies) :
    c'.IsCounted where
  below hm := by
    rw [methods] at hm
    rw [made]
    exact h.below hm
  apart hm hm' := by
    rw [methods] at hm hm'
    exact h.apart hm hm'
  loaded hs := by
    rw [loaded] at hs
    rw [made]
    exact h.loaded hs

theorem methods_modify {change : ClassRecord → ClassRecord}
    (same : ∀ r, (change r).methods = r.methods) (c : Catalog) (id other : ClassId) :
    ((c.modify id change).get other).methods = (c.get other).methods := by
  by_cases h : other = id
  · subst h
    by_cases made : c.IsMade other
    · rw [get_modify_self made, same]
    · rw [get_of_not_isMade made, get_of_not_isMade (isMade_modify.not.mpr made)]
  · rw [get_modify_of_ne _ h]

theorem methods_make {r : ClassRecord} (none : r.methods = []) (c : Catalog) (id : ClassId) :
    ((c.make r).2.get id).methods = (c.get id).methods := by
  by_cases h : id = (c.make r).1
  · subst h
    rw [get_make_new, get_of_not_isMade (not_isMade_new c r), none]
    rfl
  · rw [get_make_of_ne _ _ h]

theorem IsCounted.modify {change : ClassRecord → ClassRecord} (h : c.IsCounted) (id : ClassId)
    (same : ∀ r, (change r).methods = r.methods) : (c.modify id change).IsCounted :=
  h.of_methods (methods_modify same c id) rfl rfl

theorem hasBody_eq_true_iff : c.hasBody m = true ↔ m.serial ∈ c.loadedBodies := by
  simp [hasBody]

/-! ## Installed members -/

/-- The methods that a definition gives a class, where the next member has a given number. -/
theorem mem_numbered {serial : Nat} {name : String} :
    m ∈ ((d.methods.zipIdx serial).map fun (m, serial) => (⟨serial, name, m⟩ : Method)) ↔
      serial ≤ m.serial ∧ d.methods[m.serial - serial]? = some m.definition ∧
        m.declaringClass = name := by
  obtain ⟨number, declaringClass, definition⟩ := m
  simp only [List.mem_map, Prod.exists, Method.mk.injEq, List.mk_mem_zipIdx_iff_le_and_getElem?_sub]
  constructor
  · rintro ⟨_, _, ⟨hl, hg⟩, rfl, rfl, rfl⟩
    exact ⟨hl, hg, rfl⟩
  · rintro ⟨hl, hg, rfl⟩
    exact ⟨definition, number, ⟨hl, hg⟩, rfl, rfl, rfl⟩

theorem methods_installMembers_self (made : c.IsMade id) :
    ((c.installMembers id d).get id).methods =
      (d.methods.zipIdx (c.membersMade + d.fields.length)).map fun (m, serial) =>
        ⟨serial, c.nameOf id, m⟩ := by
  have he := get_modify_self made fun r => { r with
    fields := d.fields.zipIdx c.membersMade |>.map fun p => ⟨p.2, c.nameOf id, p.1⟩
    methods := d.methods.zipIdx (c.membersMade + d.fields.length) |>.map fun p =>
      ⟨p.2, c.nameOf id, p.1⟩ }
  exact congrArg ClassRecord.methods he

theorem IsCounted.installMembers (h : c.IsCounted) (made : c.IsMade id) :
    (c.installMembers id d).IsCounted := by
  have membersMade : (c.installMembers id d).membersMade =
      c.membersMade + d.fields.length + d.methods.length := rfl
  have others {other : ClassId} (hne : other ≠ id) :
      (c.installMembers id d).get other = c.get other := get_modify_of_ne c hne _
  have fresh {m : Method} (hm : m ∈ ((c.installMembers id d).get id).methods) :
      c.membersMade ≤ m.serial := by
    rw [methods_installMembers_self made, mem_numbered] at hm
    omega
  refine ⟨fun {other m} hm => ?_, fun {a b m m'} hm hm' hs => ?_, fun {serial} hs => ?_⟩
  · rw [membersMade]
    by_cases hid : other = id
    · subst hid
      rw [methods_installMembers_self made, mem_numbered] at hm
      obtain ⟨bound, -⟩ := List.getElem?_eq_some_iff.mp hm.2.1
      omega
    · rw [others hid] at hm
      have := h.below hm
      omega
  · by_cases ha : a = id
    · by_cases hb : b = id
      · subst ha hb
        refine ⟨rfl, ?_⟩
        rw [methods_installMembers_self made, mem_numbered] at hm hm'
        obtain ⟨serial, declaringClass, definition⟩ := m
        obtain ⟨serial', declaringClass', definition'⟩ := m'
        simp only at hs hm hm'
        subst hs
        have same := Option.some.inj (hm.2.1.symm.trans hm'.2.1)
        rw [same, hm.2.2, hm'.2.2]
      · subst ha
        rw [others hb] at hm'
        have := fresh hm
        have := h.below hm'
        omega
    · rw [others ha] at hm
      by_cases hb : b = id
      · subst hb
        have := fresh hm'
        have := h.below hm
        omega
      · rw [others hb] at hm'
        exact h.apart hm hm' hs
  · rw [membersMade]
    have := h.loaded hs
    omega

/-- The bodies of new methods are not loaded. -/
theorem IsCounted.hasBody_installMembers (h : c.IsCounted) (made : c.IsMade id)
    (hm : m ∈ ((c.installMembers id d).get id).methods) :
    (c.installMembers id d).hasBody m = false := by
  rw [methods_installMembers_self made, mem_numbered] at hm
  have absent : m.serial ∉ c.loadedBodies := fun hs => by
    have := h.loaded hs
    omega
  rw [Bool.eq_false_iff, Ne, hasBody_eq_true_iff]
  exact absent

/-! ## Loaded bodies -/

theorem mem_loadedBodies_loadBodies {serial : Nat} :
    serial ∈ (c.loadBodies id).loadedBodies ↔ serial ∈ c.loadedBodies ∨
      ∃ m ∈ (c.get id).methods, m.definition.hasBody = true ∧ m.serial = serial := by
  simp only [loadBodies, List.mem_append, List.mem_filter, List.mem_map, Bool.not_eq_true',
    List.contains_eq_mem, decide_eq_false_iff_not]
  constructor
  · rintro (⟨⟨m, ⟨hm, hb⟩, rfl⟩, -⟩ | hs)
    · exact .inr ⟨m, hm, hb, rfl⟩
    · exact .inl hs
  · rintro (hs | ⟨m, hm, hb, rfl⟩)
    · exact .inr hs
    · by_cases hs : m.serial ∈ c.loadedBodies
      · exact .inr hs
      · exact .inl ⟨⟨m, ⟨hm, hb⟩, rfl⟩, hs⟩

theorem IsCounted.loadBodies (h : c.IsCounted) (id : ClassId) : (c.loadBodies id).IsCounted where
  below := h.below
  apart := h.apart
  loaded hs := by
    rcases mem_loadedBodies_loadBodies.mp hs with hs | ⟨m, hm, -, rfl⟩
    · exact h.loaded hs
    · exact h.below hm

theorem IsCounted.hasBody_loadBodies_self (h : c.IsCounted) (hm : m ∈ (c.get id).methods) :
    (c.loadBodies id).hasBody m = (c.hasBody m || m.definition.hasBody) := by
  rw [Bool.eq_iff_iff, Bool.or_eq_true, hasBody_eq_true_iff, hasBody_eq_true_iff,
    mem_loadedBodies_loadBodies]
  refine or_congr_right ⟨?_, fun hb => ⟨m, hm, hb, rfl⟩⟩
  rintro ⟨m', hm', hb, hs⟩
  rwa [(h.apart hm' hm hs).2] at hb

theorem IsCounted.hasBody_loadBodies_of_ne (h : c.IsCounted) (hne : other ≠ id)
    (hm : m ∈ (c.get other).methods) : (c.loadBodies id).hasBody m = c.hasBody m := by
  rw [Bool.eq_iff_iff, hasBody_eq_true_iff, hasBody_eq_true_iff, mem_loadedBodies_loadBodies,
    or_iff_left]
  rintro ⟨m', hm', -, hs⟩
  exact hne (h.apart hm hm' hs.symm).1

end Catalog

end ClassUniverse
