import ClassUniverse.Proofs.Hierarchy.Orderly
import ClassUniverse.Proofs.Universe.Changes

/-!
# The number of changes as a tally

The number of changes grows by the number of classes that a call registers or removes.  Resolution
registers classes behind those that are there and removes none, so that a run that has not changed
the number has not changed what is registered, nor in which order.
-/

namespace ClassUniverse

namespace OrderedMap

variable {α : Type} {m : OrderedMap α} {key : String} {value : α}

theorem eq_of_entries {a b : OrderedMap α} (same : a.entries = b.entries) : a = b := by
  cases a
  cases b
  cases same
  rfl

theorem entries_insert_of_none (absent : m.get? key = none) :
    (m.insert key value).entries = m.entries ++ [(key, value)] := by
  unfold insert
  rw [dif_neg (get?_eq_none_iff m |>.mp absent)]

end OrderedMap

namespace Universe

variable {u v w : Universe} {name : String} {id : ClassId}

/-- The descriptors that are registered in one universe and not in another. -/
def onlyIn (v u : Universe) : List ClassId := v.registry.ids.filter (· ∉ u.registry.ids)

/-- A change that counts the classes that come or go. -/
def Tallies (u v : Universe) : Prop :=
  v.registry.changes = u.registry.changes + (v.onlyIn u).length + (u.onlyIn v).length

/-! ## Classes that come -/

/-- A change that registers classes behind those that are there, and counts them. -/
def Extends (u v : Universe) : Prop :=
  ∃ newcomers, v.registry.classes.entries = u.registry.classes.entries ++ newcomers ∧
    v.registry.changes = u.registry.changes + newcomers.length

namespace Extends

theorem of_eq (classes : v.registry.classes = u.registry.classes)
    (changes : v.registry.changes = u.registry.changes) : u.Extends v :=
  ⟨[], by rw [classes, List.append_nil], changes⟩

theorem refl (u : Universe) : u.Extends u := of_eq rfl rfl

theorem trans (h : u.Extends v) (k : v.Extends w) : u.Extends w := by
  obtain ⟨first, classes, changes⟩ := h
  obtain ⟨second, classes', changes'⟩ := k
  refine ⟨first ++ second, ?_, ?_⟩
  · rw [classes', classes, List.append_assoc]
  · rw [changes', changes, List.length_append, Nat.add_assoc]

/-- A change that counts nothing leaves the registered classes as they are. -/
theorem classes_eq (h : u.Extends v) (same : v.registry.changes = u.registry.changes) :
    v.registry.classes = u.registry.classes := by
  obtain ⟨newcomers, classes, changes⟩ := h
  have none : newcomers = [] := List.length_eq_zero_iff.mp (by omega)
  rw [none, List.append_nil] at classes
  exact OrderedMap.eq_of_entries classes

theorem tallies (h : u.Extends v) (wf : v.IsWellFormed) : u.Tallies v := by
  obtain ⟨newcomers, classes, changes⟩ := h
  have ids : v.registry.ids = u.registry.ids ++ newcomers.map Prod.snd := by
    unfold Registry.ids OrderedMap.values
    rw [classes, List.map_append]
  have nodup := wf.nodup_ids
  rw [ids, List.nodup_append] at nodup
  obtain ⟨-, -, apart⟩ := nodup
  have came : v.onlyIn u = newcomers.map Prod.snd := by
    unfold onlyIn
    rw [ids, List.filter_append, List.filter_eq_nil_iff.mpr, List.filter_eq_self.mpr]
    · rfl
    · exact fun id hm => decide_eq_true fun old => apart id old id hm rfl
    · exact fun id hm => by simpa using hm
  have gone : u.onlyIn v = [] := by
    unfold onlyIn
    rw [ids]
    exact List.filter_eq_nil_iff.mpr fun id hm => by simp [hm]
  unfold Tallies
  rw [came, gone, changes, List.length_map]
  rfl

end Extends

theorem extends_enter (absent : u.find? (u.record id).name = none) :
    u.Extends (u.enter id).2 := by
  refine ⟨[((u.record id).name, id)], ?_, ?_⟩
  · change ((u.registry.put _ _).classes.insert _ id).entries = _
    rw [Registry.classes_put]
    exact OrderedMap.entries_insert_of_none absent
  · exact changes_enter u id

theorem extends_moved (u : Universe) (id : ClassId) (p : Partition) : u.Extends (u.moved id p) :=
  .of_eq (Registry.classes_put _ _ _) (Registry.changes_put _ _ _)

theorem extends_haunted (new : u.find? name = none) : u.Extends (u.haunted name) := by
  apply extends_enter (u := u.withNew (.phantom name))
  rw [record_next]
  exact new

theorem extends_register {d : ClassDefinition} {a : Addition} (new : u.find? d.name = none) :
    u.Extends (u.register d a) := by
  have lifted : u.Extends ((u.withNew (.ofDefinition d)).lift d u.next a) :=
    .of_eq (by rw [registry_lift]; rfl) (by rw [registry_lift]; rfl)
  apply lifted.trans
  apply extends_enter
  rw [record_next_standsAs.name, find?_lift]
  exact new

/-! ## Classes that go -/

theorem ids_without (wf : u.IsWellFormed) (managed : u.isManaged id = true) :
    (u.without id).registry.ids = u.registry.ids.filter (· != id) := by
  have found : u.find? (u.record id).name = some id := by
    obtain ⟨name, found⟩ := wf.isManaged_iff.mp managed
    rwa [(wf.stands found).named]
  change ((u.registry.classes.entries.filter _).map Prod.snd) =
    (u.registry.classes.entries.map Prod.snd).filter _
  rw [List.filter_map]
  congr 1
  apply List.filter_congr
  rintro ⟨name, other⟩ he
  have found' : u.find? name = some other := (OrderedMap.get?_eq_some_iff _).mpr he
  rw [Function.comp_apply, Bool.eq_iff_iff, bne_iff_ne, bne_iff_ne]
  exact not_congr (wf.eq_iff_name_eq found' found).symm

theorem tallies_without (wf : u.IsWellFormed) (managed : u.isManaged id = true) :
    u.Tallies (u.without id) := by
  have ids := ids_without wf managed
  have there : id ∈ u.registry.ids := Registry.mem_ids_iff.mpr (wf.isManaged_iff.mp managed)
  have came : (u.without id).onlyIn u = [] := by
    unfold onlyIn
    rw [ids]
    refine List.filter_eq_nil_iff.mpr fun other hm => ?_
    simp [(List.mem_filter.mp hm).1]
  have gone : (u.onlyIn (u.without id)).length = 1 := by
    rw [← List.count_eq_one_of_mem wf.nodup_ids there, List.count_eq_length_filter]
    unfold onlyIn
    rw [ids]
    congr 1
    apply List.filter_congr
    intro other hm
    rw [Bool.eq_iff_iff]
    simp [hm]
  unfold Tallies
  rw [came, gone]
  rfl

end Universe

open Universe

variable {u v : Universe} {s : Supply} {floor : Level}

theorem Move.extends (m : Move s floor u v) : u.Extends v := by
  cases m with
  | ask => exact .of_eq rfl rfl
  | demote absent found allowed below => exact extends_moved u _ _
  | phantom absent new allowed => exact extends_haunted new
  | register a given above new ready => exact extends_register new
  | lift a given above found below ready =>
      exact .of_eq (by rw [registry_lift]) (by rw [registry_lift])

theorem Moves.extends (m : Moves s floor u v) : u.Extends v := by
  induction m with
  | refl => exact .refl u
  | tail _ step ih => exact ih.trans step.extends

/-! ## Calls and runs -/

namespace Call

/-- A call registers classes behind the others, or removes one. -/
theorem extends_or_leaves (wf : u.IsWellFormed) (c : Call) : u.Extends (c.run u) ∨
    ∃ id, u.isManaged id = true ∧ c.run u = u.without id := by
  have does := does_run wf c
  generalize c.run u = v at does ⊢
  cases does with
  | nothing => exact .inl (.refl u)
  | make | edit | close | letGo => exact .inl (.of_eq rfl rfl)
  | enter id made live out absent => exact .inl (extends_enter absent)
  | leave id managed => exact .inr ⟨id, managed, rfl⟩
  | move id p => exact .inl (extends_moved u id p)
  | haunt name absent => exact .inl (extends_haunted absent)
  | resolve s q moves => exact .inl moves.extends

theorem tallies (wf : u.IsWellFormed) (c : Call) : u.Tallies (c.run u) := by
  rcases extends_or_leaves wf c with ext | ⟨id, managed, gone⟩
  · exact ext.tallies (c.isWellFormed_run wf)
  · rw [gone]
    exact tallies_without wf managed

theorem classes_run (wf : u.IsWellFormed) (c : Call)
    (same : (c.run u).registry.changes = u.registry.changes) :
    (c.run u).registry.classes = u.registry.classes := by
  rcases extends_or_leaves wf c with ext | ⟨id, managed, gone⟩
  · exact ext.classes_eq same
  · -- a class that goes is counted
    rw [gone] at same
    exact absurd same (Nat.succ_ne_self _)

end Call

theorem changes_le_run (wf : u.IsWellFormed) (calls : List Call) :
    u.registry.changes ≤ (run calls u).registry.changes := by
  induction calls generalizing u with
  | nil => exact Nat.le_refl _
  | cons c calls ih => exact Nat.le_trans (c.changes_le wf) (ih (c.isWellFormed_run wf))

theorem classes_run (wf : u.IsWellFormed) (calls : List Call)
    (same : (run calls u).registry.changes = u.registry.changes) :
    (run calls u).registry.classes = u.registry.classes := by
  induction calls generalizing u with
  | nil => rfl
  | cons c calls ih =>
      have wf' := c.isWellFormed_run wf
      have first := c.changes_le wf
      have rest := changes_le_run wf' calls
      change (run calls (c.run u)).registry.changes = _ at same
      have still := ih wf' (by omega)
      exact still.trans (c.classes_run wf (by omega))

/-- Between two moments of a run with the same number of changes nothing comes or goes. -/
theorem classes_take (wf : u.IsWellFormed) (calls : List Call) {k l : Nat}
    (same : (run (calls.take k) u).registry.changes = (run (calls.take l) u).registry.changes) :
    (run (calls.take k) u).registry.classes = (run (calls.take l) u).registry.classes := by
  wlog order : k ≤ l generalizing k l
  · exact (this same.symm (Nat.le_of_not_le order)).symm
  have between : run (calls.take l) u = run ((calls.take l).drop k) (run (calls.take k) u) := by
    rw [← run_append]
    congr 1
    have front : calls.take k = (calls.take l).take k := by
      rw [List.take_take, Nat.min_eq_left order]
    rw [front, List.take_append_drop]
  rw [between] at same ⊢
  exact (classes_run (isWellFormed_run wf _) _ same.symm).symm

/-! ## Calls that fail -/

namespace Universe

/-- A call to the registry that fails, and the universe that it leaves. -/
inductive Refuses (u v : Universe) (e : Error) : Prop
  | add (id : ClassId) (fails : addClass id u = .error e v)
  | remove (id : ClassId) (fails : removeClass id u = .error e v)
  | reclassify (id : ClassId) (p : Partition) (fails : reclassify id p u = .error e v)
  | phantom (name : String) (fails : getOrCreatePhantom name u = .error e v)

theorem Refuses.eq {e : Error} (h : u.Refuses v e) : v = u := by
  cases h with
  | add id fails =>
      rw [addClass_apply] at fails
      split at fails <;> cases fails
      rfl
  | remove id fails =>
      rw [removeClass_apply] at fails
      split at fails <;> cases fails
      rfl
  | reclassify id p fails =>
      rw [reclassify_apply] at fails
      split at fails
      · cases fails
        rfl
      · split at fails <;> cases fails
        rfl
  | phantom name fails =>
      have left : after (getOrCreatePhantom name) u = v := by
        unfold after
        rw [fails]
      rw [after_getOrCreatePhantom] at left
      split at left
      · rename_i new
        rw [getOrCreatePhantom_of_new new.1 new.2] at fails
        cases fails
      · exact left.symm

/-- In every universe of a run the number of changes grows by the classes that a call registers and
those that it removes, a call to the registry that fails leaves the universe as it is, and two
moments with the same number have the same classes in the same order. -/
theorem changes_tally (recycles allowPhantoms : Bool) (calls : List Call) :
    let u := run calls (.empty recycles allowPhantoms)
    let moment k := run (calls.take k) (.empty recycles allowPhantoms)
    (∀ c : Call, (c.run u).registry.changes =
        u.registry.changes + ((c.run u).onlyIn u).length + (u.onlyIn (c.run u)).length) ∧
      (∀ v e, u.Refuses v e → v = u) ∧
      ∀ k l, (moment k).registry.changes = (moment l).registry.changes →
        (moment k).registry.classes = (moment l).registry.classes := by
  intro u moment
  have wf := isWellFormed_empty recycles allowPhantoms
  have wf' : u.IsWellFormed := isWellFormed_run wf calls
  exact ⟨fun c => c.tallies wf', fun v e h => h.eq, fun k l same => classes_take wf calls same⟩

end Universe

end ClassUniverse
