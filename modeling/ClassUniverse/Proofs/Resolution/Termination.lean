import ClassUniverse.Proofs.Resolution.Spec

/-!
# Resolution ends

A name is resolved along a path of names, up to a greatest length of the path.  The names on a path
are different and have definitions, so where no more names have definitions than the supply says,
the greatest length is never reached: whatever was to be done there, resolution does the same.
-/

namespace ClassUniverse

namespace Supply

/-- A path of different names that have definitions. -/
structure IsPath (s : Supply) (path : List String) : Prop where
  nodup : path.Nodup
  defined : ∀ name ∈ path, ∃ d, s.lookup name = .ok (some d)

/-- Whether no more names have definitions than a supply says. -/
def IsBounded (s : Supply) : Prop := ∀ path, s.IsPath path → path.length ≤ s.size

variable {s : Supply} {path : List String} {name : String} {d : ClassDefinition}

theorem isPath_nil (s : Supply) : s.IsPath [] := ⟨List.nodup_nil, by simp⟩

theorem IsPath.snoc (h : s.IsPath path) (given : s.lookup name = .ok (some d)) (new : name ∉ path) :
    s.IsPath (path ++ [name]) where
  nodup := by
    rw [List.nodup_append]
    refine ⟨h.nodup, by simp, ?_⟩
    rintro other hm _ hn rfl
    rw [List.mem_singleton] at hn
    exact new (hn ▸ hm)
  defined other hm := by
    rcases List.mem_append.mp hm with hm | hm
    · exact h.defined other hm
    · rw [List.mem_singleton] at hm
      exact ⟨d, hm ▸ given⟩

end Supply

theorem MemorySource.isBounded_supply (m : MemorySource) : m.supply.IsBounded := by
  intro path h
  have sub : path ⊆ m.definitions.keys := by
    intro name hm
    obtain ⟨d, given⟩ := h.defined name hm
    exact (OrderedMap.mem_keys_iff _).mpr ⟨d, Except.ok.inj given⟩
  calc path.length ≤ m.definitions.keys.length := h.nodup.length_le_of_subset sub
    _ = m.supply.size := List.length_map _

namespace Universe

variable {s : Supply} {mode : Mode} {path : List String} {name : String} {level : Level}
  {d : ClassDefinition} {u v : Universe}

/-- Resolves a name along a path, and does something else where the length runs out. -/
def resolveAlongOr (stop : String → Action ClassId) (s : Supply) (mode : Mode) :
    (length : Nat) → (path : List String) → (name : String) → Action ClassId
  | 0, _, name => stop name
  | length + 1, path, name => do
      match ← prepare s mode path name .hierarchy with
      | .inl id => return id
      | .inr d =>
          linkSupertypes (resolveAlongOr stop s mode length (path ++ [name])) d
          expect name

/-- Resolves a name to a level, and does something else where a length runs out. -/
def resolveOr (stop : String → Action ClassId) (s : Supply) (mode : Mode) (name : String)
    (level : Level) : Action ClassId :=
  resolveBy (resolveAlongOr stop s mode s.size [name]) (resolveAlongOr stop s mode (s.size + 1) [])
    s mode name level

theorem demand_eq_inr (h : demand s name u = .ok (.inr d) v) : s.lookup name = .ok (some d) := by
  simp only [demand, bind_apply, ask_apply] at h
  cases hl : s.lookup name with
  | error e => simp [hl] at h
  | ok found =>
      cases found with
      | some d' =>
          simp only [hl, pure_apply, EStateM.Result.ok.injEq, Sum.inr.injEq] at h
          rw [h.1]
      | none =>
          simp only [hl, bind_apply] at h
          split at h <;> cases h

/-- A definition to load a class from is only given for a name that is not on the path. -/
theorem prepare_eq_inr (h : prepare s mode path name level u = .ok (.inr d) v) :
    s.lookup name = .ok (some d) ∧ name ∉ path := by
  by_cases served : ∃ id, u.Serves name level id
  · obtain ⟨id, served⟩ := served
    rw [prepare_of_serves served] at h
    cases h
  · rw [prepare_of_not_serves (not_exists.mp served), seek_apply] at h
    split at h
    · cases h
    · rename_i off
      split at h
      · cases h
      · exact ⟨demand_eq_inr h, by simpa using off⟩

/-- Nothing is done where a length runs out, as the path has become too long before. -/
theorem resolveAlongOr_eq (stop : String → Action ClassId) (bounded : s.IsBounded) {length : Nat}
    (isPath : s.IsPath path) (long : s.size < path.length + length) :
    resolveAlongOr stop s mode length path = resolveAlong s mode length path := by
  induction length generalizing path with
  | zero =>
      have := bounded path isPath
      omega
  | succ length ih =>
      funext name u
      simp only [resolveAlongOr, resolveAlong, bind_apply]
      cases prepared : prepare s mode path name .hierarchy u with
      | error e v => rfl
      | ok found v =>
          cases found with
          | inl id => rfl
          | inr d =>
              obtain ⟨given, new⟩ := prepare_eq_inr prepared
              have longer : s.size < (path ++ [name]).length + length := by
                rw [List.length_append, List.length_singleton]
                omega
              simp only [ih (isPath.snoc given new) longer]

theorem resolveOr_eq (stop : String → Action ClassId) (bounded : s.IsBounded) (mode : Mode)
    (name : String) (level : Level) :
    resolveOr stop s mode name level = resolve s mode name level := by
  have references : resolveAlongOr stop s mode (s.size + 1) [] = resolveHierarchy s mode :=
    resolveAlongOr_eq stop bounded (s.isPath_nil) (by simp)
  funext u
  unfold resolveOr resolve
  rw [references]
  by_cases given : ∃ d, s.lookup name = .ok (some d)
  · obtain ⟨d, given⟩ := given
    have isPath : s.IsPath [name] := (s.isPath_nil).snoc given (by simp)
    rw [resolveAlongOr_eq stop bounded isPath (by simp)]
  · simp only [resolveBy, bind_apply, get_apply]
    cases prepared : prepare s mode [] name level u with
    | error e v => rfl
    | ok found v =>
        cases found with
        | inl id => rfl
        | inr d => exact absurd ⟨d, (prepare_eq_inr prepared).1⟩ given

end Universe

end ClassUniverse
