import ClassUniverse.Proofs.Scene.Actions

/-!
# What is gathered

After the basic classes, the classes named by the options, the dynamic classes and those of the
process directories have been loaded, the application classes are the named ones and those of the
process directories, and they have bodies.
-/

namespace ClassUniverse

namespace MemorySource

/-- Whether a name is found under one of some directories. -/
def Lists (m : MemorySource) (directories : List String) (name : String) : Prop :=
  ∃ directory ∈ directories, ∃ names, m.supply.classesUnder directory = .ok names ∧ name ∈ names

theorem lists_snoc {m : MemorySource} {directory : String} {names : List String}
    (given : m.supply.classesUnder directory = .ok names) (done : List String) (name : String) :
    m.Lists (done ++ [directory]) name ↔ name ∈ names ∨ m.Lists done name := by
  constructor
  · rintro ⟨other, hm, names', given', hn⟩
    rcases List.mem_append.mp hm with hm | hm
    · exact .inr ⟨other, hm, names', given', hn⟩
    · rw [List.mem_singleton] at hm
      rw [hm, given] at given'
      exact .inl (Except.ok.inj given' ▸ hn)
  · rintro (hn | ⟨other, hm, rest⟩)
    · exact ⟨directory, List.mem_append_right _ (List.mem_singleton_self _), names, given, hn⟩
    · exact ⟨other, List.mem_append_left _ hm, rest⟩

end MemorySource

/-- Whether a name is named by the options or found under a process directory. -/
def Options.Chooses (o : Options) (m : MemorySource) (name : String) : Prop :=
  name ∈ o.classes ∨ m.Lists o.processDirs name

namespace Scene

variable {o : Options} {m : MemorySource} {sc : Scene} {name : String} {apps full : String → Prop}

namespace IsLoading

/-! ## Basic classes -/

theorem addBasic (h : sc.IsLoading o m apps full) (name : String) (level : Level) :
    Ends (Scene.addBasic name level) sc fun _ t => t.IsLoading o m apps full :=
  .of_ok rfl trivial (h.of_eq rfl rfl rfl rfl)

theorem addAllBasic (h : sc.IsLoading o m apps full) (names : List String) (level : Level) :
    Ends (names.forM fun name => Scene.addBasic name level) sc fun _ t =>
      t.IsLoading o m apps full :=
  Keeps.forM_prefix (I := fun _ (t : Scene) => t.IsLoading o m apps full) names h
    fun _ name _ _ ht => ht.addBasic name level

theorem addTraceClasses (h : sc.IsLoading o m apps full) (env : Surroundings) :
    Ends (Scene.addTraceClasses env) sc fun _ t => t.IsLoading o m apps full := by
  unfold Scene.addTraceClasses
  refine .get_bind ?_
  cases sc.options.reflectionLog with
  | none => exact .pure h
  | some log =>
      dsimp only
      cases env.files.readText log with
      | error problem => exact .throw _
      | ok text =>
          dsimp only
          cases ReflectionTrace.classes text with
          | error e => exact .throw e
          | ok names => exact h.addAllBasic names .bodies

theorem loadBasicAt (h : sc.IsLoading o m apps full) (env : Surroundings)
    (basic : List (String × Level)) {level : Level} (high : .hierarchy ≤ level) :
    Ends (Scene.loadBasicAt env basic level) sc fun _ t => t.IsLoading o m apps full := by
  unfold Scene.loadBasicAt
  refine Keeps.foldlM _ _ h fun loaded entry _ t ht => ?_
  refine (ht.tryLoad env high entry.1).bind fun answer v _ hv => ?_
  cases answer with
  | none => exact .pure hv
  | some id => exact .get_bind (.pure hv)

theorem loadBasic (h : sc.IsLoading o m apps full) (env : Surroundings) :
    Ends (Scene.loadBasic env) sc fun _ t => t.IsLoading o m apps full := by
  unfold Scene.loadBasic
  refine (h.addTraceClasses env).bind fun _ t _ ht => ?_
  refine .get_bind ?_
  refine (ht.addAllBasic _ .hierarchy).bind fun _ v _ hv => ?_
  refine .get_bind ?_
  refine (hv.loadBasicAt env _ (by decide)).bind fun bodies v _ hv => ?_
  refine (hv.loadBasicAt env _ (by decide)).bind fun signatures v _ hv => ?_
  refine (hv.loadBasicAt env _ (by decide)).bind fun hierarchy v _ hv => ?_
  exact .optional (fun _ => .throw _) (fun _ => hv) fun _ _ ht => .pure ht

/-! ## Application classes -/

/-- A class that is loaded as an application class is one, unless it is a phantom. -/
theorem loadApplication (h : sc.IsLoading o m apps full) (env : Surroundings) (name : String) :
    Ends (Scene.loadApplication env name) sc fun _ t =>
      t.IsLoading o m (Function.update apps name True) (Function.update full name True) := by
  unfold Scene.loadApplication
  refine (h.loadWithSupport env name).bind fun id t _ ⟨ht, _, served⟩ => ?_
  refine .get_bind ?_
  cases kind : (t.record id).isPhantom with
  | true => exact .pure (ht.of_placed (ht.placed.of_phantom served.found kind True True))
  | false =>
      have deep := ht.of_placed (ht.placed.deepen served)
      refine (deep.reclassify served.found kind .application (by decide)).mono ?_
      intro _ v _ ⟨hv, _, _⟩
      refine hv.of_iff (fun n => by simp) fun n => ?_
      by_cases hn : n = name
      · simp [hn]
      · simp [hn]

theorem loadApplications (h : sc.IsLoading o m apps full) (env : Surroundings)
    (names : List String) :
    Ends (names.forM (Scene.loadApplication env)) sc fun _ t =>
      t.IsLoading o m (fun n => n ∈ names ∨ apps n) fun n => n ∈ names ∨ full n := by
  refine Keeps.forM_prefix (I := fun done (t : Scene) =>
    t.IsLoading o m (fun n => n ∈ done ∨ apps n) fun n => n ∈ done ∨ full n) names
    (h.of_iff (fun _ => by simp) fun _ => by simp) fun done name _ t ht => ?_
  refine (ht.loadApplication env name).mono fun _ v _ hv => ?_
  refine hv.of_iff (fun n => ?_) fun n => ?_ <;>
  · rw [List.mem_append, List.mem_singleton]
    by_cases hn : n = name
    · simp [hn]
    · simp [hn]

theorem classesUnder (h : sc.IsLoading o m apps full) (env : Surroundings) (directory : String) :
    Ends (Scene.classesUnder env directory) sc fun names t =>
      t.IsLoading o m apps full ∧ m.supply.classesUnder directory = .ok names := by
  have supply : sc.source.supply env.files = m.supply := by
    rw [h.source]
    rfl
  unfold Scene.classesUnder
  refine .get_bind ?_
  rw [supply]
  cases hc : m.supply.classesUnder directory with
  | ok names => exact .pure ⟨h, rfl⟩
  | error e => exact .throw e

theorem loadDirectory (h : sc.IsLoading o m apps full) (env : Surroundings) (directory : String) :
    Ends (Scene.loadDirectory env directory) sc fun _ t =>
      ∃ names, m.supply.classesUnder directory = .ok names ∧
        t.IsLoading o m (fun n => n ∈ names ∨ apps n) fun n => n ∈ names ∨ full n := by
  unfold Scene.loadDirectory
  refine (h.classesUnder env directory).bind fun names t _ ⟨ht, listed⟩ => ?_
  exact (ht.loadApplications env names).mono fun _ v _ hv => ⟨names, listed, hv⟩

theorem loadDirectories (h : sc.IsLoading o m apps full) (env : Surroundings)
    (directories : List String) :
    Ends (directories.forM (Scene.loadDirectory env)) sc fun _ t =>
      t.IsLoading o m (fun n => m.Lists directories n ∨ apps n)
        fun n => m.Lists directories n ∨ full n := by
  refine Keeps.forM_prefix (I := fun done (t : Scene) =>
    t.IsLoading o m (fun n => m.Lists done n ∨ apps n) fun n => m.Lists done n ∨ full n) directories
    (h.of_iff (fun _ => by simp [MemorySource.Lists]) fun _ => by simp [MemorySource.Lists])
    fun done directory _ t ht => ?_
  refine (ht.loadDirectory env directory).mono fun _ v _ ⟨names, given, hv⟩ => ?_
  refine hv.of_iff (fun n => ?_) fun n => ?_ <;>
  · rw [MemorySource.lists_snoc given]
    tauto

/-! ## Dynamic classes -/

theorem classesIn (h : sc.IsLoading o m apps full) (env : Surroundings) (package : String) :
    Ends (Scene.classesIn env package) sc fun _ t => t.IsLoading o m apps full := by
  have same : sc.source.asked env.files = sc.source := by
    rw [h.source]
    rfl
  exact .of_ok rfl trivial (h.of_eq rfl same rfl rfl)

theorem loadDynamic (h : sc.IsLoading o m apps full) (env : Surroundings) :
    Ends (Scene.loadDynamic env) sc fun _ t => t.IsLoading o m apps full := by
  unfold Scene.loadDynamic
  refine .get_bind ?_
  refine (Keeps.mapM_of (I := fun t => t.IsLoading o m apps full) _ h fun directory _ t ht =>
    (ht.classesUnder env directory).mono fun _ _ _ hv => hv.1).bind fun ofDirs t _ ht => ?_
  refine (Keeps.mapM_of (I := fun t => t.IsLoading o m apps full) _ ht fun package _ t ht =>
    ht.classesIn env package).bind fun ofPackages t _ ht => ?_
  refine (Keeps.foldlM (I := fun _ t => t.IsLoading o m apps full) _ [] ht
    fun kept name _ t ht => ?_).bind fun ids t _ ht => ?_
  · refine (ht.loadWithSupport env name).bind fun id v _ ⟨hv, _, _⟩ => ?_
    exact .get_bind (.pure hv)
  · exact .of_ok rfl trivial (ht.of_eq rfl rfl rfl rfl)

/-! ## Everything that is gathered -/

theorem gather (h : sc.IsLoading o m (fun _ => False) fun _ => False) (env : Surroundings) :
    Ends (Scene.gather env) sc fun _ t => t.IsLoading o m (o.Chooses m) (o.Chooses m) := by
  unfold Scene.gather
  refine (h.loadBasic env).bind fun _ t _ ht => ?_
  refine .get_bind ?_
  rw [ht.options]
  refine (ht.loadApplications env o.classes).bind fun _ t _ ht => ?_
  refine (ht.loadDynamic env).bind fun _ t _ ht => ?_
  refine .get_bind ?_
  rw [ht.options]
  refine (ht.loadDirectories env o.processDirs).mono fun _ v _ hv => ?_
  refine hv.of_iff (fun n => ?_) fun n => ?_ <;>
  · unfold Options.Chooses
    tauto

end IsLoading

end Scene

end ClassUniverse
