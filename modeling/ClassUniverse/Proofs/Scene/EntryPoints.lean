import ClassUniverse.Proofs.Hierarchy.Declared
import ClassUniverse.Proofs.Resolution.Links
import ClassUniverse.Proofs.Scene.Stages

/-!
# Entry points of a loaded scene

After loading the entry points hold the main method of the main class and, of the main class and its
declared superclasses, the initializers of those that have members.  A superclass that is nothing
but a supertype of an application class is loaded to `hierarchy`, has no members, and so its
initializer is left out.
-/

namespace ClassUniverse

open Relation (ReflTransGen)

/-- A method that is the initializer of the class of a name. -/
structure Method.Initializes (m : Method) (name : String) : Prop where
  declaring : m.declaringClass = name
  signed : m.signature = Signature.render name EntryPoints.initializerMember

theorem Method.initializes_iff {m : Method} {name : String} : m.Initializes name ↔
    m.declaringClass = name ∧ m.subsignature = EntryPoints.initializerMember := by
  constructor
  · intro h
    have signed := h.signed
    unfold Method.signature at signed
    rw [h.declaring, ← String.toList_inj] at signed
    have same : m.subsignature.toList = EntryPoints.initializerMember.toList := by
      simpa [Signature.render] using signed
    exact ⟨h.declaring, String.toList_inj.mp same⟩
  · intro h
    obtain ⟨declaring, named⟩ := h
    refine ⟨declaring, ?_⟩
    unfold Method.signature
    rw [declaring, named]

/-! ## Declared methods -/

namespace ClassRecord

variable {r : ClassRecord} {m : Method} {member : String}

theorem mem_methods_of_method? (h : r.method? member = some m) :
    m ∈ r.methods ∧ m.subsignature = member := by
  unfold method? at h
  have found := List.find?_some h
  exact ⟨List.mem_of_find?_eq_some h, by simpa using found⟩

theorem exists_method? (hm : m ∈ r.methods) : ∃ first, r.method? m.subsignature = some first := by
  rw [← Option.isSome_iff_exists]
  unfold method?
  rw [List.find?_isSome]
  exact ⟨m, hm, by simp⟩

end ClassRecord

namespace Universe

variable {s : Supply} {u : Universe} {name upper : String} {id above : ClassId} {m : Method}
  {d : ClassDefinition}

/-- A method of a registered class is one of its definition, and the class is not below
`signatures`. -/
theorem IsDrawnFrom.declared (h : u.IsDrawnFrom s) (named : s.IsNamed)
    (found : u.find? name = some id) (hm : m ∈ (u.record id).methods) :
    m.declaringClass = name ∧ .signatures ≤ (u.record id).level ∧
      ∃ d, s.lookup name = .ok (some d) ∧ m.definition ∈ d.methods := by
  have real : (u.record id).isPhantom = false := by
    rw [Bool.eq_false_iff]
    intro phantom
    rw [((h.bare name id found).phantom phantom).2.2] at hm
    cases hm
  obtain ⟨d, given, shows⟩ := h.faithful.shows found real
  have high : .signatures ≤ (u.record id).level := by
    apply Level.le_of_not_lt
    intro low
    rw [(shows.memberless low).2] at hm
    cases hm
  obtain ⟨methods, declaring⟩ := shows.methods high
  refine ⟨(declaring m hm).trans (named name d given), high, d, given, ?_⟩
  rw [← methods]
  exact List.mem_map_of_mem hm

theorem IsDrawnFrom.real (h : u.IsDrawnFrom s) (found : u.find? name = some id)
    (given : s.lookup name = .ok (some d)) : (u.record id).isPhantom = false := by
  rw [Bool.eq_false_iff]
  intro phantom
  rw [((h.kinded name id found).phantom phantom).1] at given
  cases given

/-- A registered class that is not below `signatures` has every method of its definition. -/
theorem IsDrawnFrom.exists_method (h : u.IsDrawnFrom s) (named : s.IsNamed)
    (found : u.find? name = some id) (given : s.lookup name = .ok (some d))
    (high : .signatures ≤ (u.record id).level) {declared : MethodDefinition}
    (hd : declared ∈ d.methods) :
    ∃ m, (u.record id).method? declared.subsignature = some m ∧ m.declaringClass = name := by
  obtain ⟨d', given', shows⟩ := h.faithful.shows found (h.real found given)
  rw [given] at given'
  cases given'
  rw [← (shows.methods high).1] at hd
  obtain ⟨one, ho, rfl⟩ := List.mem_map.mp hd
  obtain ⟨m, first⟩ := ClassRecord.exists_method? ho
  have hm := ClassRecord.mem_methods_of_method? first
  exact ⟨m, first, (h.declared named found hm.1).1⟩

/-! ## Entry points -/

namespace IsBuiltFrom

/-- The way up from a class passes registered classes alone. -/
theorem registered_of_mem_ancestry (h : u.IsBuiltFrom s) (found : u.find? name = some id)
    (passed : above ∈ u.catalog.ancestry id) : ∃ upper, u.find? upper = some above := by
  obtain ⟨_, -, reached⟩ := Catalog.mem_climb_iff.mp passed
  obtain ⟨upper, -, found'⟩ := h.corresponds_extends.named_path found
    (Catalog.reaches_iff_superclassAt.mpr ⟨_, reached⟩)
  exact ⟨upper, found'⟩

/-- The way up from a class passes the classes under the names of its declared superclasses. -/
theorem mem_ancestry_of_path (h : u.IsBuiltFrom s) (found : u.find? name = some id)
    (path : ReflTransGen s.Extends name upper) :
    ∃ above ∈ u.catalog.ancestry id, u.find? upper = some above := by
  obtain ⟨above, links, foundAbove⟩ := h.corresponds_extends.linked_path found path
  have within (other : ClassId) (path : ReflTransGen u.catalog.Extends id other) :
      other ∈ u.registry.ids := by
    obtain ⟨lower, -, found'⟩ := h.corresponds_extends.named_path found path
    exact Registry.mem_ids_iff.mpr ⟨lower, found'⟩
  exact ⟨above, (Catalog.mem_climb_of_pool within h.wellFormed.length_ids_le).mpr links, foundAbove⟩

/-- Every entry point is a method of a registered class. -/
theorem registered_of_entry (h : u.IsBuiltFrom s) (found : u.find? name = some id)
    (hm : m ∈ EntryPoints.ofMain u id ++ EntryPoints.implicit u) :
    ∃ other owner, u.find? other = some owner ∧ m ∈ (u.record owner).methods := by
  rcases List.mem_append.mp hm with ofMain | implicit
  · rcases List.mem_append.mp ofMain with isMain | initializer
    · have member := ClassRecord.mem_methods_of_method? (Option.mem_toList.mp isMain)
      exact ⟨name, id, found, member.1⟩
    · obtain ⟨owner, passed, first⟩ := List.mem_filterMap.mp initializer
      obtain ⟨other, found'⟩ := h.registered_of_mem_ancestry found passed
      exact ⟨other, owner, found', (ClassRecord.mem_methods_of_method? first).1⟩
  · obtain ⟨signature, -, known⟩ := List.mem_filterMap.mp implicit
    unfold knownMethod? Universe.method? at known
    cases parsed : Signature.parse signature with
    | error e =>
        rw [parsed] at known
        cases known
    | ok parts =>
        rw [parsed] at known
        obtain ⟨owner, found', first⟩ := Option.bind_eq_some_iff.mp
          (show ((u.find? parts.className).bind fun id => (u.record id).method? parts.member) =
            some m from known)
        exact ⟨parts.className, owner, found', (ClassRecord.mem_methods_of_method? first).1⟩

end IsBuiltFrom

/-- The initializer of a class or a declared superclass of it is an entry point exactly if the
definition has one and the class is not below `signatures`. -/
theorem initializer_mem_iff (h : u.IsDrawnFrom s) (built : u.IsBuiltFrom s) (named : s.IsNamed)
    (found : u.find? name = some id) (path : ReflTransGen s.Extends name upper)
    (given : s.lookup upper = .ok (some d)) : ∃ above, u.find? upper = some above ∧
      ((∃ m ∈ EntryPoints.ofMain u id ++ EntryPoints.implicit u, m.Initializes upper) ↔
        (∃ declared ∈ d.methods, declared.subsignature = EntryPoints.initializerMember) ∧
          .signatures ≤ (u.record above).level) := by
  obtain ⟨above, passed, foundAbove⟩ := built.mem_ancestry_of_path found path
  refine ⟨above, foundAbove, ?_⟩
  constructor
  · intro hm
    obtain ⟨m, hm, initializer⟩ := hm
    obtain ⟨ofUpper, isInitializer⟩ := Method.initializes_iff.mp initializer
    obtain ⟨other, owner, found', member⟩ := built.registered_of_entry found hm
    obtain ⟨declaring, high, d', given', declared⟩ := h.declared named found' member
    rw [ofUpper] at declaring
    subst declaring
    rw [given] at given'
    cases given'
    rw [foundAbove] at found'
    cases found'
    exact ⟨⟨m.definition, declared, isInitializer⟩, high⟩
  · intro hd
    obtain ⟨⟨declared, hd, isInitializer⟩, high⟩ := hd
    obtain ⟨m, first, declaring⟩ := h.exists_method named foundAbove given high hd
    rw [isInitializer] at first
    have isEntry : m ∈ EntryPoints.ofMain u id ++ EntryPoints.implicit u := by
      apply List.mem_append_left
      apply List.mem_append_right
      exact List.mem_filterMap.mpr ⟨above, passed, first⟩
    have member := ClassRecord.mem_methods_of_method? first
    exact ⟨m, isEntry, Method.initializes_iff.mpr ⟨declaring, member.2⟩⟩

end Universe

/-! ## The main class -/

namespace Scene

variable {sc t : Scene} {id : ClassId} {env : Surroundings} {o : Options} {m : MemorySource}

/-- What becomes of a scene without a main class as its main class is settled. -/
structure Starts (sc t : Scene) : Prop where
  core : t.core = sc.core
  rule : t.rule = sc.rule
  fresh : ∀ id ∈ t.main, t.workspace.entryPoints = none
  main : ∀ id ∈ t.main, sc.core.IsRegistered id ∧
    ∃ m ∈ (sc.core.record id).methods, m.subsignature = EntryPoints.mainMember

theorem Starts.of_unset (unset : sc.main = none) : sc.Starts sc where
  core := rfl
  rule := rfl
  fresh id isMain := by
    rw [unset] at isMain
    cases isMain
  main id isMain := by
    rw [unset] at isMain
    cases isMain

theorem expect_registered (held : sc.workspace.holders = .everything) (name : String) :
    Keeps (· = ·) (onUniverse (Universe.expect name)) sc fun id _ => sc.core.IsRegistered id :=
  (expect_keeps held name).mono fun _ _ _ found => ⟨name, found⟩

theorem setMain_starts (registered : sc.core.IsRegistered id) :
    Ends (setMain id) sc fun _ t => sc.Starts t := by
  unfold setMain
  apply Keeps.get_bind
  refine .optional (P := fun t => t = sc ∧ (sc.record id).declares EntryPoints.mainMember = true)
    (fun _ => .throw _) (fun stays => ⟨rfl, by simpa using stays⟩)
    fun t _ ht => .of_ok rfl trivial ?_
  obtain ⟨rfl, declares⟩ := ht
  obtain ⟨method, first⟩ := Option.isSome_iff_exists.mp declares
  refine ⟨rfl, rfl, fun _ _ => rfl, ?_⟩
  intro other isMain
  cases isMain
  exact ⟨registered, method, ClassRecord.mem_methods_of_method? first⟩

theorem registered_of_inferred {named : List ClassId}
    (registered : ∀ id ∈ named, sc.core.IsRegistered id) (h : sc.inferredMain named = some id) :
    sc.core.IsRegistered id := by
  cases List.mem_append.mp (List.mem_of_find?_eq_some h) with
  | inl isNamed => exact registered id isNamed
  | inr application =>
      obtain ⟨name, -, found⟩ := List.mem_filterMap.mp application
      exact ⟨name, found⟩

theorem setMainFromOptions_starts (held : sc.workspace.holders = .everything)
    (unset : sc.main = none) : Ends setMainFromOptions sc fun _ t => sc.Starts t := by
  unfold setMainFromOptions
  apply Keeps.get_bind
  rw [unset]
  dsimp only [Option.isSome_none, Bool.false_eq_true, ↓reduceIte]
  cases sc.options.mainClass.filter fun name => !name.isEmpty with
  | some name =>
      have found : Ends (onUniverse (Universe.expect name)) sc fun id t =>
          sc = t ∧ sc.core.IsRegistered id :=
        (expect_registered held name).ends fun _ _ same registered => ⟨same, registered⟩
      apply found.bind
      intro id t _ both
      obtain ⟨rfl, registered⟩ := both
      exact setMain_starts registered
  | none =>
      have each : Keeps (· = ·) (sc.options.classes.mapM fun name =>
          onUniverse (Universe.expect name)) sc fun ids _ =>
            List.Forall₂ (fun _ id => sc.core.IsRegistered id) sc.options.classes ids :=
        Keeps.mapM _ (fun name _ t same => same ▸ expect_registered held name)
          fun _ _ _ _ _ _ registered => registered
      have found : Ends (sc.options.classes.mapM fun name =>
          onUniverse (Universe.expect name)) sc fun ids t =>
            sc = t ∧ ∀ id ∈ ids, sc.core.IsRegistered id :=
        each.ends fun _ _ same registered => ⟨same, Universe.forall_mem_of_forall₂ registered⟩
      apply found.bind
      intro ids t _ both
      obtain ⟨rfl, registered⟩ := both
      cases inferred : sc.inferredMain ids with
      | some id => exact setMain_starts (registered_of_inferred registered inferred)
      | none => exact .pure (.of_unset unset)

/-! ## Loading -/

theorem load_starts (env : Surroundings) (o : Options) (m : MemorySource) :
    Ends (load env) (ofSource o (.memory m)) fun _ t =>
      ∃ sc : Scene, sc.IsMainless m ∧ sc.Starts t := by
  unfold load
  apply (gather_stages.isMainless (isMainless_ofSource o m)).bind
  intro _ t _ ht
  apply (prepare_stages.isMainless ht).bind
  intro _ t _ ht
  have closed : Stages env (onUniverse Universe.close) t := onUniverse_stages (.request .close)
  apply (closed.isMainless ht).bind
  intro _ t _ ht
  exact (setMainFromOptions_starts ht.held ht.main).mono fun _ _ _ starts => ⟨t, ht, starts⟩

/-- The entry points that are found where the main class has been settled. -/
theorem answer_entryPoints (starts : sc.Starts t) (rule : sc.rule = .standard)
    (isMain : t.main = some id) : answer entryPoints t =
      .ok (EntryPoints.ofMain t.core id ++ EntryPoints.implicit t.core) := by
  have unstored := starts.fresh id isMain
  have standard : t.rule = .standard := starts.rule.trans rule
  simp only [answer, entryPoints, bind_apply, get_apply, onWorkspace, Workspace.entryPointsOr,
    unstored, modify_apply, pure_apply, standard, isMain, EntryPointRule.methods, Scene.core]

/-- What a loaded scene with a main class shows. -/
structure ShowsMain (sc : Scene) (m : MemorySource) (id : ClassId) : Prop where
  drawn : sc.core.IsDrawnFrom m.supply
  built : sc.core.IsBuiltFrom m.supply
  entries : answer entryPoints sc =
    .ok (EntryPoints.ofMain sc.core id ++ EntryPoints.implicit sc.core)
  found : sc.core.find? (sc.record id).name = some id
  main : ∃ m ∈ (sc.record id).methods, m.subsignature = EntryPoints.mainMember

theorem showsMain_load (loaded : load env (ofSource o (.memory m)) = .ok () sc)
    (isMain : sc.main = some id) : sc.ShowsMain m id := by
  obtain ⟨-, before, mainless, starts⟩ := (load_starts env o m).ok loaded
  obtain ⟨index, indexed⟩ := ((load_ends env o m).ok loaded).2.index
  have drawn : sc.core.IsDrawnFrom m.supply := starts.core ▸ mainless.core
  have linked := (SubtypeIndex.build_eq_ok indexed).1
  have main := starts.main id isMain
  rw [← starts.core] at main
  exact ⟨drawn, ⟨drawn.wellFormed, drawn.faithful, drawn.kinded, linked⟩,
    answer_entryPoints starts mainless.rule isMain, drawn.wellFormed.find_nameOf main.1, main.2⟩

/-- After loading with a main class, the entry points hold its main method and, of it and its
declared superclasses, the initializers of those that are not below `signatures`, as no application
class is. -/
theorem entryPoints_load {env : Surroundings} {o : Options} {m : MemorySource} {sc : Scene}
    {id : ClassId} (loaded : load env (ofSource o (.memory m)) = .ok () sc)
    (isMain : sc.main = some id) :
    ∃ entries, answer entryPoints sc = .ok entries ∧
      (∃ method ∈ entries, method ∈ (sc.record id).methods ∧
        method.signature = Signature.render (sc.record id).name EntryPoints.mainMember) ∧
      ∀ upper d, ReflTransGen m.supply.Extends (sc.record id).name upper →
        m.supply.lookup upper = .ok (some d) → ∃ above, sc.core.find? upper = some above ∧
          ((∃ method ∈ entries, method.Initializes upper) ↔
            (∃ declared ∈ d.methods, declared.subsignature = EntryPoints.initializerMember) ∧
              .signatures ≤ (sc.record above).level) ∧
          (o.Takes m upper → .signatures ≤ (sc.record above).level) := by
  have arranged := ((load_ends env o m).ok loaded).2
  obtain ⟨drawn, built, entries, found, one, hm, isMainMethod⟩ := showsMain_load loaded isMain
  refine ⟨_, entries, ?_, ?_⟩
  · obtain ⟨method, first⟩ := ClassRecord.exists_method? hm
    have member := ClassRecord.mem_methods_of_method? first
    rw [isMainMethod] at first member
    refine ⟨method, ?_, member.1, ?_⟩
    · apply List.mem_append_left
      apply List.mem_append_left
      exact Option.mem_toList.mpr first
    · unfold Method.signature
      rw [(drawn.declared m.isNamed_supply found member.1).1, member.2]
  · intro upper d path given
    obtain ⟨above, foundAbove, initializer⟩ :=
      Universe.initializer_mem_iff drawn built m.isNamed_supply found path given
    refine ⟨above, foundAbove, initializer, ?_⟩
    intro takes
    have application := arranged.application foundAbove (drawn.real foundAbove given) takes
    have level : (sc.record above).level = .bodies := arranged.bodies foundAbove application
    rw [level]
    decide

/-- Options that name one class. -/
def borrowingOptions : Options := { classes := ["a.Main"] }

/-- A class with a main method and an initializer that extends a class with an initializer. -/
def borrowingSource : MemorySource :=
  (((MemorySource.empty.add { name := "java.lang.Object" }).add { name := "java.lang.String" }).add
    { name := "lib.Base"
      superclass := some "java.lang.Object"
      methods := [{ name := "<clinit>", parameterTypes := [], returnType := "void" }] }).add
    { name := "a.Main"
      superclass := some "lib.Base"
      methods := [{ name := "main"
                    parameterTypes := ["java.lang.String[]"]
                    returnType := "void" },
        { name := "<clinit>", parameterTypes := [], returnType := "void" }] }

/-- What loading it comes to: the main class is the only one with members. -/
theorem load_borrowingSource : ∃ sc,
    load ⟨.directory [], []⟩ (ofSource borrowingOptions (.memory borrowingSource)) = .ok () sc ∧
      sc.main = some ⟨3⟩ ∧ (sc.record ⟨3⟩).name = "a.Main" ∧
      sc.core.idsAtLevel .signatures = [⟨3⟩] := by
  have outcome (sc : Scene)
      (last : after (load ⟨.directory [], []⟩)
        (ofSource borrowingOptions (.memory borrowingSource)) = sc) :
      succeeds (load ⟨.directory [], []⟩)
          (ofSource borrowingOptions (.memory borrowingSource)) = true ∧
        sc.main = some ⟨3⟩ ∧ (sc.record ⟨3⟩).name = "a.Main" ∧
          sc.core.idsAtLevel .signatures = [⟨3⟩] := by
    subst last
    decide +kernel
  cases loaded :
      load ⟨.directory [], []⟩ (ofSource borrowingOptions (.memory borrowingSource)) with
  | error e sc =>
      have succeeded := (outcome sc (after_of_error loaded)).1
      unfold succeeds at succeeded
      rw [loaded] at succeeded
      cases succeeded
  | ok _ sc => exact ⟨sc, rfl, (outcome sc (after_of_ok loaded)).2⟩

theorem entryPoints_load_borrowingSource : ∃ sc,
    load ⟨.directory [], []⟩ (ofSource borrowingOptions (.memory borrowingSource)) = .ok () sc ∧
      ∃ entries, answer entryPoints sc = .ok entries ∧
        ∃ method ∈ entries, method.Initializes "a.Main" := by
  obtain ⟨sc, loaded, isMain, named, -⟩ := load_borrowingSource
  obtain ⟨entries, answered, -, initializers⟩ := entryPoints_load loaded isMain
  rw [named] at initializers
  obtain ⟨d, given, declared⟩ : ∃ d, borrowingSource.supply.lookup "a.Main" = .ok (some d) ∧
      ∃ declared ∈ d.methods, declared.subsignature = EntryPoints.initializerMember :=
    ⟨_, rfl, by decide +kernel⟩
  obtain ⟨above, -, initializer, high⟩ := initializers "a.Main" d .refl given
  have level := high (.inl (List.mem_singleton_self _))
  exact ⟨sc, loaded, entries, answered, initializer.mpr ⟨declared, level⟩⟩

/-- The initializer of a superclass that is loaded to `hierarchy` is no entry point. -/
theorem not_initializer_of_library_superclass :
    (borrowingSource.supply.Extends "a.Main" "lib.Base" ∧
      ∃ d, borrowingSource.supply.lookup "lib.Base" = .ok (some d) ∧
        ∃ declared ∈ d.methods, declared.subsignature = EntryPoints.initializerMember) ∧
    ∃ sc, load ⟨.directory [], []⟩ (ofSource borrowingOptions (.memory borrowingSource)) =
        .ok () sc ∧
      (∃ id, sc.main = some id ∧ (sc.record id).name = "a.Main") ∧
      ∃ entries, answer entryPoints sc = .ok entries ∧ ∀ method ∈ entries,
        method.signature ≠ Signature.render "lib.Base" EntryPoints.initializerMember := by
  refine ⟨⟨⟨_, rfl, by decide +kernel⟩, _, rfl, by decide +kernel⟩, ?_⟩
  obtain ⟨sc, loaded, isMain, named, only⟩ := load_borrowingSource
  obtain ⟨drawn, built, entries, found, -⟩ := showsMain_load loaded isMain
  refine ⟨sc, loaded, ⟨⟨3⟩, isMain, named⟩, _, entries, ?_⟩
  intro method hm isInitializer
  obtain ⟨other, owner, found', member⟩ := built.registered_of_entry found hm
  obtain ⟨declaring, high, -⟩ := drawn.declared borrowingSource.isNamed_supply found' member
  have isOwner : owner ∈ sc.core.idsAtLevel .signatures :=
    List.mem_filter.mpr ⟨Registry.mem_ids_iff.mpr ⟨other, found'⟩, by simpa using high⟩
  rw [only, List.mem_singleton] at isOwner
  subst isOwner
  have same : other = "a.Main" := (drawn.wellFormed.stands found').named.symm.trans named
  unfold Method.signature at isInitializer
  rw [declaring, same, ← String.toList_inj] at isInitializer
  simp [Signature.render] at isInitializer

end Scene

end ClassUniverse
