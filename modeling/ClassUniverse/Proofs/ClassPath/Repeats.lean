import ClassUniverse.Proofs.ClassPath.Histories

/-!
# Repeated paths

A path that is given again behind its first occurrence changes nothing about a class path, with one
exception: applications are counted as often as they occur, so one that is given twice is refused
like two applications.
-/

namespace ClassUniverse

/-- The options of a user who has other directories processed. -/
def Options.processing (o : Options) (dirs : List String) : Options :=
  { o with processDirs := dirs }

namespace Sdk

variable {t : FileTree} {o : Options} {path : String} {c : ConfigurationProblem}
  {application : Option String} {explicit highest : Option UInt32}
  {classPath classPath' dirs paths paths' first rest : List String}

/-! ## Applications among paths -/

/-- The applications among some paths, each as often as it occurs. -/
def applications (t : FileTree) (paths : List String) : List String :=
  paths.filter (isApplication t)

/-- Whether there is more than one occurrence of an application among some paths. -/
def Several (t : FileTree) (paths : List String) : Prop := 1 < (applications t paths).length

instance (t : FileTree) (paths : List String) : Decidable (Several t paths) :=
  inferInstanceAs (Decidable (1 < _))

theorem mem_applications :
    path ∈ applications t paths ↔ path ∈ paths ∧ isApplication t path = true :=
  List.mem_filter

theorem application?_of_several (h : Several t paths) :
    application? t paths = .error (.configuration .severalApplications) := by
  unfold Several applications at h
  unfold application?
  split
  · simp_all
  · simp_all
  · rfl

theorem application?_of_not_several (h : ¬ Several t paths) :
    application? t paths = .ok (applications t paths).head? := by
  unfold Several applications at h
  unfold application? applications
  generalize paths.filter (isApplication t) = found at h ⊢
  cases found with
  | nil => rfl
  | cons path rest =>
      cases rest with
      | nil => rfl
      | cons other more => simp at h

/-- Two lists of paths with the same members and at most one application each have the same one. -/
theorem application?_congr (same : ∀ path, path ∈ paths ↔ path ∈ paths')
    (alike : Several t paths ↔ Several t paths') :
    application? t paths = application? t paths' := by
  by_cases several : Several t paths
  · rw [application?_of_several several, application?_of_several (alike.mp several)]
  · have several' := alike.not.mp several
    rw [application?_of_not_several several, application?_of_not_several several']
    have members (path : String) : path ∈ applications t paths ↔ path ∈ applications t paths' := by
      rw [mem_applications, mem_applications, same]
    unfold Several at several several'
    generalize applications t paths = found at several members ⊢
    generalize applications t paths' = found' at several' members ⊢
    cases found with
    | nil =>
        cases found' with
        | nil => rfl
        | cons path rest => simpa using members path
    | cons path rest =>
        have alone : rest = [] := by simpa using several
        subst alone
        cases found' with
        | nil => simpa using members path
        | cons path' rest' =>
            have alone' : rest' = [] := by simpa using several'
            subst alone'
            simpa using members path

theorem applications_insert (path : String) (first rest : List String) :
    (applications t (first ++ path :: rest)).length =
      (applications t (first ++ rest)).length + if isApplication t path then 1 else 0 := by
  unfold applications
  rw [List.filter_append, List.filter_append, List.filter_cons]
  split
  · simp only [List.length_append, List.length_cons]
    omega
  · simp only [List.length_append, Nat.add_zero]

/-- A path that is given again makes a difference to whether there are several applications exactly
if it is the only one. -/
theorem several_insert_iff (again : path ∈ first) :
    (Several t (first ++ path :: rest) ↔ Several t (first ++ rest)) ↔
      applications t (first ++ rest) ≠ [path] := by
  have counted := applications_insert (t := t) path first rest
  unfold Several
  rw [counted]
  cases h : isApplication t path with
  | false =>
      have other : applications t (first ++ rest) ≠ [path] := by
        intro only
        have hm : path ∈ applications t (first ++ rest) := only ▸ List.mem_singleton_self path
        rw [(mem_applications.mp hm).2] at h
        cases h
      simp [other]
  | true =>
      have hm : path ∈ applications t (first ++ rest) :=
        mem_applications.mpr ⟨List.mem_append_left rest again, h⟩
      match hp : applications t (first ++ rest) with
      | [] => simp [hp] at hm
      | [one] =>
          rw [hp, List.mem_singleton] at hm
          simp [hm]
      | _ :: _ :: _ => simp

/-! ## Platforms for paths -/

/-- A directory that is not there is no matter of configuration. -/
theorem highestIn_ne_configuration {platforms : String} :
    highestIn t platforms ≠ .error (.configuration c) := by
  unfold highestIn answer
  simp only [highestLevel, bind_apply, get_apply, List.find?_nil]
  cases t.place? platforms with
  | none =>
      intro h
      cases h
  | some place =>
      dsimp only
      cases t.hasDirectory place <;>
        · intro h
          cases h

theorem image_ne_configuration : Archive.image t path ≠ .error (.configuration c) := by
  unfold Archive.image
  cases t.find path with
  | error problem => exact nofun
  | ok item => cases item <;> exact nofun

theorem open?_ne_configuration : Archive.open? t path ≠ .error (.configuration c) := by
  unfold Archive.open?
  cases given : Archive.image t path with
  | error e =>
      intro h
      exact image_ne_configuration (given.trans (congrArg Except.error (Except.error.inj h)))
  | ok bytes =>
      change (Zip.ofBytes bytes).mapError (Error.archive path) ≠ _
      cases Zip.ofBytes bytes <;> exact nofun

theorem manifestLevel_ne_configuration :
    answer (manifestLevel t path highest) {} ≠ .error (.configuration c) := by
  unfold manifestLevel
  cases opened : Archive.open? t path with
  | error e =>
      intro h
      exact open?_ne_configuration (opened.trans (congrArg Except.error (Except.error.inj h)))
  | ok archive =>
      dsimp only
      simp only [pure_bind]
      cases archive.entry "AndroidManifest.xml" with
      | error problem => exact nofun
      | ok content => cases content <;> exact nofun

theorem wantedLevel_ne_configuration (there : ∀ path ∈ application, t.holds path = true) :
    answer (wantedLevel t application explicit highest) {} ≠ .error (.configuration c) := by
  unfold wantedLevel
  cases application with
  | none => exact nofun
  | some path =>
      dsimp only
      rw [if_pos (there path rfl)]
      cases explicit with
      | some level => exact nofun
      | none =>
          dsimp only
          split
          · exact manifestLevel_ne_configuration
          · exact nofun

/-- Nothing is wrong with how a platform is asked for by somebody who seeks one. -/
theorem platform_ne_configuration {platforms : String} (seeks : Seeks t o platforms application) :
    answer (platform t platforms application o.androidLevel) {} ≠ .error (.configuration c) := by
  obtain ⟨same, -, -⟩ := resolveLevel_spec (remembers_empty t o) seeks
  have same : answer (resolveLevel t platforms application o.androidLevel) {} =
      levelFor t platforms application o.androidLevel := same
  rw [answer_platform, same]
  cases known : highestIn t platforms with
  | error e =>
      rw [levelFor_of_error known]
      intro h
      exact highestIn_ne_configuration (known.trans (congrArg Except.error (Except.error.inj h)))
  | ok highest =>
      rw [levelFor_of_ok known]
      cases wanted : answer (wantedLevel t application o.androidLevel highest) {} with
      | error e =>
          intro h
          exact wantedLevel_ne_configuration seeks.there
            (wanted.trans (congrArg Except.error (Except.error.inj h)))
      | ok level =>
          change platformAt t platforms _ ≠ _
          unfold platformAt
          split <;> exact nofun

/-- A platform depends on the class path and the process directories only through the application
among them and whether there are files of code. -/
theorem defaultPlatform_congr
    (found : application? t (classPath' ++ dirs) = application? t (classPath ++ o.processDirs))
    (code : (classPath' ++ dirs).any (Path.endsLike ".dex") =
      (classPath ++ o.processDirs).any (Path.endsLike ".dex")) :
    defaultPlatform t (o.processing dirs) classPath' = defaultPlatform t o classPath := by
  unfold defaultPlatform Options.processing
  dsimp only
  rw [found, code]

theorem defaultPlatform_of_several {platforms : String} (unforced : o.forcedAndroidJar = none)
    (directory : o.androidJars = some platforms) (h : Several t (classPath ++ o.processDirs)) :
    answer (defaultPlatform t o classPath) {} =
      .error (.configuration .severalApplications) := by
  unfold defaultPlatform
  rw [unforced, directory]
  dsimp only
  rw [application?_of_several h]
  rfl

/-- With an application among the paths, only a second one is wrong with them. -/
theorem defaultPlatform_ne_configuration {platforms : String} (unforced : o.forcedAndroidJar = none)
    (directory : o.androidJars = some platforms) (h : ¬ Several t (classPath ++ o.processDirs))
    (hm : path ∈ applications t (classPath ++ o.processDirs)) :
    answer (defaultPlatform t o classPath) {} ≠ .error (.configuration c) := by
  have given := application?_of_not_several h
  have found : (applications t (classPath ++ o.processDirs)).head?.isNone = false := by
    simpa using List.ne_nil_of_mem hm
  unfold defaultPlatform
  rw [unforced, directory]
  dsimp only
  rw [given]
  dsimp only
  rw [found]
  exact platform_ne_configuration (o := o) ⟨unforced, directory, holds_of_application? given⟩

theorem defaultPlatform_ne {platforms : String} (unforced : o.forcedAndroidJar = none)
    (directory : o.androidJars = some platforms)
    (same : ∀ path, path ∈ classPath' ++ dirs ↔ path ∈ classPath ++ o.processDirs)
    (several : Several t (classPath' ++ dirs)) (single : ¬ Several t (classPath ++ o.processDirs)) :
    answer (defaultPlatform t (o.processing dirs) classPath') {} ≠
      answer (defaultPlatform t o classPath) {} := by
  have refused : answer (defaultPlatform t (o.processing dirs) classPath') {} =
      .error (.configuration .severalApplications) :=
    defaultPlatform_of_several (o := o.processing dirs) unforced directory several
  rw [refused]
  obtain ⟨path, hm⟩ := List.exists_mem_of_length_pos (Nat.lt_trans Nat.one_pos several)
  obtain ⟨given, isApplication⟩ := mem_applications.mp hm
  have hm := mem_applications.mpr ⟨(same path).mp given, isApplication⟩
  exact (defaultPlatform_ne_configuration unforced directory single hm).symm

/-- Two ways to give the same paths ask for the same platform unless they differ in whether there
are several applications. -/
theorem defaultPlatform_eq_iff
    (same : ∀ path, path ∈ classPath' ++ dirs ↔ path ∈ classPath ++ o.processDirs) :
    answer (defaultPlatform t (o.processing dirs) classPath') {} =
        answer (defaultPlatform t o classPath) {} ↔
      o.forcedAndroidJar.isSome = true ∨ o.androidJars = none ∨
        (Several t (classPath' ++ dirs) ↔ Several t (classPath ++ o.processDirs)) := by
  cases unforced : o.forcedAndroidJar with
  | some jar =>
      refine iff_of_true ?_ (.inl rfl)
      unfold defaultPlatform Options.processing
      dsimp only
      rw [unforced]
  | none =>
      cases directory : o.androidJars with
      | none =>
          refine iff_of_true ?_ (.inr (.inl rfl))
          unfold defaultPlatform Options.processing
          dsimp only
          rw [unforced, directory]
      | some platforms =>
          simp only [Option.isSome_none, Bool.false_eq_true, reduceCtorEq, false_or]
          constructor
          · intro equal
            by_cases several : Several t (classPath ++ o.processDirs)
            · refine iff_of_true ?_ several
              by_contra single
              have differ : answer (defaultPlatform t ((o.processing dirs).processing o.processDirs)
                  classPath) {} ≠ answer (defaultPlatform t (o.processing dirs) classPath') {} :=
                defaultPlatform_ne (o := o.processing dirs) unforced directory
                  (fun path => (same path).symm) several single
              exact differ equal.symm
            · refine iff_of_false (fun several' => ?_) several
              exact defaultPlatform_ne unforced directory same several' several equal
          · intro alike
            have code : (classPath' ++ dirs).any (Path.endsLike ".dex") =
                (classPath ++ o.processDirs).any (Path.endsLike ".dex") := by
              rw [Bool.eq_iff_iff, List.any_eq_true, List.any_eq_true]
              simp only [same]
            rw [defaultPlatform_congr (application?_congr same alike) code]

section Again

variable (processed : o.processDirs = first ++ rest)
include processed

theorem mem_again_iff (again : path ∈ classPath ++ first) (other : String) :
    other ∈ classPath ++ (first ++ path :: rest) ↔ other ∈ classPath ++ o.processDirs := by
  rw [processed, ← List.append_assoc, ← List.append_assoc, List.mem_append, List.mem_cons,
    List.mem_append (s := classPath ++ first)]
  constructor
  · rintro (before | rfl | behind)
    · exact .inl before
    · exact .inl again
    · exact .inr behind
  · exact Or.imp_right .inr

/-- A path that is given again changes the platform exactly if it is the only application. -/
theorem defaultPlatform_again_iff (again : path ∈ classPath ++ first) :
    answer (defaultPlatform t (o.processing (first ++ path :: rest)) classPath) {} =
        answer (defaultPlatform t o classPath) {} ↔
      o.forcedAndroidJar.isSome = true ∨ o.androidJars = none ∨
        applications t (classPath ++ o.processDirs) ≠ [path] := by
  rw [defaultPlatform_eq_iff (mem_again_iff processed again), processed, ← List.append_assoc,
    ← List.append_assoc, several_insert_iff again]

/-- The only application is refused when it is given again, and nothing was wrong with it before.
-/
theorem defaultPlatform_again_of_only {platforms : String} (unforced : o.forcedAndroidJar = none)
    (directory : o.androidJars = some platforms)
    (only : applications t (classPath ++ o.processDirs) = [path]) :
    answer (defaultPlatform t (o.processing (first ++ path :: rest)) classPath) {} =
        .error (.configuration .severalApplications) ∧
      ∀ c, answer (defaultPlatform t o classPath) {} ≠ .error (.configuration c) := by
  have hm : path ∈ applications t (classPath ++ o.processDirs) := by
    rw [only]
    exact List.mem_singleton_self path
  have single : ¬ Several t (classPath ++ o.processDirs) := by
    unfold Several
    rw [only]
    exact Nat.lt_irrefl 1
  have several : Several t (classPath ++ (first ++ path :: rest)) := by
    have counted := applications_insert (t := t) path (classPath ++ first) rest
    rw [List.append_assoc, List.append_assoc, ← processed, only, (mem_applications.mp hm).2]
      at counted
    unfold Several
    rw [counted]
    exact Nat.one_lt_two
  exact ⟨defaultPlatform_of_several (o := o.processing _) unforced directory several,
    fun _ => defaultPlatform_ne_configuration unforced directory single hm⟩

end Again

end Sdk

namespace ClassPathState

variable {env : Surroundings} {o : Options} {path : String} {entries paths first rest : List String}

/-! ## The class path -/

theorem any_same_of_mem (hm : path ∈ entries) : entries.any (Path.same · path) = true :=
  List.any_eq_true.mpr ⟨path, hm, beq_self_eq_true _⟩

theorem addMissing_append (entries first rest : List String) :
    addMissing entries (first ++ rest) = addMissing (addMissing entries first) rest :=
  List.foldl_append

theorem addMissing_cons_of_any (h : entries.any (Path.same · path) = true) (rest : List String) :
    addMissing entries (path :: rest) = addMissing entries rest := by
  change addMissing (if entries.any (Path.same · path) then entries else entries ++ [path]) rest = _
  rw [if_pos h]

theorem any_same_addMissing_self (entries : List String) (path : String) :
    (addMissing entries [path]).any (Path.same · path) = true := by
  cases h : entries.any (Path.same · path) with
  | true => rwa [addMissing_cons_of_any h]
  | false =>
      change (if entries.any (Path.same · path) then entries else entries ++ [path]).any _ = true
      rw [h]
      exact any_same_of_mem (List.mem_append_right entries (List.mem_singleton_self path))

theorem subset_addMissing (paths entries : List String) : entries ⊆ addMissing entries paths := by
  induction paths generalizing entries with
  | nil => exact List.Subset.refl entries
  | cons next paths ih =>
      refine List.Subset.trans ?_ (ih _)
      dsimp only
      split
      · exact List.Subset.refl entries
      · exact List.subset_append_left entries [next]

theorem any_same_addMissing (h : entries.any (Path.same · path) = true) (paths : List String) :
    (addMissing entries paths).any (Path.same · path) = true := by
  obtain ⟨other, hm, same⟩ := List.any_eq_true.mp h
  exact List.any_eq_true.mpr ⟨other, subset_addMissing paths entries hm, same⟩

/-- A path that is given again behind its first occurrence is left out. -/
theorem addMissing_again (again : path ∈ entries ++ first) (rest : List String) :
    addMissing entries (first ++ path :: rest) = addMissing entries (first ++ rest) := by
  have known : (addMissing entries first).any (Path.same · path) = true := by
    cases List.mem_append.mp again with
    | inl listed => exact any_same_addMissing (any_same_of_mem listed) first
    | inr processed =>
        obtain ⟨before, behind, rfl⟩ := List.append_of_mem processed
        rw [← List.singleton_append, ← List.append_assoc, addMissing_append, addMissing_append]
        exact any_same_addMissing (any_same_addMissing_self _ path) behind
  rw [addMissing_append, addMissing_append, addMissing_cons_of_any known]

theorem platformPath_of_apk (apk : o.precedence = .apk) :
    platformPath env o entries =
      (answer (Sdk.defaultPlatform env.files o entries) {}).map fun p => [p.jar] := by
  unfold platformPath
  rw [apk]

theorem platformPath_processing_of_java (java : o.precedence = .java) (dirs : List String) :
    platformPath env (o.processing dirs) entries = platformPath env o entries := by
  have java' : (o.processing dirs).precedence = .java := java
  unfold platformPath
  rw [java, java']
  rfl

/-- A path that is given again changes the class path of new options exactly if a platform is sought
for applications and the path is the only one. -/
theorem effectivePath_again_iff (processed : o.processDirs = first ++ rest)
    (again : path ∈ o.classPath ++ first) :
    answer (effectivePath env) (ofOptions (o.processing (first ++ path :: rest))) =
        answer (effectivePath env) (ofOptions o) ↔
      wantsPlatform o o.classPath = false ∨ o.precedence = .java ∨
        o.forcedAndroidJar.isSome = true ∨ o.androidJars = none ∨
          Sdk.applications env.files (o.classPath ++ o.processDirs) ≠ [path] := by
  rw [PathCall.answer_ofOptions, PathCall.answer_ofOptions]
  change pathFor env (o.processing _) o.classPath = _ ↔ _
  have given : addMissing o.classPath (o.processing (first ++ path :: rest)).processDirs =
      addMissing o.classPath o.processDirs := by
    rw [processed]
    exact addMissing_again again rest
  cases wants : wantsPlatform o o.classPath with
  | false =>
      refine iff_of_true ?_ (.inl rfl)
      have wants' : wantsPlatform (o.processing (first ++ path :: rest)) o.classPath = false :=
        wants
      rw [pathFor_of_given env wants', pathFor_of_given env wants, given]
  | true =>
      have wants' : wantsPlatform (o.processing (first ++ path :: rest)) o.classPath = true := wants
      rw [pathFor_of_wanting env wants', pathFor_of_wanting env wants, given]
      cases precedence : o.precedence with
      | java =>
          refine iff_of_true ?_ (.inr (.inl rfl))
          rw [platformPath_processing_of_java precedence]
      | apk =>
          have precedence' : (o.processing (first ++ path :: rest)).precedence = .apk := precedence
          rw [platformPath_of_apk precedence, platformPath_of_apk precedence']
          simp only [Bool.true_eq_false, reduceCtorEq, false_or]
          rw [← Sdk.defaultPlatform_again_iff processed again]
          constructor
          · intro same
            rw [Sdk.defaultPlatform_again_iff processed again]
            by_contra affected
            obtain ⟨unforced, given, only⟩ : o.forcedAndroidJar = none ∧ o.androidJars ≠ none ∧
              Sdk.applications env.files (o.classPath ++ o.processDirs) = [path] := by
              simpa using affected
            obtain ⟨platforms, directory⟩ := Option.ne_none_iff_exists'.mp given
            obtain ⟨refused, fine⟩ :=
              Sdk.defaultPlatform_again_of_only processed unforced directory only
            rw [refused] at same
            cases found : answer (Sdk.defaultPlatform env.files o o.classPath) {} with
            | ok p =>
                rw [found] at same
                cases same
            | error e =>
                rw [found] at same
                exact fine _ (found.trans (congrArg Except.error (Except.error.inj same).symm))
          · exact fun same => by rw [same]

end ClassPathState

/-- Two ways to give the same paths ask for the same platform unless one of them gives a single
application more than once.  So a path that is given again behind its first occurrence makes no
difference to the platform and to the class path, except for the only application, which is refused
then. -/
theorem platform_of_repeated_path (env : Surroundings) (o : Options) :
    (∀ dirs classPath classPath' : List String,
      (∀ path, path ∈ classPath' ++ dirs ↔ path ∈ classPath ++ o.processDirs) →
        (answer (Sdk.defaultPlatform env.files (o.processing dirs) classPath') {} =
            answer (Sdk.defaultPlatform env.files o classPath) {} ↔
          o.forcedAndroidJar.isSome = true ∨ o.androidJars = none ∨
            (Sdk.Several env.files (classPath' ++ dirs) ↔
              Sdk.Several env.files (classPath ++ o.processDirs)))) ∧
    ∀ (path : String) (first rest : List String),
      o.processDirs = first ++ rest → path ∈ o.classPath ++ first →
        let more := o.processing (first ++ path :: rest)
        let isFree := o.forcedAndroidJar.isSome = true ∨ o.androidJars = none ∨
          Sdk.applications env.files (o.classPath ++ o.processDirs) ≠ [path]
        (answer (Sdk.defaultPlatform env.files more o.classPath) {} =
            answer (Sdk.defaultPlatform env.files o o.classPath) {} ↔ isFree) ∧
        (answer (ClassPathState.effectivePath env) (.ofOptions more) =
            answer (ClassPathState.effectivePath env) (.ofOptions o) ↔
          ClassPathState.wantsPlatform o o.classPath = false ∨ o.precedence = .java ∨ isFree) ∧
        (¬ isFree → answer (Sdk.defaultPlatform env.files more o.classPath) {} =
          .error (.configuration .severalApplications)) := by
  refine ⟨fun dirs classPath classPath' same => Sdk.defaultPlatform_eq_iff same, ?_⟩
  intro path first rest processed again
  dsimp only
  refine ⟨Sdk.defaultPlatform_again_iff processed again,
    ClassPathState.effectivePath_again_iff processed again, fun affected => ?_⟩
  obtain ⟨unforced, given, only⟩ : o.forcedAndroidJar = none ∧ o.androidJars ≠ none ∧
      Sdk.applications env.files (o.classPath ++ o.processDirs) = [path] := by
    simpa using affected
  obtain ⟨platforms, directory⟩ := Option.ne_none_iff_exists'.mp given
  exact (Sdk.defaultPlatform_again_of_only processed unforced directory only).1

namespace ClassPathState

/-- One platform and one application. -/
def oneApplication : Surroundings where
  files := .directory [
    ("a.apk", .file (Zip.write [⟨"classes.dex", [], false⟩])),
    ("p", .directory [("android-15", .directory [("android.jar", .file [])])])]
  settings := []

/-- Options of a user who lists the application and a file of code. -/
def bothListed : Options :=
  { precedence := .apk, prependClassPath := true, androidJars := some "p",
    classPath := ["a.apk", "x.dex"] }

set_option maxRecDepth 10000 in
/-- The platform depends on how often a path is given. -/
theorem not_platform_of_path_set :
    ¬ ∀ (t : FileTree) (o : Options) (classPath : List String) (path : String),
      path ∈ classPath ++ o.processDirs →
        answer (Sdk.defaultPlatform t (o.processing (o.processDirs ++ [path])) classPath) {} =
          answer (Sdk.defaultPlatform t o classPath) {} := by
  intro same
  have again := same oneApplication.files bothListed ["a.apk"] "a.apk" (by decide)
  have once : (answer (Sdk.defaultPlatform oneApplication.files bothListed ["a.apk"]) {}).toOption =
      some ⟨"p/android-15/android.jar", 15⟩ := by decide +kernel
  have twice : (answer (Sdk.defaultPlatform oneApplication.files
      (bothListed.processing (bothListed.processDirs ++ ["a.apk"])) ["a.apk"]) {}).toOption =
      none := by decide +kernel
  rw [again, once] at twice
  cases twice

set_option maxRecDepth 10000 in
theorem platform_of_repeated_path_bothListed :
    let more := bothListed.processing ["x.dex"]
    (∀ path, path ∈ ["a.apk", "x.dex"] ++ ["x.dex"] ↔
      path ∈ ["a.apk", "x.dex"] ++ bothListed.processDirs) ∧
    answer (Sdk.defaultPlatform oneApplication.files more ["a.apk", "x.dex"]) {} =
      answer (Sdk.defaultPlatform oneApplication.files bothListed ["a.apk", "x.dex"]) {} ∧
    bothListed.processDirs = [] ++ [] ∧ "x.dex" ∈ bothListed.classPath ++ [] ∧
    Sdk.applications oneApplication.files (bothListed.classPath ++ bothListed.processDirs) =
      ["a.apk"] ∧
    answer (ClassPathState.effectivePath oneApplication) (.ofOptions more) =
      answer (ClassPathState.effectivePath oneApplication) (.ofOptions bothListed) := by
  intro more
  have same (path : String) : path ∈ ["a.apk", "x.dex"] ++ ["x.dex"] ↔
      path ∈ ["a.apk", "x.dex"] ++ bothListed.processDirs := by
    simp [bothListed]
  have single : ¬ Sdk.Several oneApplication.files ["a.apk", "x.dex", "x.dex"] := by decide +kernel
  have single' : ¬ Sdk.Several oneApplication.files ["a.apk", "x.dex"] := by decide +kernel
  have only : Sdk.applications oneApplication.files ["a.apk", "x.dex"] = ["a.apk"] := by
    decide +kernel
  have listed : "x.dex" ∈ bothListed.classPath ++ [] := by decide
  have other : Sdk.applications oneApplication.files
      (bothListed.classPath ++ bothListed.processDirs) ≠ ["x.dex"] := by
    rw [show bothListed.classPath ++ bothListed.processDirs = ["a.apk", "x.dex"] from rfl, only]
    decide
  have both := platform_of_repeated_path oneApplication bothListed
  have platform := both.1 ["x.dex"] ["a.apk", "x.dex"] ["a.apk", "x.dex"] same
  have path := (both.2 "x.dex" [] [] rfl listed).2.1
  exact ⟨same, platform.mpr (.inr (.inr (iff_of_false single single'))), rfl, listed, only,
    path.mpr (.inr (.inr (.inr (.inr other))))⟩

end ClassPathState

end ClassUniverse
