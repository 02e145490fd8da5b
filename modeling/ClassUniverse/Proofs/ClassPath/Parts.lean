import ClassUniverse.Proofs.ClassPath.Histories
import ClassUniverse.Proofs.Text.Numerals

/-!
# The parts of an effective class path

For a Java program the effective class path has three parts: the entries that were set last, the
process directories that are not among them, each at its first occurrence, and the classes of the
runtime, where these are called for.  Which calls came before, and which of them have failed, makes
no difference.
-/

namespace ClassUniverse

open Text

/-! ## Releases -/

namespace JavaVersion

/-- Whether a version is one of a release of the runtime: from release 9 on it begins with the
number of the release, in the older scheme the number comes behind a one. -/
inductive IsOfRelease (version : String) (release : UInt32) : Prop
  | plain {numeral : List Char} {rest : List (List Char)}
      (parts : splitOn '.' (base (trim version.toList)) = numeral :: rest)
      (number : Spells numeral release) (modern : 9 ≤ release)
  | older {one numeral : List Char} {rest : List (List Char)}
      (parts : splitOn '.' (base (trim version.toList)) = one :: numeral :: rest)
      (scheme : Spells one 1) (number : Spells numeral release)

variable {version : String} {modular : Bool} {release : UInt32}

theorem isModular_eq_ok_iff_isModular? :
    isModular version = .ok modular ↔ isModular? (trim version.toList) = some modular := by
  unfold isModular
  cases isModular? (trim version.toList) with
  | none => simp
  | some answer => simp

/-- A version is told to be modular or not by the release that it is of. -/
theorem isModular_eq_ok_iff :
    isModular version = .ok modular ↔
      ∃ release, IsOfRelease version release ∧ modular = decide (9 ≤ release) := by
  rw [isModular_eq_ok_iff_isModular?, isModular?]
  constructor
  · intro h
    split at h
    · cases h
    · rename_i first rest parts
      split at h
      · cases h
      · rename_i major read
        have spelled := parseNumber?_eq_some_iff.mp read
        split at h
        · rename_i modern
          refine ⟨major, .plain parts spelled modern, ?_⟩
          rw [← Option.some.inj h, decide_eq_true modern]
        · split at h
          · rename_i one
            split at h
            · cases h
            · obtain ⟨minor, read', rfl⟩ := Option.map_eq_some_iff.mp h
              exact ⟨minor, .older parts (one ▸ spelled) (parseNumber?_eq_some_iff.mp read'), rfl⟩
          · cases h
  · rintro ⟨release, isOf, rfl⟩
    cases isOf with
    | plain parts number modern =>
        simp only [parts, parseNumber?_eq_some_iff.mpr number, if_pos modern, decide_eq_true modern]
    | older parts scheme number =>
        have low : ¬ (9 : UInt32) ≤ 1 := by decide
        simp only [parts, parseNumber?_eq_some_iff.mpr scheme, parseNumber?_eq_some_iff.mpr number,
          if_neg low, if_true, Option.map_some]

end JavaVersion

namespace ClassPathState

variable {env : Surroundings} {o : Options} {entries paths platform : List String}

/-! ## The classes of the runtime -/

/-- Whether entries of a class path are those of the runtime that the options choose: the mark of
its modules from release 9 on, else the first of its archives, followed by that of the extensions
when the whole program is analyzed. -/
inductive IsRuntime (env : Surroundings) (o : Options) : List String → Prop
  | modules {version : String} {release : UInt32} (found : findVersion env o = .ok version)
      (isOf : JavaVersion.IsOfRelease version release) (modular : 9 ≤ release) :
      IsRuntime env o [moduleMark]
  | archives {version home jar : String} {release : UInt32}
      (found : findVersion env o = .ok version) (isOf : JavaVersion.IsOfRelease version release)
      (older : ¬ 9 ≤ release) (isHome : o.javaHome = some home)
      (first : (runtimeArchives home).find? env.files.isFile = some jar) :
      IsRuntime env o
        (jar :: if o.wholeProgram then [Path.join (Path.join home "lib") "jce.jar"] else [])

theorem archiveEntries_eq_ok_iff {t : FileTree} :
    archiveEntries t o = .ok entries ↔ ∃ home jar, o.javaHome = some home ∧
      (runtimeArchives home).find? t.isFile = some jar ∧
      entries =
        jar :: if o.wholeProgram then [Path.join (Path.join home "lib") "jce.jar"] else [] := by
  unfold archiveEntries
  cases o.javaHome with
  | none => simp
  | some home =>
      dsimp only
      cases found : (runtimeArchives home).find? t.isFile with
      | none =>
          constructor
          · intro h
            cases h
          · rintro ⟨home', jar, same, first, -⟩
            cases same
            cases found.symm.trans first
      | some jar =>
          constructor
          · intro h
            cases h
            exact ⟨home, jar, rfl, found, rfl⟩
          · rintro ⟨home', jar', same, first, rfl⟩
            cases same
            cases found.symm.trans first
            rfl

theorem runtimePath_eq_ok_iff : runtimePath env o = .ok entries ↔ IsRuntime env o entries := by
  unfold runtimePath
  constructor
  · intro h
    cases found : findVersion env o with
    | error e => simp [found] at h
    | ok version =>
        rw [found] at h
        dsimp only at h
        cases known : JavaVersion.isModular version with
        | error e => simp [known] at h
        | ok modular =>
            obtain ⟨release, isOf, told⟩ := JavaVersion.isModular_eq_ok_iff.mp known
            rw [known] at h
            cases modular with
            | true =>
                cases h
                exact .modules found isOf (of_decide_eq_true told.symm)
            | false =>
                obtain ⟨home, jar, isHome, first, rfl⟩ := archiveEntries_eq_ok_iff.mp h
                exact .archives found isOf (of_decide_eq_false told.symm) isHome first
  · intro h
    cases h with
    | modules found isOf modular =>
        have known := JavaVersion.isModular_eq_ok_iff.mpr ⟨_, isOf, (decide_eq_true modular).symm⟩
        rw [found]
        dsimp only
        rw [known]
    | archives found isOf older isHome first =>
        have known := JavaVersion.isModular_eq_ok_iff.mpr ⟨_, isOf, (decide_eq_false older).symm⟩
        rw [found]
        dsimp only
        rw [known]
        exact archiveEntries_eq_ok_iff.mpr ⟨_, _, isHome, first, rfl⟩

/-! ## Process directories -/

/-- The paths that are not among some entries, each at its first occurrence. -/
def newcomers (entries paths : List String) : List String :=
  (paths.filter fun path => !entries.any (Path.same · path)).eraseDupsBy Path.same

theorem same_comm (a b : String) : Path.same a b = Path.same b a :=
  BEq.comm

theorem newcomers_cons_of_any {path : String} (h : entries.any (Path.same · path) = true) :
    newcomers entries (path :: paths) = newcomers entries paths := by
  unfold newcomers
  rw [List.filter_cons_of_neg (by simp [h])]

/-- A path that is new is a newcomer, and those behind it are new beside it too. -/
theorem newcomers_cons_of_not_any {path : String} (h : entries.any (Path.same · path) = false) :
    newcomers entries (path :: paths) = path :: newcomers (entries ++ [path]) paths := by
  unfold newcomers
  rw [List.filter_cons_of_pos (by simp [h]), List.eraseDupsBy_cons, List.filter_filter]
  congr 2
  apply List.filter_congr
  intro other _
  rw [List.any_append, List.any_cons, List.any_nil, same_comm other path]
  cases Path.same path other <;> simp

theorem addMissing_eq_append (entries paths : List String) :
    addMissing entries paths = entries ++ newcomers entries paths := by
  induction paths generalizing entries with
  | nil => exact (List.append_nil entries).symm
  | cons path paths ih =>
      change addMissing (if entries.any (Path.same · path) then entries else entries ++ [path])
        paths = _
      cases known : entries.any (Path.same · path) with
      | true => rw [if_pos rfl, ih, newcomers_cons_of_any known]
      | false =>
          rw [if_neg Bool.false_ne_true, ih, newcomers_cons_of_not_any known, List.append_assoc]
          rfl

/-! ## The whole class path -/

/-- Whether entries are what follows the given ones on the class path of a Java program: nothing,
unless nothing is set or the runtime is called for. -/
def IsPlatformPart (env : Surroundings) (o : Options) (entries platform : List String) : Prop :=
  if entries ≠ [] ∧ o.prependClassPath = false then platform = [] else IsRuntime env o platform

theorem isPlatformPart_iff_of_given (given : wantsPlatform o entries = false) :
    IsPlatformPart env o entries platform ↔ platform = [] := by
  have unwanted : entries ≠ [] ∧ o.prependClassPath = false := by
    simpa [wantsPlatform] using given
  exact iff_of_eq (if_pos unwanted)

theorem isPlatformPart_iff_of_wanting (wants : wantsPlatform o entries = true) :
    IsPlatformPart env o entries platform ↔ IsRuntime env o platform := by
  have called : ¬ (entries ≠ [] ∧ o.prependClassPath = false) := by
    rintro ⟨nonempty, unset⟩
    simp [wantsPlatform, nonempty, unset] at wants
  exact iff_of_eq (if_neg called)

theorem pathFor_eq_ok_iff (java : o.precedence = .java) {path : ClassPath} :
    pathFor env o entries = .ok path ↔ ∃ platform,
      path.entries = entries ++ newcomers entries o.processDirs ++ platform ∧
        IsPlatformPart env o entries platform := by
  obtain ⟨listed⟩ := path
  cases wants : wantsPlatform o entries with
  | false =>
      rw [pathFor_of_given env wants, addMissing_eq_append]
      simp [isPlatformPart_iff_of_given wants, eq_comm]
  | true =>
      have runtime : platformPath env o entries = runtimePath env o := by
        unfold platformPath
        rw [java]
      rw [pathFor_of_wanting env wants, runtime, addMissing_eq_append]
      simp only [isPlatformPart_iff_of_wanting wants, ← runtimePath_eq_ok_iff]
      cases runtimePath env o with
      | error e => simp [Except.map]
      | ok platform => simp [Except.map, eq_comm]

/-- After any calls, failed ones among them, the effective class path of a Java program consists of
the entries set last, the process directories that are not among them, each at its first occurrence,
and the classes of the runtime unless there are entries that the runtime is not put before; there is
none exactly if the runtime is called for and not found. -/
theorem effectivePath_eq_ok_iff (env : Surroundings) {o : Options} (java : o.precedence = .java)
    (calls : List PathCall) (path : ClassPath) :
    let s := calls.foldl (fun s c => c.run env s) (ofOptions o)
    let entries := calls.foldl PathCall.listed o.classPath
    answer (effectivePath env) s = .ok path ↔ ∃ platform,
      path.entries = entries ++ newcomers entries o.processDirs ++ platform ∧
        IsPlatformPart env o entries platform := by
  intro s entries
  obtain ⟨remembers, listed, -⟩ := PathCall.run_all (remembers_ofOptions env o) calls
  have listed : s.explicit = entries := listed
  have unsought (chosen : Option UInt32) :
      pathFor env (o.asking chosen) entries = pathFor env o entries :=
    pathFor_asking_of_unsought chosen fun _ apk => nomatch java.symm.trans apk
  rw [(effectivePath_spec remembers).1, listed, unsought]
  exact pathFor_eq_ok_iff java

/-- A runtime of release 8 in a directory. -/
def olderRuntime : Surroundings where
  files := .directory [("jdk", .directory [
    ("release", .file (Text.encode "JAVA_VERSION=\"1.8.0_292\"")),
    ("jre", .directory [("lib", .directory [("rt.jar", .file [])])])])]
  settings := []

/-- Options that name a process directory twice, and one that is among the entries set later. -/
def repeatedDirs : Options :=
  { processDirs := ["b", "a/", "b/."], prependClassPath := true, javaHome := some "jdk",
    wholeProgram := true }

theorem effectivePath_eq_ok_iff_olderRuntime :
    repeatedDirs.precedence = .java ∧ ∃ platform,
      ["a", "a", "b", "jdk/jre/lib/rt.jar", "jdk/lib/jce.jar"] =
        ["a", "a"] ++ newcomers ["a", "a"] ["b", "a/", "b/."] ++ platform ∧
      IsPlatformPart olderRuntime repeatedDirs ["a", "a"] platform :=
  ⟨rfl, (effectivePath_eq_ok_iff olderRuntime (o := repeatedDirs) rfl
    [.effective, .set ["a"], .extend "a"] ⟨_⟩).mp
      (Sdk.eq_ok_of_toOption (by decide +kernel))⟩

end ClassPathState

end ClassUniverse
