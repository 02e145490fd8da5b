import ClassUniverse.Archive.Packing
import ClassUniverse.ClassPath
import ClassUniverse.Proofs.ClassPath.Platforms

/-!
# The class path after any calls

A class path remembers the version of the runtime, what its platforms are and what it has computed
last.  After any calls it answers as a new class path with its present entries does, where the new
one is asked for the platform level that has been chosen first, and without being asked for it where
that level does not come from the entries.
-/

namespace ClassUniverse

/-- The options of a user who gives other entries. -/
def Options.listing (o : Options) (entries : List String) : Options :=
  { o with classPath := entries }

namespace ClassPathState

variable {env : Surroundings} {o : Options} {s : ClassPathState} {entries : List String}

/-! ## What is computed -/

/-- The entries of a runtime for some options. -/
def runtimePath (env : Surroundings) (o : Options) : Except Error (List String) :=
  match findVersion env o with
  | .error e => .error e
  | .ok version =>
      match JavaVersion.isModular version with
      | .error e => .error e
      | .ok true => .ok [moduleMark]
      | .ok false => archiveEntries env.files o

/-- The entries of the platform for some options and explicit entries. -/
def platformPath (env : Surroundings) (o : Options) (entries : List String) :
    Except Error (List String) :=
  match o.precedence with
  | .apk => (answer (Sdk.defaultPlatform env.files o entries) {}).map fun p => [p.jar]
  | .java => runtimePath env o

/-- Whether a platform is sought in a directory for some options and explicit entries. -/
def wantsPlatform (o : Options) (entries : List String) : Bool :=
  entries.isEmpty || o.prependClassPath

/-- The class path for some options and explicit entries. -/
def pathFor (env : Surroundings) (o : Options) (entries : List String) : Except Error ClassPath :=
  let given := addMissing entries o.processDirs
  if wantsPlatform o entries then
    (platformPath env o entries).map fun platform => ⟨given ++ platform⟩
  else .ok ⟨given ++ []⟩

theorem answer_onSdk {α : Type} (action : SdkAction α) (s : ClassPathState) :
    answer (onSdk action) s = answer action s.sdk := by
  unfold answer onSdk
  cases action s.sdk <;> rfl

theorem after_onSdk {α : Type} (action : SdkAction α) (s : ClassPathState) :
    after (onSdk action) s = { s with sdk := after action s.sdk } := by
  unfold after onSdk
  cases action s.sdk <;> rfl

/-- Whether a version is the one that would be found for some options. -/
def IsVersion (env : Surroundings) (o : Options) (version : Option String) : Prop :=
  ∀ v, version = some v → findVersion env o = .ok v

theorem runtimeVersion_spec (exact : IsVersion env s.options s.javaVersion) :
    answer (runtimeVersion env) s = findVersion env s.options ∧
      ∃ version, IsVersion env s.options version ∧
        after (runtimeVersion env) s = { s with javaVersion := version } := by
  cases remembered : s.javaVersion with
  | some version =>
      have run : runtimeVersion env s = .ok version s := by
        simp only [runtimeVersion, bind_apply, get_apply, remembered, pure_apply]
      rw [answer_of_ok run, after_of_ok run]
      exact ⟨(exact version remembered).symm, _, exact, rfl⟩
  | none =>
      cases found : findVersion env s.options with
      | error e =>
          have run : runtimeVersion env s = .error e s := by
            simp only [runtimeVersion, bind_apply, get_apply, remembered, found, throw_apply]
          rw [answer_of_error run, after_of_error run]
          exact ⟨rfl, _, exact, rfl⟩
      | ok version =>
          have run : runtimeVersion env s = .ok version { s with javaVersion := some version } := by
            simp only [runtimeVersion, bind_apply, get_apply, remembered, found, modify_apply,
              pure_apply]
          rw [answer_of_ok run, after_of_ok run]
          refine ⟨rfl, some version, fun v hv => ?_, rfl⟩
          exact Option.some.inj hv ▸ found

theorem javaEntries_spec (exact : IsVersion env s.options s.javaVersion) :
    answer (javaEntries env) s = runtimePath env s.options ∧
      ∃ version classes, IsVersion env s.options version ∧
        after (javaEntries env) s =
          { s with javaVersion := version, runtimeClasses := classes } := by
  obtain ⟨same, version, exact', known⟩ := runtimeVersion_spec exact
  unfold javaEntries runtimePath
  rw [answer_bind, after_bind, same, known]
  cases findVersion env s.options with
  | error e => exact ⟨rfl, _, _, exact', rfl⟩
  | ok found =>
      dsimp only
      cases JavaVersion.isModular found with
      | error e => exact ⟨rfl, _, _, exact', rfl⟩
      | ok modular =>
          cases modular with
          | true => exact ⟨rfl, _, _, exact', rfl⟩
          | false =>
              dsimp only
              rw [answer_bind, after_bind, answer_of_ok (get_apply _), after_of_ok (get_apply _)]
              dsimp only
              cases archiveEntries env.files s.options <;> exact ⟨rfl, _, _, exact', rfl⟩

/-! ## What is remembered -/

/-- The platform level that a new class path chooses when it is computed. -/
def levelBy (env : Surroundings) (o : Options) (entries : List String) : Option UInt32 :=
  match o.precedence with
  | .apk => (after (Sdk.defaultPlatform env.files o entries) {}).chosen
  | .java => none

/-- Whether everything that is remembered for some options may be found again. -/
structure Remembers (env : Surroundings) (o : Options) (s : ClassPathState) : Prop where
  options : s.options = o
  version : IsVersion env o s.javaVersion
  sdk : s.sdk.Remembers env.files o
  path : ∀ p, s.effective = some p →
    pathFor env (o.asking s.sdk.chosen) s.explicit = .ok p ∧
      (wantsPlatform o s.explicit = true → o.precedence = .apk → s.sdk.chosen.isSome = true)

theorem remembers_ofOptions (env : Surroundings) (o : Options) :
    Remembers env o (ofOptions o) where
  options := rfl
  version _ h := nomatch h
  sdk := Sdk.remembers_empty env.files o
  path _ h := nomatch h

theorem platformEntries_spec (remembers : Remembers env o s) :
    answer (platformEntries env) s = platformPath env (o.asking s.sdk.chosen) s.explicit ∧
      ∃ version sdk classes, IsVersion env o version ∧ sdk.Remembers env.files o ∧
        sdk.chosen = s.sdk.chosen.or (levelBy env o s.explicit) ∧
        after (platformEntries env) s =
          { s with javaVersion := version, sdk := sdk, runtimeClasses := classes } := by
  cases remembers.options
  unfold platformEntries platformPath levelBy
  rw [answer_bind, after_bind, answer_of_ok (get_apply _), after_of_ok (get_apply _)]
  have kept : (s.options.asking s.sdk.chosen).precedence = s.options.precedence := rfl
  rw [kept]
  dsimp only
  cases s.options.precedence with
  | apk =>
      obtain ⟨same, remembers', chosen⟩ := Sdk.defaultPlatform_spec remembers.sdk s.explicit
      dsimp only
      rw [answer_bind, after_bind, answer_onSdk, after_onSdk, same]
      refine ⟨?_, s.javaVersion, _, s.runtimeClasses, remembers.version, remembers', chosen, ?_⟩
      · cases answer (Sdk.defaultPlatform env.files (s.options.asking s.sdk.chosen) s.explicit) {}
          <;> rfl
      · cases answer (Sdk.defaultPlatform env.files (s.options.asking s.sdk.chosen) s.explicit) {}
          <;> rfl
  | java =>
      obtain ⟨same, version, classes, exact, known⟩ := javaEntries_spec remembers.version
      exact ⟨same, version, s.sdk, classes, exact, remembers.sdk, Option.or_none.symm, known⟩

theorem pathFor_of_given (env : Surroundings) (given : wantsPlatform o entries = false) :
    pathFor env o entries = .ok ⟨addMissing entries o.processDirs ++ []⟩ := by
  unfold pathFor
  rw [given]
  rfl

theorem pathFor_of_wanting (env : Surroundings) (wants : wantsPlatform o entries = true) :
    pathFor env o entries =
      (platformPath env o entries).map fun platform =>
        ⟨addMissing entries o.processDirs ++ platform⟩ := by
  unfold pathFor
  rw [wants]
  rfl

theorem effectivePath_of_computed {p : ClassPath} (env : Surroundings)
    (computed : s.effective = some p) : effectivePath env s = .ok p s := by
  simp only [effectivePath, bind_apply, get_apply, computed, pure_apply]

theorem effectivePath_of_given (env : Surroundings) (computed : s.effective = none)
    (given : wantsPlatform s.options s.explicit = false) :
    effectivePath env s = .ok ⟨addMissing s.explicit s.options.processDirs ++ []⟩
      { s with effective := some ⟨addMissing s.explicit s.options.processDirs ++ []⟩ } := by
  unfold wantsPlatform at given
  simp only [effectivePath, bind_apply, get_apply, computed, given, Bool.false_eq_true, if_false]
  rfl

theorem effectivePath_of_wanting (env : Surroundings) (computed : s.effective = none)
    (wants : wantsPlatform s.options s.explicit = true) :
    effectivePath env s = match platformEntries env s with
      | .error e t => .error e t
      | .ok platform t =>
          .ok ⟨addMissing s.explicit s.options.processDirs ++ platform⟩
            { t with
              effective := some ⟨addMissing s.explicit s.options.processDirs ++ platform⟩ } := by
  unfold wantsPlatform at wants
  simp only [effectivePath, bind_apply, get_apply, computed, wants, if_true]
  cases platformEntries env s <;> rfl

/-- Asking for the level that has been chosen on the way makes no difference. -/
theorem platformPath_again (env : Surroundings) (o : Options) (entries : List String)
    (chosen : Option UInt32) :
    platformPath env (o.asking (chosen.or (levelBy env o entries))) entries =
      platformPath env (o.asking chosen) entries := by
  cases chosen with
  | some level => rfl
  | none =>
      have kept (c : Option UInt32) : (o.asking c).precedence = o.precedence := rfl
      unfold platformPath levelBy
      rw [kept, kept]
      cases o.precedence with
      | java => rfl
      | apk => exact congrArg (Except.map _ ·) (Sdk.defaultPlatform_again env.files o entries)

theorem isSome_levelBy {platform : List String} {chosen : Option UInt32}
    (h : platformPath env (o.asking chosen) entries = .ok platform) (apk : o.precedence = .apk) :
    (chosen.or (levelBy env o entries)).isSome = true := by
  cases chosen with
  | some level => rfl
  | none =>
      change platformPath env o entries = .ok platform at h
      unfold platformPath at h
      unfold levelBy
      rw [apk] at h ⊢
      cases found : answer (Sdk.defaultPlatform env.files o entries) {} with
      | error e =>
          rw [found] at h
          cases h
      | ok p => exact Sdk.chosen_of_defaultPlatform found

/-- The level that is chosen when a class path is asked for. -/
def soughtLevel (env : Surroundings) (o : Options) (entries : List String) : Option UInt32 :=
  if wantsPlatform o entries then levelBy env o entries else none

theorem or_soughtLevel {p : ClassPath} (remembers : Remembers env o s)
    (computed : s.effective = some p) :
    s.sdk.chosen.or (soughtLevel env o s.explicit) = s.sdk.chosen := by
  cases chosen : s.sdk.chosen with
  | some level => rfl
  | none =>
      have settled := (remembers.path p computed).2
      rw [chosen] at settled
      unfold soughtLevel levelBy
      split
      next wants =>
        cases precedence : o.precedence with
        | java => rfl
        | apk => cases settled wants precedence
      · rfl

/-- What is computed now is remembered as it would be computed again. -/
theorem Remembers.store {t : ClassPathState} {p : ClassPath} (remembers : Remembers env o t)
    (known : pathFor env (o.asking t.sdk.chosen) t.explicit = .ok p)
    (chosen : wantsPlatform o t.explicit = true → o.precedence = .apk →
      t.sdk.chosen.isSome = true) :
    Remembers env o { t with effective := some p } where
  options := remembers.options
  version := remembers.version
  sdk := remembers.sdk
  path _ h := Option.some.inj h ▸ ⟨known, chosen⟩

theorem effectivePath_spec (remembers : Remembers env o s) :
    answer (effectivePath env) s = pathFor env (o.asking s.sdk.chosen) s.explicit ∧
      Remembers env o (after (effectivePath env) s) ∧
      (after (effectivePath env) s).explicit = s.explicit ∧
      (after (effectivePath env) s).sdk.chosen =
        s.sdk.chosen.or (soughtLevel env o s.explicit) := by
  cases computed : s.effective with
  | some p =>
      have run := effectivePath_of_computed env computed
      rw [answer_of_ok run, after_of_ok run, or_soughtLevel remembers computed]
      exact ⟨(remembers.path p computed).1.symm, remembers, rfl, rfl⟩
  | none =>
      cases remembers.options
      unfold soughtLevel
      cases wants : wantsPlatform s.options s.explicit with
      | false =>
          have run := effectivePath_of_given env computed wants
          have known (chosen : Option UInt32) :=
            pathFor_of_given (o := s.options.asking chosen) env wants
          rw [answer_of_ok run, after_of_ok run]
          refine ⟨(known _).symm, remembers.store (known _) fun h => ?_, rfl, Option.or_none.symm⟩
          rw [wants] at h
          cases h
      | true =>
          obtain ⟨same, version, sdk, classes, exact, remembers', chosen, known⟩ :=
            platformEntries_spec remembers
          have run := effectivePath_of_wanting env computed wants
          have found (chosen : Option UInt32) :=
            pathFor_of_wanting (o := s.options.asking chosen) env wants
          have still : Remembers env s.options
              { s with javaVersion := version, sdk := sdk, runtimeClasses := classes } := {
            options := rfl
            version := exact
            sdk := remembers'
            path := fun p h => nomatch computed.symm.trans h }
          cases outcome : platformEntries env s with
          | error e t =>
              rw [answer_of_error outcome] at same
              rw [after_of_error outcome] at known
              rw [outcome] at run
              rw [answer_of_error run, after_of_error run, found, ← same, known]
              exact ⟨rfl, still, rfl, chosen⟩
          | ok platform t =>
              rw [answer_of_ok outcome] at same
              rw [after_of_ok outcome] at known
              rw [outcome] at run
              rw [answer_of_ok run, after_of_ok run, found, ← same, known]
              refine ⟨rfl, still.store ?_ fun _ apk => ?_, rfl, chosen⟩
              · rw [found, chosen, platformPath_again, ← same]
                rfl
              · rw [chosen]
                exact isSome_levelBy same.symm apk

/-- Where no platform is sought, a level makes no difference. -/
theorem pathFor_asking_of_unsought (chosen : Option UInt32)
    (unsought : wantsPlatform o entries = true → o.precedence = .apk → False) :
    pathFor env (o.asking chosen) entries = pathFor env o entries := by
  cases wants : wantsPlatform o entries with
  | false =>
      have given := pathFor_of_given (o := o.asking chosen) env wants
      exact given.trans (pathFor_of_given env wants).symm
  | true =>
      have found := pathFor_of_wanting (o := o.asking chosen) env wants
      rw [found, pathFor_of_wanting env wants]
      have kept : (o.asking chosen).precedence = o.precedence := rfl
      unfold platformPath
      rw [kept]
      cases precedence : o.precedence with
      | apk => exact (unsought wants precedence).elim
      | java => rfl

theorem androidPlatform_spec (remembers : Remembers env o s) :
    Remembers env o (after (androidPlatform env) s) ∧
      (after (androidPlatform env) s).explicit = s.explicit ∧
      (after (androidPlatform env) s).sdk.chosen =
        s.sdk.chosen.or (after (Sdk.defaultPlatform env.files o s.explicit) {}).chosen := by
  cases remembers.options
  obtain ⟨-, remembers', chosen⟩ := Sdk.defaultPlatform_spec remembers.sdk s.explicit
  unfold androidPlatform
  rw [after_bind, answer_of_ok (get_apply _), after_of_ok (get_apply _)]
  dsimp only
  rw [after_onSdk]
  refine ⟨⟨rfl, remembers.version, remembers', fun p computed => ?_⟩, rfl, chosen⟩
  obtain ⟨known, settled⟩ := remembers.path p computed
  dsimp only
  rw [chosen]
  cases before : s.sdk.chosen with
  | some level =>
      rw [before] at known
      exact ⟨known, fun _ _ => rfl⟩
  | none =>
      rw [before] at known settled
      have unsought (wants : wantsPlatform s.options s.explicit = true)
          (apk : s.options.precedence = .apk) : False := nomatch settled wants apk
      refine ⟨?_, fun wants apk => (unsought wants apk).elim⟩
      rw [pathFor_asking_of_unsought _ unsought]
      exact known

end ClassPathState

/-! ## Calls -/

/-- A call of a class path. -/
inductive PathCall
  | set (entries : List String)
  | extend (entry : String)
  | effective
  | platform
  deriving DecidableEq, Repr

namespace PathCall

open ClassPathState

variable {env : Surroundings} {o : Options} {s : ClassPathState} {entries : List String}

/-- The class path after a call, whether the call fails or not. -/
def run (env : Surroundings) : PathCall → ClassPathState → ClassPathState
  | set entries, s => s.setExplicit entries
  | extend entry, s => s.extend entry
  | effective, s => after (effectivePath env) s
  | platform, s => after (androidPlatform env) s

/-- The explicit entries after a call. -/
def listed (entries : List String) : PathCall → List String
  | set entries => entries
  | extend entry => entries ++ [entry]
  | effective => entries
  | platform => entries

/-- The level that a call makes a new class path choose. -/
def level (env : Surroundings) (o : Options) (entries : List String) (c : PathCall) :
    Option UInt32 :=
  (c.run env (ofOptions (o.listing entries))).sdk.chosen

/-- The level that a new class path chooses at the first of some calls at which it chooses one. -/
def firstLevel (env : Surroundings) (o : Options) : List String → List PathCall → Option UInt32
  | _, [] => none
  | entries, c :: calls =>
      (c.level env o entries).or (firstLevel env o (c.listed entries) calls)

theorem run_spec (remembers : Remembers env o s) (c : PathCall) :
    Remembers env o (c.run env s) ∧ (c.run env s).explicit = c.listed s.explicit ∧
      (c.run env s).sdk.chosen = s.sdk.chosen.or (c.level env o s.explicit) := by
  unfold level
  have new := remembers_ofOptions env (o.listing s.explicit)
  cases c with
  | set entries =>
      exact ⟨⟨remembers.options, remembers.version, remembers.sdk, nofun⟩, rfl, Option.or_none.symm⟩
  | extend entry =>
      exact ⟨⟨remembers.options, remembers.version, remembers.sdk, nofun⟩, rfl, Option.or_none.symm⟩
  | effective =>
      obtain ⟨-, remembers', listed, chosen⟩ := effectivePath_spec remembers
      obtain ⟨-, -, -, first⟩ := effectivePath_spec new
      exact ⟨remembers', listed, chosen.trans (congrArg _ first.symm)⟩
  | platform =>
      obtain ⟨remembers', listed, chosen⟩ := androidPlatform_spec remembers
      obtain ⟨-, -, first⟩ := androidPlatform_spec new
      exact ⟨remembers', listed, chosen.trans (congrArg _ first.symm)⟩

theorem run_all (remembers : Remembers env o s) (calls : List PathCall) :
    Remembers env o (calls.foldl (fun s c => c.run env s) s) ∧
      (calls.foldl (fun s c => c.run env s) s).explicit = calls.foldl listed s.explicit ∧
      (calls.foldl (fun s c => c.run env s) s).sdk.chosen =
        s.sdk.chosen.or (firstLevel env o s.explicit calls) := by
  induction calls generalizing s with
  | nil => exact ⟨remembers, rfl, Option.or_none.symm⟩
  | cons c calls ih =>
      obtain ⟨remembers', listed', chosen⟩ := run_spec remembers c
      obtain ⟨last, entries, level⟩ := ih remembers'
      rw [listed'] at entries level
      refine ⟨last, entries, level.trans ?_⟩
      rw [chosen, Option.or_assoc]
      rfl

/-- Where the user says which platform it is, a level that may be chosen makes no difference. -/
theorem pathFor_asking_of_fixed {level : UInt32} (choice : Sdk.IsChoice env.files o level)
    (fixed : o.forcedAndroidJar.isSome = true ∨ o.androidLevel.isSome = true) :
    pathFor env (o.asking (some level)) entries = pathFor env o entries := by
  have again := Sdk.defaultPlatform_asking choice entries fixed
  have kept : (o.asking (some level)).precedence = o.precedence := rfl
  have wants : wantsPlatform (o.asking (some level)) entries = wantsPlatform o entries := rfl
  unfold pathFor platformPath
  rw [wants, kept, again]
  rfl

theorem answer_ofOptions (env : Surroundings) (o : Options) :
    answer (effectivePath env) (ofOptions o) = pathFor env o o.classPath :=
  (effectivePath_spec (remembers_ofOptions env o)).1

/-- After any calls, failed ones among them, a class path answers as a new one with its entries does
that is asked for the level chosen first.  It makes no difference to ask for it unless the platform
is sought by a level that the user leaves open. -/
theorem effectivePath_run (env : Surroundings) (o : Options) (calls : List PathCall) :
    let s := calls.foldl (fun s c => c.run env s) (ofOptions o)
    let entries := calls.foldl listed o.classPath
    let level := firstLevel env o o.classPath calls
    answer (effectivePath env) s =
        answer (effectivePath env) (ofOptions ((o.listing entries).asking level)) ∧
      (o.precedence = .java ∨ o.forcedAndroidJar.isSome = true ∨ o.androidLevel.isSome = true ∨
          wantsPlatform o entries = false ∨ level = none →
        answer (effectivePath env) s =
          answer (effectivePath env) (ofOptions (o.listing entries))) := by
  intro s entries level
  obtain ⟨remembers, listed, chosen⟩ := run_all (remembers_ofOptions env o) calls
  have chosen : s.sdk.chosen = level := chosen
  have same : answer (effectivePath env) s = pathFor env (o.asking level) entries := by
    have known := (effectivePath_spec remembers).1
    rw [listed] at known
    exact chosen ▸ known
  have asked := answer_ofOptions env ((o.listing entries).asking level)
  have new := answer_ofOptions env (o.listing entries)
  refine ⟨same.trans asked.symm, fun condition => (same.trans ?_).trans new.symm⟩
  change pathFor env (o.asking level) entries = pathFor env o entries
  cases found : level with
  | none => rfl
  | some l =>
      have choice := remembers.sdk.choice l (chosen.trans found)
      rcases condition with java | forced | asks | given | nothing
      · exact pathFor_asking_of_unsought _ fun _ apk => nomatch java.symm.trans apk
      · exact pathFor_asking_of_fixed choice (.inl forced)
      · exact pathFor_asking_of_fixed choice (.inr asks)
      · exact pathFor_asking_of_unsought _ fun wants => nomatch given.symm.trans wants
      · cases nothing.symm.trans found

/-- Two platforms, and an application that asks for the lower one. -/
def twoPlatforms : Surroundings where
  files := .directory [
    ("a.apk", .file (Zip.write [⟨"classes.dex", [], false⟩,
      ⟨"AndroidManifest.xml", Text.encode "targetSdkVersion=10", false⟩])),
    ("p", .directory [("android-10", .directory [("android.jar", .file [])]),
      ("android-15", .directory [("android.jar", .file [])])])]
  settings := []

/-- Options of a user who leaves the level open. -/
def openLevel : Options :=
  { precedence := .apk, prependClassPath := true, androidJars := some "p" }

/-- An application is looked at, and a file of code is put in its place. -/
def replacement : List PathCall := [set ["a.apk"], effective, set ["x.dex"]]

set_option maxRecDepth 10000 in
/-- The level of the application is kept, while code alone would be given the usual level. -/
theorem level_outlasts_application :
    answer (effectivePath twoPlatforms)
        (replacement.foldl (fun s c => c.run twoPlatforms s) (ofOptions openLevel)) ≠
      answer (effectivePath twoPlatforms)
        (ofOptions (openLevel.listing (replacement.foldl listed openLevel.classPath))) := by
  intro same
  have kept : (answer (effectivePath twoPlatforms)
      (replacement.foldl (fun s c => c.run twoPlatforms s) (ofOptions openLevel))).toOption =
        some ⟨["x.dex", "p/android-10/android.jar"]⟩ := by decide +kernel
  have new : (answer (effectivePath twoPlatforms)
      (ofOptions (openLevel.listing (replacement.foldl listed openLevel.classPath)))).toOption =
        some ⟨["x.dex", "p/android-15/android.jar"]⟩ := by decide +kernel
  rw [same, new] at kept
  revert kept
  decide

set_option maxRecDepth 10000 in
theorem effectivePath_run_replacement :
    firstLevel twoPlatforms openLevel [] replacement = some 10 ∧
      answer (effectivePath twoPlatforms)
          (replacement.foldl (fun s c => c.run twoPlatforms s) (ofOptions openLevel)) =
        answer (effectivePath twoPlatforms)
          (ofOptions { openLevel with classPath := ["x.dex"], androidLevel := some 10 }) ∧
      ({ openLevel with androidLevel := some 10 } : Options).androidLevel.isSome = true ∧
      answer (effectivePath twoPlatforms)
          (replacement.foldl (fun s c => c.run twoPlatforms s)
            (ofOptions { openLevel with androidLevel := some 10 })) =
        answer (effectivePath twoPlatforms)
          (ofOptions { openLevel with classPath := ["x.dex"], androidLevel := some 10 }) := by
  have level : firstLevel twoPlatforms openLevel [] replacement = some 10 := by decide +kernel
  have asked := (effectivePath_run twoPlatforms openLevel replacement).1
  rw [show firstLevel twoPlatforms openLevel openLevel.classPath replacement = some 10 from level]
    at asked
  exact ⟨level, asked, rfl,
    (effectivePath_run twoPlatforms { openLevel with androidLevel := some 10 } replacement).2
      (.inr (.inr (.inl rfl)))⟩

end PathCall

end ClassUniverse
