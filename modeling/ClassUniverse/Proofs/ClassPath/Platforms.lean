import ClassUniverse.Proofs.Operation
import ClassUniverse.Sdk

/-!
# What is remembered of platforms

The highest level of a directory is remembered as it would be found again, and a level that has been
chosen is kept.  A chosen level is adjusted to what is installed, so it would be chosen again by
somebody who asks for that very level.
-/

namespace ClassUniverse

/-- The options of a user who asks for a level that has been chosen. -/
def Options.asking (o : Options) (chosen : Option UInt32) : Options :=
  { o with androidLevel := chosen.or o.androidLevel }

namespace Sdk

variable {t : FileTree} {o : Options} {platforms : String} {application : Option String}
  {explicit highest : Option UInt32} {level wanted : UInt32} {sdk : Sdk} {classPath : List String}

/-! ## Adjusted levels -/

theorem toNat_next {level top : UInt32} (below : level.toNat < top.toNat) :
    (level + 1).toNat = level.toNat + 1 := by
  have bound := top.toNat_lt
  rw [UInt32.toNat_add, UInt32.toNat_one]
  exact Nat.mod_eq_of_lt (by omega)

/-- The level to which one climbs is no lower than the first one and no higher than the steps lead,
and there is a jar for it unless it is the last one. -/
theorem climb_spec (t : FileTree) (platforms : String) (steps : Nat) (level top : UInt32)
    (room : level.toNat + steps ≤ top.toNat) :
    level.toNat ≤ (climb t platforms steps level).toNat ∧
      (climb t platforms steps level).toNat ≤ level.toNat + steps ∧
      ((climb t platforms steps level).toNat = level.toNat + steps ∨
        t.holds (jarPath platforms (climb t platforms steps level)) = true) := by
  induction steps generalizing level with
  | zero => exact ⟨Nat.le_refl _, Nat.le_refl _, .inl rfl⟩
  | succ steps ih =>
      unfold climb
      by_cases held : t.holds (jarPath platforms level) = true
      · rw [if_pos held]
        exact ⟨Nat.le_refl _, Nat.le_add_right _ _, .inr held⟩
      · have below : level.toNat < top.toNat := by omega
        have next := toNat_next below
        obtain ⟨low, high, last⟩ := ih (level + 1) (by omega)
        rw [if_neg held]
        refine ⟨by omega, by omega, last.imp_left fun top => by omega⟩

/-- A level that has been adjusted needs no further adjustment. -/
theorem adjust_adjust (t : FileTree) (platforms : String) (highest : Option UInt32)
    (wanted : UInt32) :
    adjust t platforms highest (adjust t platforms highest wanted) =
      adjust t platforms highest wanted := by
  cases highest with
  | none => rfl
  | some top =>
      have start : ∃ start : UInt32, start.toNat ≤ top.toNat ∧
          adjust t platforms (some top) wanted =
            climb t platforms (top.toNat - start.toNat) start := by
        refine ⟨if top < wanted then top else wanted, ?_, rfl⟩
        split
        · exact Nat.le_refl _
        · exact UInt32.le_iff_toNat_le.mp (UInt32.not_lt.mp ‹_›)
      obtain ⟨start, le, adjusted⟩ := start
      obtain ⟨-, high, last⟩ :=
        climb_spec t platforms (top.toNat - start.toNat) start top (by omega)
      rw [← adjusted] at high last
      generalize adjust t platforms (some top) wanted = level at high last ⊢
      have within : ¬ top < level := UInt32.not_lt.mpr (UInt32.le_iff_toNat_le.mpr (by omega))
      unfold adjust
      dsimp only
      rw [if_neg within]
      cases steps : top.toNat - level.toNat with
      | zero => rfl
      | succ steps =>
          have held := last.resolve_left (by omega)
          rw [climb, if_pos held]

/-! ## Highest levels -/

/-- The highest level in a directory of platforms, where nothing is remembered. -/
def highestIn (t : FileTree) (platforms : String) : Except Error (Option UInt32) :=
  answer (highestLevel t platforms) {}

theorem highestLevel_of_unknown
    (unknown : (sdk.highest.find? fun known => Path.same known.1 platforms) = none) :
    highestLevel t platforms sdk = match highestIn t platforms with
      | .ok highest => .ok highest { sdk with highest := (platforms, highest) :: sdk.highest }
      | .error e => .error e sdk := by
  unfold highestIn answer
  simp only [highestLevel, bind_apply, get_apply, unknown, List.find?_nil]
  cases t.place? platforms with
  | none => rfl
  | some place =>
      dsimp only
      cases t.hasDirectory place <;> rfl

/-- Whether the highest level in one directory is all that is remembered of highest levels, and is
remembered as it is found. -/
def IsExact (sdk : Sdk) (t : FileTree) (platforms : String) : Prop :=
  ∀ known ∈ sdk.highest, known.1 = platforms ∧ highestIn t platforms = .ok known.2

theorem highestLevel_spec (exact : sdk.IsExact t platforms) :
    answer (highestLevel t platforms) sdk = highestIn t platforms ∧
      (after (highestLevel t platforms) sdk).IsExact t platforms ∧
      (after (highestLevel t platforms) sdk).chosen = sdk.chosen := by
  cases found : sdk.highest.find? fun known => Path.same known.1 platforms with
  | some known =>
      have he : highestLevel t platforms sdk = .ok known.2 sdk := by
        simp only [highestLevel, bind_apply, get_apply, found, pure_apply]
      rw [answer_of_ok he, after_of_ok he]
      exact ⟨(exact known (List.mem_of_find?_eq_some found)).2.symm, exact, rfl⟩
  | none =>
      have he := highestLevel_of_unknown (t := t) found
      cases hh : highestIn t platforms with
      | error e =>
          rw [hh] at he
          rw [answer_of_error he, after_of_error he]
          exact ⟨rfl, exact, rfl⟩
      | ok highest =>
          rw [hh] at he
          rw [answer_of_ok he, after_of_ok he]
          refine ⟨rfl, fun known hm => ?_, rfl⟩
          rcases List.mem_cons.mp hm with rfl | hm
          · exact ⟨rfl, hh⟩
          · exact exact known hm

/-! ## Chosen levels -/

/-- The level that is wanted for an application, which has to be there. -/
def wantedLevel (t : FileTree) (application : Option String) (explicit highest : Option UInt32) :
    SdkAction UInt32 :=
  match application with
  | none => pure (explicit.getD defaultLevel)
  | some path =>
      if t.holds path then
        match explicit with
        | some level => pure level
        | none =>
            if Path.endsLike ".apk" path then manifestLevel t path highest else pure defaultLevel
      else throw (.configuration (.noFile path))

/-- Chooses a level, whatever has been chosen before. -/
def chooseLevel (t : FileTree) (platforms : String) (application : Option String)
    (explicit : Option UInt32) : SdkAction UInt32 := do
  let highest ← highestLevel t platforms
  let wanted ← wantedLevel t application explicit highest
  modify fun s => { s with chosen := some (adjust t platforms highest wanted) }
  return adjust t platforms highest wanted

theorem resolveLevel_of_unchosen (unchosen : sdk.chosen = none) :
    resolveLevel t platforms application explicit sdk =
      chooseLevel t platforms application explicit sdk := by
  simp only [resolveLevel, chooseLevel, wantedLevel, bind_apply, get_apply, unchosen]
  cases highestLevel t platforms sdk with
  | error e s => rfl
  | ok highest s =>
      cases application with
      | none => cases explicit <;> rfl
      | some path =>
          dsimp only
          cases t.holds path with
          | false => rfl
          | true =>
              simp only [Bool.not_true, Bool.false_eq_true, if_false, if_true]
              cases explicit with
              | some level => rfl
              | none =>
                  dsimp only
                  split
                  · rw [bind_apply]
                    cases manifestLevel t path highest s <;> rfl
                  · rfl

theorem resolveLevel_of_chosen (chosen : sdk.chosen = some level) :
    resolveLevel t platforms application explicit sdk = .ok level sdk := by
  simp only [resolveLevel, bind_apply, get_apply, chosen, pure_apply]

theorem manifestLevel_spec (t : FileTree) (path : String) (highest : Option UInt32) (sdk : Sdk) :
    answer (manifestLevel t path highest) sdk = answer (manifestLevel t path highest) {} ∧
      (after (manifestLevel t path highest) sdk).highest = sdk.highest ∧
      (after (manifestLevel t path highest) sdk).chosen = sdk.chosen := by
  unfold manifestLevel
  cases Archive.open? t path with
  | error e => exact ⟨rfl, rfl, rfl⟩
  | ok archive =>
      dsimp only
      simp only [pure_bind]
      cases archive.entry "AndroidManifest.xml" with
      | error problem => exact ⟨rfl, rfl, rfl⟩
      | ok content => cases content <;> exact ⟨rfl, rfl, rfl⟩

theorem wantedLevel_spec (t : FileTree) (application : Option String)
    (explicit highest : Option UInt32) (sdk : Sdk) :
    answer (wantedLevel t application explicit highest) sdk =
        answer (wantedLevel t application explicit highest) {} ∧
      (after (wantedLevel t application explicit highest) sdk).highest = sdk.highest ∧
      (after (wantedLevel t application explicit highest) sdk).chosen = sdk.chosen := by
  unfold wantedLevel
  cases application with
  | none => exact ⟨rfl, rfl, rfl⟩
  | some path =>
      dsimp only
      split
      · cases explicit with
        | some level => exact ⟨rfl, rfl, rfl⟩
        | none =>
            dsimp only
            split
            · exact manifestLevel_spec t path highest sdk
            · exact ⟨rfl, rfl, rfl⟩
      · exact ⟨rfl, rfl, rfl⟩

/-- The level that is chosen where none has been chosen before. -/
def levelFor (t : FileTree) (platforms : String) (application : Option String)
    (explicit : Option UInt32) : Except Error UInt32 := do
  let highest ← highestIn t platforms
  let wanted ← answer (wantedLevel t application explicit highest) {}
  return adjust t platforms highest wanted

theorem levelFor_of_ok (known : highestIn t platforms = .ok highest) :
    levelFor t platforms application explicit =
      (answer (wantedLevel t application explicit highest) {}).map
        (adjust t platforms highest) := by
  unfold levelFor
  rw [known]
  rfl

theorem levelFor_of_error {e : Error} (unknown : highestIn t platforms = .error e) :
    levelFor t platforms application explicit = .error e := by
  unfold levelFor
  rw [unknown]
  rfl

theorem chooseLevel_spec (application : Option String) (explicit : Option UInt32)
    (exact : sdk.IsExact t platforms) :
    answer (chooseLevel t platforms application explicit) sdk =
        levelFor t platforms application explicit ∧
      (after (chooseLevel t platforms application explicit) sdk).IsExact t platforms ∧
      (after (chooseLevel t platforms application explicit) sdk).chosen =
        (levelFor t platforms application explicit).toOption.or sdk.chosen := by
  obtain ⟨same, exact, kept⟩ := highestLevel_spec exact
  unfold chooseLevel
  rw [answer_bind, after_bind, same]
  generalize after (highestLevel t platforms) sdk = found at exact kept ⊢
  cases known : highestIn t platforms with
  | error e =>
      rw [levelFor_of_error known]
      exact ⟨rfl, exact, kept⟩
  | ok highest =>
      obtain ⟨wanted, known', unchanged⟩ := wantedLevel_spec t application explicit highest found
      rw [levelFor_of_ok known]
      simp only [answer_bind, after_bind, wanted]
      cases answer (wantedLevel t application explicit highest) {} with
      | error e => exact ⟨rfl, fun k hk => exact k (known' ▸ hk), unchanged.trans kept⟩
      | ok level => exact ⟨rfl, fun k hk => exact k (known' ▸ hk), rfl⟩

/-- A level that the user asks for is the one that is wanted. -/
theorem levelFor_some (there : ∀ path ∈ application, t.holds path = true)
    (known : highestIn t platforms = .ok highest) :
    levelFor t platforms application (some level) = .ok (adjust t platforms highest level) := by
  rw [levelFor_of_ok known]
  cases application with
  | none => rfl
  | some path =>
      unfold wantedLevel
      dsimp only
      rw [if_pos (there path rfl)]
      rfl

theorem wanted_of_levelFor (there : ∀ path ∈ application, t.holds path = true)
    (h : levelFor t platforms application explicit = .ok level) :
    ∃ highest wanted, highestIn t platforms = .ok highest ∧
      adjust t platforms highest wanted = level ∧
      ∀ asked, explicit = some asked → wanted = asked := by
  cases known : highestIn t platforms with
  | error e =>
      rw [levelFor_of_error known] at h
      cases h
  | ok highest =>
      cases explicit with
      | some asked =>
          rw [levelFor_some there known] at h
          exact ⟨highest, asked, rfl, Except.ok.inj h, fun _ ha => Option.some.inj ha⟩
      | none =>
          rw [levelFor_of_ok known] at h
          cases hw : answer (wantedLevel t application none highest) {} with
          | error e =>
              rw [hw] at h
              cases h
          | ok wanted =>
              rw [hw] at h
              exact ⟨highest, wanted, rfl, Except.ok.inj h, fun _ ha => nomatch ha⟩

/-! ## What is remembered -/

/-- Whether a platform is sought in a directory for an application that is there, if for any. -/
structure Seeks (t : FileTree) (o : Options) (platforms : String) (application : Option String) :
    Prop where
  unforced : o.forcedAndroidJar = none
  directory : o.androidJars = some platforms
  there : ∀ path ∈ application, t.holds path = true

/-- A level that may be chosen for some options: the one that belongs to a forced jar, or one that
has been adjusted to what is installed, namely the one of the user if there is one. -/
inductive IsChoice (t : FileTree) (o : Options) : UInt32 → Prop
  | forced {jar : String} (h : o.forcedAndroidJar = some jar) :
      IsChoice t o ((o.androidLevel.orElse fun _ => levelOfJar? jar).getD defaultLevel)
  | sought {platforms : String} {highest : Option UInt32} {wanted : UInt32}
      (unforced : o.forcedAndroidJar = none) (directory : o.androidJars = some platforms)
      (known : highestIn t platforms = .ok highest)
      (asked : ∀ level, o.androidLevel = some level → wanted = level) :
      IsChoice t o (adjust t platforms highest wanted)

/-- Whether the highest level and the chosen one are remembered as they may be found again. -/
structure Remembers (sdk : Sdk) (t : FileTree) (o : Options) : Prop where
  exact : ∀ platforms, o.androidJars = some platforms → sdk.IsExact t platforms
  choice : ∀ level, sdk.chosen = some level → IsChoice t o level

theorem remembers_empty (t : FileTree) (o : Options) : Remembers {} t o where
  exact _ _ _ hm := nomatch hm
  choice _ h := nomatch h

theorem Seeks.remembers (seeks : Seeks t o platforms application) (exact : sdk.IsExact t platforms)
    (choice : ∀ level, sdk.chosen = some level → IsChoice t o level) : sdk.Remembers t o where
  exact known h := by
    cases seeks.directory.symm.trans h
    exact exact
  choice := choice

/-- A level that has been chosen is chosen again by somebody who asks for it. -/
theorem IsChoice.levelFor (choice : IsChoice t o level) (seeks : Seeks t o platforms application) :
    levelFor t platforms application (some level) = .ok level := by
  cases choice with
  | forced h => cases h.symm.trans seeks.unforced
  | sought _ h known _ =>
      cases h.symm.trans seeks.directory
      rw [levelFor_some seeks.there known, adjust_adjust]

theorem Seeks.isChoice (seeks : Seeks t o platforms application)
    (h : levelFor t platforms application o.androidLevel = .ok level) : IsChoice t o level := by
  obtain ⟨highest, wanted, known, rfl, asked⟩ := wanted_of_levelFor seeks.there h
  exact .sought seeks.unforced seeks.directory known asked

/-- The level of the user is chosen again like the level that was chosen for it. -/
theorem IsChoice.levelFor_eq (choice : IsChoice t o level)
    (seeks : Seeks t o platforms application) (asks : o.androidLevel.isSome = true) :
    Sdk.levelFor t platforms application o.androidLevel = .ok level := by
  obtain ⟨wanted, asks⟩ := Option.isSome_iff_exists.mp asks
  cases choice with
  | forced h => cases h.symm.trans seeks.unforced
  | sought _ h known asked =>
      cases h.symm.trans seeks.directory
      rw [asks, levelFor_some seeks.there known, asked wanted asks]

theorem eq_ok_of_toOption {α : Type} {e : Except Error α} {a : α} (h : e.toOption = some a) :
    e = .ok a := by
  cases e with
  | error e => cases h
  | ok b => exact congrArg Except.ok (Option.some.inj h)

theorem resolveLevel_spec (remembers : sdk.Remembers t o)
    (seeks : Seeks t o platforms application) :
    answer (resolveLevel t platforms application o.androidLevel) sdk =
        levelFor t platforms application (sdk.chosen.or o.androidLevel) ∧
      (after (resolveLevel t platforms application o.androidLevel) sdk).Remembers t o ∧
      (after (resolveLevel t platforms application o.androidLevel) sdk).chosen =
        sdk.chosen.or (levelFor t platforms application o.androidLevel).toOption := by
  cases chosen : sdk.chosen with
  | some level =>
      have choice := remembers.choice level chosen
      rw [answer_of_ok (resolveLevel_of_chosen chosen), after_of_ok (resolveLevel_of_chosen chosen)]
      exact ⟨(choice.levelFor seeks).symm, remembers, chosen⟩
  | none =>
      obtain ⟨same, exact, chosen'⟩ := chooseLevel_spec application o.androidLevel
        (remembers.exact platforms seeks.directory)
      rw [chosen, Option.or_none] at chosen'
      unfold answer after at *
      rw [resolveLevel_of_unchosen chosen, Option.none_or, Option.none_or]
      refine ⟨same, seeks.remembers exact fun level h => ?_, chosen'⟩
      exact seeks.isChoice (eq_ok_of_toOption (chosen'.symm.trans h))

/-! ## Platforms -/

/-- The platform of a level, whose jar has to be there. -/
def platformAt (t : FileTree) (platforms : String) (level : UInt32) : Except Error Platform :=
  if t.isFile (jarPath platforms level) then .ok ⟨jarPath platforms level, level⟩
  else .error (.platformNotFound (.noTargetJar (jarPath platforms level)))

theorem answer_platform (sdk : Sdk) :
    answer (platform t platforms application explicit) sdk =
      (answer (resolveLevel t platforms application explicit) sdk).bind
        (platformAt t platforms) := by
  unfold platform platformAt
  rw [answer_bind]
  cases answer (resolveLevel t platforms application explicit) sdk with
  | error e => rfl
  | ok level =>
      dsimp only [Except.bind]
      cases t.isFile (jarPath platforms level) <;> rfl

theorem after_platform (sdk : Sdk) :
    after (platform t platforms application explicit) sdk =
      after (resolveLevel t platforms application explicit) sdk := by
  unfold platform
  rw [after_bind]
  cases answer (resolveLevel t platforms application explicit) sdk with
  | error e => rfl
  | ok level =>
      dsimp only
      cases t.isFile (jarPath platforms level) <;> rfl

theorem Seeks.asking (seeks : Seeks t o platforms application) (chosen : Option UInt32) :
    Seeks t (o.asking chosen) platforms application :=
  ⟨seeks.unforced, seeks.directory, seeks.there⟩

theorem platform_spec (remembers : sdk.Remembers t o) (seeks : Seeks t o platforms application) :
    answer (platform t platforms application o.androidLevel) sdk =
        answer (platform t platforms application (sdk.chosen.or o.androidLevel)) {} ∧
      (after (platform t platforms application o.androidLevel) sdk).Remembers t o ∧
      (after (platform t platforms application o.androidLevel) sdk).chosen =
        sdk.chosen.or (after (platform t platforms application o.androidLevel) {}).chosen := by
  obtain ⟨same, remembers', chosen⟩ := resolveLevel_spec remembers seeks
  obtain ⟨first, -, -⟩ := resolveLevel_spec (remembers_empty t _) (seeks.asking sdk.chosen)
  obtain ⟨-, -, chosen₁⟩ := resolveLevel_spec (remembers_empty t o) seeks
  simp only [answer_platform, after_platform]
  exact ⟨congrArg (Except.bind · _) (same.trans first.symm), remembers',
    chosen.trans (congrArg _ chosen₁.symm)⟩

/-- Asking for the level that would be chosen makes no difference. -/
theorem platform_asking (choice : IsChoice t o level) (seeks : Seeks t o platforms application)
    (found : levelFor t platforms application o.androidLevel = .ok level) :
    answer (platform t platforms application (some level)) {} =
      answer (platform t platforms application o.androidLevel) {} := by
  obtain ⟨first, -, -⟩ := resolveLevel_spec (remembers_empty t o) seeks
  obtain ⟨again, -, -⟩ := resolveLevel_spec (remembers_empty t _) (seeks.asking (some level))
  have again' : answer (resolveLevel t platforms application (some level)) {} = .ok level :=
    again.trans (choice.levelFor seeks)
  rw [answer_platform, answer_platform, first, again']
  exact congrArg (Except.bind · _) found.symm

/-! ## The platform for some options -/

theorem holds_of_isApplication {path : String} (h : isApplication t path = true) :
    t.holds path = true := by
  unfold isApplication FileTree.read FileTree.find at h
  unfold FileTree.holds
  cases found : t.item? path with
  | none =>
      rw [found] at h
      cases h
  | some item => rfl

theorem holds_of_application? {paths : List String}
    (h : application? t paths = .ok application) : ∀ path ∈ application, t.holds path = true := by
  intro path hp
  unfold application? at h
  split at h
  · cases h
    cases hp
  · cases h
    cases hp
    have hm : path ∈ paths.filter (isApplication t) := by simp only [*, List.mem_singleton]
    exact holds_of_isApplication (List.mem_filter.mp hm).2
  · cases h

theorem defaultPlatform_of_forced {jar : String} (forced : o.forcedAndroidJar = some jar)
    (classPath : List String) (sdk : Sdk) :
    answer (defaultPlatform t o classPath) sdk = answer (defaultPlatform t o classPath) {} ∧
      (after (defaultPlatform t o classPath) sdk).highest = sdk.highest ∧
      (after (defaultPlatform t o classPath) sdk).chosen =
        some ((o.androidLevel.orElse fun _ => levelOfJar? jar).getD defaultLevel) := by
  unfold defaultPlatform
  rw [forced]
  dsimp only [forcedPlatform]
  cases t.holds jar <;> exact ⟨rfl, rfl, rfl⟩

/-- The ways in which a platform is asked for: its jar is forced, it is refused because of the
options or of the paths, or it is sought. -/
inductive Way (t : FileTree) (o : Options) (classPath : List String) : Prop
  | forced (jar : String) (given : o.forcedAndroidJar = some jar)
  | refused (e : Error) (unforced : o.forcedAndroidJar = none)
      (fails : ∀ chosen sdk, defaultPlatform t (o.asking chosen) classPath sdk = .error e sdk)
  | sought (platforms : String) (application : Option String)
      (seeks : Seeks t o platforms application)
      (same : ∀ chosen, defaultPlatform t (o.asking chosen) classPath =
        platform t platforms application (chosen.or o.androidLevel))

theorem way (t : FileTree) (o : Options) (classPath : List String) : Way t o classPath := by
  cases unforced : o.forcedAndroidJar with
  | some jar => exact .forced jar unforced
  | none =>
      suffices h : (∃ e, ∀ chosen sdk,
          defaultPlatform t (o.asking chosen) classPath sdk = .error e sdk) ∨
          ∃ platforms application, Seeks t o platforms application ∧
            ∀ chosen, defaultPlatform t (o.asking chosen) classPath =
              platform t platforms application (chosen.or o.androidLevel) by
        rcases h with ⟨e, fails⟩ | ⟨platforms, application, seeks, same⟩
        · exact .refused e unforced fails
        · exact .sought platforms application seeks same
      unfold defaultPlatform Options.asking
      dsimp only
      rw [unforced]
      cases directory : o.androidJars with
      | none => exact .inl ⟨_, fun chosen sdk => rfl⟩
      | some platforms =>
          cases found : application? t (classPath ++ o.processDirs) with
          | error e => exact .inl ⟨e, fun chosen sdk => rfl⟩
          | ok application =>
              dsimp only
              cases application.isNone &&
                  !(classPath ++ o.processDirs).any (Path.endsLike ".dex") with
              | true => exact .inl ⟨_, fun chosen sdk => rfl⟩
              | false =>
                  exact .inr ⟨platforms, application,
                    ⟨unforced, directory, holds_of_application? found⟩, fun chosen => rfl⟩

theorem IsChoice.eq_of_forced {jar : String} (choice : IsChoice t o level)
    (forced : o.forcedAndroidJar = some jar) :
    level = (o.androidLevel.orElse fun _ => levelOfJar? jar).getD defaultLevel := by
  cases choice with
  | forced h =>
      cases h.symm.trans forced
      rfl
  | sought unforced _ _ _ => cases unforced.symm.trans forced

/-- With a forced jar, asking for a level that has been chosen makes no difference. -/
theorem defaultPlatform_asking_of_forced {jar : String} {chosen : Option UInt32}
    (forced : o.forcedAndroidJar = some jar)
    (choice : ∀ level, chosen = some level → IsChoice t o level)
    (classPath : List String) (sdk : Sdk) :
    defaultPlatform t (o.asking chosen) classPath sdk = defaultPlatform t o classPath sdk := by
  cases chosen with
  | none => rfl
  | some level =>
      have same := (choice level rfl).eq_of_forced forced
      unfold defaultPlatform Options.asking
      dsimp only
      rw [forced]
      dsimp only [forcedPlatform, Option.some_or, Option.orElse_some, Option.getD_some]
      rw [same]

/-- A platform is sought as it is by somebody new who asks for the level chosen so far, and what is
chosen first is kept. -/
theorem defaultPlatform_spec (remembers : sdk.Remembers t o) (classPath : List String) :
    answer (defaultPlatform t o classPath) sdk =
        answer (defaultPlatform t (o.asking sdk.chosen) classPath) {} ∧
      (after (defaultPlatform t o classPath) sdk).Remembers t o ∧
      (after (defaultPlatform t o classPath) sdk).chosen =
        sdk.chosen.or (after (defaultPlatform t o classPath) {}).chosen := by
  cases way t o classPath with
  | forced jar forced =>
      obtain ⟨same, known, chosen⟩ := defaultPlatform_of_forced (t := t) forced classPath sdk
      obtain ⟨-, -, chosen₁⟩ := defaultPlatform_of_forced (t := t) forced classPath {}
      have told := defaultPlatform_asking_of_forced forced remembers.choice classPath {}
      refine ⟨same.trans (by unfold answer; rw [told]), ⟨fun platforms h k hk => ?_, ?_⟩, ?_⟩
      · exact remembers.exact platforms h k (known ▸ hk)
      · intro level h
        cases chosen.symm.trans h
        exact .forced forced
      · rw [chosen, chosen₁]
        cases before : sdk.chosen with
        | none => rfl
        | some level =>
            rw [(remembers.choice level before).eq_of_forced forced]
            rfl
  | refused e _ fails =>
      have failed (sdk : Sdk) : defaultPlatform t o classPath sdk = .error e sdk := fails none sdk
      rw [answer_of_error (failed sdk), after_of_error (failed sdk), after_of_error (failed {}),
        answer_of_error (fails sdk.chosen {})]
      exact ⟨rfl, remembers, Option.or_none.symm⟩
  | sought platforms application seeks same =>
      have sought : defaultPlatform t o classPath =
        platform t platforms application o.androidLevel := same none
      rw [sought, same]
      exact platform_spec remembers seeks

/-- Where the user asks for a level or forces a jar, the level chosen for that makes no difference.
-/
theorem defaultPlatform_asking (choice : IsChoice t o level) (classPath : List String)
    (fixed : o.forcedAndroidJar.isSome = true ∨ o.androidLevel.isSome = true) :
    answer (defaultPlatform t (o.asking (some level)) classPath) {} =
      answer (defaultPlatform t o classPath) {} := by
  cases way t o classPath with
  | forced jar forced =>
      have each (l : UInt32) (h : some level = some l) : IsChoice t o l :=
        Option.some.inj h ▸ choice
      unfold answer
      rw [defaultPlatform_asking_of_forced forced each]
  | refused e _ fails =>
      exact (answer_of_error (fails (some level) {})).trans (answer_of_error (fails none {})).symm
  | sought platforms application seeks same =>
      rw [seeks.unforced] at fixed
      have asks := fixed.resolve_left Bool.false_ne_true
      have sought : defaultPlatform t o classPath =
        platform t platforms application o.androidLevel := same none
      rw [sought, same]
      exact platform_asking choice seeks (choice.levelFor_eq seeks asks)

/-- Asking for the level that has just been chosen makes no difference. -/
theorem defaultPlatform_again (t : FileTree) (o : Options) (classPath : List String) :
    answer (defaultPlatform t (o.asking (after (defaultPlatform t o classPath) {}).chosen)
        classPath) {} =
      answer (defaultPlatform t o classPath) {} := by
  obtain ⟨-, remembers, -⟩ := defaultPlatform_spec (remembers_empty t o) classPath
  cases way t o classPath with
  | forced jar forced =>
      unfold answer
      rw [defaultPlatform_asking_of_forced forced remembers.choice]
  | refused e _ fails =>
      exact (answer_of_error (fails _ {})).trans (answer_of_error (fails none {})).symm
  | sought platforms application seeks same =>
      obtain ⟨-, -, chosen⟩ := resolveLevel_spec (remembers_empty t o) seeks
      have sought : defaultPlatform t o classPath =
        platform t platforms application o.androidLevel := same none
      rw [sought, after_platform] at remembers
      rw [same, sought, after_platform]
      cases found : (after (resolveLevel t platforms application o.androidLevel) {}).chosen with
      | none => rfl
      | some level =>
          exact platform_asking (remembers.choice level found) seeks
            (eq_ok_of_toOption (chosen.symm.trans found))

/-- A platform that is found has the level that has been chosen. -/
theorem chosen_of_defaultPlatform {classPath : List String} {p : Platform}
    (h : answer (defaultPlatform t o classPath) {} = .ok p) :
    (after (defaultPlatform t o classPath) {}).chosen.isSome = true := by
  cases way t o classPath with
  | forced jar forced =>
      rw [(defaultPlatform_of_forced forced classPath {}).2.2]
      rfl
  | refused e _ fails => cases h.symm.trans (answer_of_error (fails none {}))
  | sought platforms application seeks same =>
      have sought : defaultPlatform t o classPath =
        platform t platforms application o.androidLevel := same none
      obtain ⟨same, -, chosen⟩ := resolveLevel_spec (remembers_empty t o) seeks
      rw [sought, answer_platform] at h
      rw [sought, after_platform, chosen]
      cases found : levelFor t platforms application o.androidLevel with
      | error e =>
          have failed : answer (resolveLevel t platforms application o.androidLevel) {} =
              .error e := same.trans found
          rw [failed] at h
          cases h
      | ok level => rfl

end Sdk

end ClassUniverse
