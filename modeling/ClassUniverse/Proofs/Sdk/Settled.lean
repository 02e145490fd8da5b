import ClassUniverse.Archive.Packing
import ClassUniverse.Proofs.ClassPath.Platforms

/-!
# The level that is chosen

A level is asked for by the user, by the manifest of the application or by nobody, and then settles
at what is installed: no higher than the highest level, and at the first jar from there on.  What a
wanted level settles at is determined by the jars, so the steps in which it is found do not matter.
-/

namespace ClassUniverse

namespace ManifestLevels

variable {m : ManifestLevels} {top least wanted level : UInt32}

theorem usableMinimum_of_le (given : m.minimum = some least) (installed : least ≤ top) :
    m.usableMinimum (some top) = some least := by
  unfold usableMinimum
  rw [given]
  exact if_pos installed

theorem settle_le (given : m.minimum = some least) (installed : least ≤ top) :
    m.settle (some top) wanted ≤ top := by
  unfold settle
  rw [usableMinimum_of_le given installed]
  dsimp only
  split
  · exact installed
  · exact UInt32.not_lt.mp ‹_›

/-- A manifest whose minimum is installed asks for no level above the highest one. -/
theorem preferred_le (given : m.minimum = some least) (installed : least ≤ top)
    (asked : m.preferred (some top) = some level) : level ≤ top := by
  unfold preferred at asked
  split at asked
  · exact Option.some.inj asked ▸ settle_le given installed
  · exact Option.some.inj asked ▸ settle_le given installed
  · exact Option.some.inj (given.symm.trans asked) ▸ installed

end ManifestLevels

namespace Sdk

variable {t : FileTree} {platforms : String} {application : Option String}
  {explicit highest : Option UInt32} {top wanted level level' : UInt32} {sdk : Sdk}

/-! ## Settling -/

/-- Whether a level is where a wanted one settles: the first one with a jar, from the wanted or the
highest level on, whichever is lower, up to the highest one, which needs no jar. -/
structure SettlesAt (t : FileTree) (platforms : String) (top wanted level : UInt32) : Prop where
  low : min wanted top ≤ level
  high : level ≤ top
  passes : ∀ k, min wanted top ≤ k → k < level → t.holds (jarPath platforms k) = false
  stops : level = top ∨ t.holds (jarPath platforms level) = true

theorem SettlesAt.le (h : SettlesAt t platforms top wanted level)
    (h' : SettlesAt t platforms top wanted level') : level ≤ level' := by
  refine UInt32.not_lt.mp fun lower => ?_
  rcases h'.stops with rfl | held
  · exact UInt32.not_lt.mpr h.high lower
  · exact Bool.false_ne_true ((h.passes level' h'.low lower).symm.trans held)

/-- A wanted level settles at one level only. -/
theorem SettlesAt.unique (h : SettlesAt t platforms top wanted level)
    (h' : SettlesAt t platforms top wanted level') : level = level' :=
  UInt32.le_antisymm (h.le h') (h'.le h)

/-- There is no jar for a level that is climbed over. -/
theorem not_holds_of_lt_climb {k : UInt32} (steps : Nat) (level : UInt32)
    (room : level.toNat + steps ≤ top.toNat) (from_le : level ≤ k)
    (lt : k < climb t platforms steps level) : t.holds (jarPath platforms k) = false := by
  induction steps generalizing level with
  | zero => exact absurd lt (UInt32.not_lt.mpr from_le)
  | succ steps ih =>
      unfold climb at lt
      by_cases held : t.holds (jarPath platforms level) = true
      · rw [if_pos held] at lt
        exact absurd lt (UInt32.not_lt.mpr from_le)
      · rw [if_neg held] at lt
        by_cases here : level = k
        · exact here ▸ Bool.eq_false_iff.mpr held
        · -- Any other level is climbed over from the next one on.
          have below : level.toNat < top.toNat := by omega
          have next := toNat_next below
          have differs : level.toNat ≠ k.toNat := fun same => here (UInt32.toNat_inj.mp same)
          rw [UInt32.le_iff_toNat_le] at from_le
          exact ih (level + 1) (by omega) (UInt32.le_iff_toNat_le.mpr (by omega)) lt

/-- The level from which one climbs. -/
theorem start_eq_min (top wanted : UInt32) :
    (if top < wanted then top else wanted) = min wanted top := by
  by_cases above : top < wanted
  · rw [if_pos above]
    exact (if_neg (UInt32.not_le.mpr above)).symm
  · rw [if_neg above]
    exact (if_pos (UInt32.not_lt.mp above)).symm

theorem min_le_top (top wanted : UInt32) : min wanted top ≤ top := by
  rw [← start_eq_min]
  split
  · exact UInt32.le_refl top
  · exact UInt32.not_lt.mp ‹_›

theorem adjust_settlesAt (t : FileTree) (platforms : String) (top wanted : UInt32) :
    SettlesAt t platforms top wanted (adjust t platforms (some top) wanted) := by
  have below := UInt32.le_iff_toNat_le.mp (min_le_top top wanted)
  have room : (min wanted top).toNat + (top.toNat - (min wanted top).toNat) ≤ top.toNat := by omega
  obtain ⟨low, high, last⟩ := climb_spec t platforms _ _ top room
  unfold adjust
  dsimp only
  rw [start_eq_min]
  exact
    { low := UInt32.le_iff_toNat_le.mpr low
      high := UInt32.le_iff_toNat_le.mpr (Nat.le_trans high room)
      passes := fun k => not_holds_of_lt_climb _ _ room
      stops := last.imp_left fun h => UInt32.toNat_inj.mp (by omega) }

/-- Whether a level is where a wanted one settles, given the highest level.  With no level at all
it is the wanted one. -/
def Settles (t : FileTree) (platforms : String) (highest : Option UInt32) (wanted level : UInt32) :
    Prop :=
  match highest with
  | none => level = wanted
  | some top => SettlesAt t platforms top wanted level

/-- The level that a wanted one is adjusted to is the one where it settles. -/
theorem adjust_eq_iff :
    adjust t platforms highest wanted = level ↔ Settles t platforms highest wanted level := by
  cases highest with
  | none => exact eq_comm
  | some top =>
      refine ⟨?_, (adjust_settlesAt t platforms top wanted).unique⟩
      rintro rfl
      exact adjust_settlesAt t platforms top wanted

/-! ## The level that is asked for -/

/-- The levels in the manifest of an application, if it is named as one and is an archive with a
manifest. -/
def manifest? (t : FileTree) (application : String) : Option ManifestLevels :=
  if Path.endsLike ".apk" application then
    match Archive.open? t application with
    | .ok archive =>
        match archive.entry "AndroidManifest.xml" with
        | .ok (.ok bytes) => some (ManifestLevels.parse bytes)
        | _ => none
    | .error _ => none
  else none

/-- The level that is asked for: by the user, else by the manifest, else the default. -/
def asked (t : FileTree) (application : Option String) (explicit highest : Option UInt32) :
    UInt32 :=
  match explicit, application.bind (manifest? t) with
  | some level, _ => level
  | none, some levels => max leastManifestLevel ((levels.preferred highest).getD defaultLevel)
  | none, none => defaultLevel

theorem floor_eq_max (wanted : UInt32) :
    (if wanted < leastManifestLevel then leastManifestLevel else wanted) =
      max leastManifestLevel wanted := by
  by_cases low : wanted < leastManifestLevel
  · rw [if_pos low]
    exact (if_neg (UInt32.not_le.mpr low)).symm
  · rw [if_neg low]
    exact (if_pos (UInt32.not_lt.mp low)).symm

theorem manifestLevel_eq_asked {path : String} (package : Path.endsLike ".apk" path = true)
    (h : answer (manifestLevel t path highest) {} = .ok wanted) :
    wanted = asked t (some path) none highest := by
  unfold asked manifest?
  dsimp only [Option.bind]
  rw [if_pos package]
  unfold manifestLevel at h
  cases opened : Archive.open? t path with
  | error e =>
      rw [opened] at h
      cases h
  | ok archive =>
      rw [opened] at h
      dsimp only
      simp only [pure_bind] at h
      cases found : archive.entry "AndroidManifest.xml" with
      | error problem =>
          rw [found] at h
          exact (Except.ok.inj h).symm
      | ok content =>
          rw [found] at h
          cases content with
          | error problem => cases h
          | ok bytes =>
              refine (Except.ok.inj h).symm.trans ?_
              exact floor_eq_max _

theorem wantedLevel_eq_asked
    (h : answer (wantedLevel t application explicit highest) {} = .ok wanted) :
    wanted = asked t application explicit highest := by
  unfold wantedLevel at h
  cases application with
  | none =>
      cases explicit <;> exact (Except.ok.inj h).symm
  | some path =>
      dsimp only at h
      split at h
      next there =>
        cases explicit with
        | some level => exact (Except.ok.inj h).symm
        | none =>
            dsimp only at h
            split at h
            next package => exact manifestLevel_eq_asked package h
            next package =>
              refine (Except.ok.inj h).symm.trans ?_
              unfold asked manifest?
              dsimp only [Option.bind]
              rw [if_neg package]
      next => cases h

/-! ## The level that is chosen -/

theorem settles_of_resolveLevel
    (h : resolveLevel t platforms application explicit {} = .ok level sdk) :
    sdk.chosen = some level ∧ ∃ highest, answer (highestLevel t platforms) {} = .ok highest ∧
      Settles t platforms highest (asked t application explicit highest) level := by
  rw [resolveLevel_of_unchosen rfl] at h
  obtain ⟨found, -, kept⟩ := chooseLevel_spec application explicit
    (fun _ hm => nomatch hm : IsExact {} t platforms)
  rw [answer_of_ok h] at found
  rw [after_of_ok h, ← found] at kept
  refine ⟨kept, ?_⟩
  cases known : highestIn t platforms with
  | error e => cases found.trans (levelFor_of_error known)
  | ok highest =>
      rw [levelFor_of_ok known] at found
      cases wants : answer (wantedLevel t application explicit highest) {} with
      | error e =>
          rw [wants] at found
          cases found
      | ok wanted =>
          rw [wants] at found
          have adjusted := (Except.ok.inj found).symm
          rw [wantedLevel_eq_asked wants] at adjusted
          exact ⟨highest, known, adjust_eq_iff.mp adjusted⟩

theorem platform_eq_ok_iff {p : Platform}
    (resolved : answer (resolveLevel t platforms application explicit) sdk = .ok level) :
    answer (platform t platforms application explicit) sdk = .ok p ↔
      t.isFile (jarPath platforms level) = true ∧ p = ⟨jarPath platforms level, level⟩ := by
  rw [answer_platform, resolved]
  unfold Except.bind platformAt
  dsimp only
  by_cases there : t.isFile (jarPath platforms level) = true
  · rw [if_pos there]
    exact ⟨fun h => ⟨there, (Except.ok.inj h).symm⟩, fun h => congrArg _ h.2.symm⟩
  · rw [if_neg there]
    exact iff_of_false nofun fun h => there h.1

/-- A level that is chosen where nothing is remembered is the one where the level that is asked for
settles, and its platform is there exactly if its jar is a file.  A manifest whose minimum is
installed asks for no level above the highest one. -/
theorem resolveLevel_settles (t : FileTree) (platforms : String) (application : Option String)
    (explicit : Option UInt32) :
    (∀ level sdk, resolveLevel t platforms application explicit {} = .ok level sdk →
      (∃ highest, answer (highestLevel t platforms) {} = .ok highest ∧
        Settles t platforms highest (asked t application explicit highest) level) ∧
      ∀ before ∈ [{}, sdk], ∀ p,
        answer (platform t platforms application explicit) before = .ok p ↔
          t.isFile (jarPath platforms level) = true ∧ p = ⟨jarPath platforms level, level⟩) ∧
    ∀ (m : ManifestLevels) (top least level : UInt32), m.minimum = some least → least ≤ top →
      m.preferred (some top) = some level → level ≤ top := by
  refine ⟨fun level sdk resolved => ?_, fun _ _ _ _ => ManifestLevels.preferred_le⟩
  obtain ⟨chosen, settles⟩ := settles_of_resolveLevel resolved
  refine ⟨settles, fun before remembered p => ?_⟩
  rcases List.mem_pair.mp remembered with rfl | rfl
  · exact platform_eq_ok_iff (answer_of_ok resolved)
  · exact platform_eq_ok_iff (answer_of_ok (resolveLevel_of_chosen chosen))

/-- Directories for some levels, not all with a jar, and an application that asks for a level above
them and does with a level below. -/
def gappedPlatforms : FileTree :=
  .directory [
    ("a.apk", .file (Zip.write [⟨"AndroidManifest.xml",
      "targetSdkVersion=30 minSdkVersion=20".toList.map Char.toUInt8, false⟩])),
    ("p", .directory [
      ("android-19", .directory [("android.jar", .file [])]),
      ("android-21", .directory []),
      ("android-23", .directory [("android.jar", .file [])]),
      ("android-24", .directory [])])]

set_option maxRecDepth 10000 in
theorem resolveLevel_settles_gapped :
    answer (highestLevel gappedPlatforms "p") {} = .ok (some 24) ∧
      asked gappedPlatforms (some "a.apk") none (some 24) = 20 ∧
      SettlesAt gappedPlatforms "p" 24 20 23 ∧
      answer (platform gappedPlatforms "p" (some "a.apk") none) {} =
        .ok ⟨"p/android-23/android.jar", 23⟩ := by
  have top : answer (highestLevel gappedPlatforms "p") {} = .ok (some 24) := by decide +kernel
  have there : gappedPlatforms.isFile (jarPath "p" 23) = true := by decide +kernel
  obtain ⟨wanted, found⟩ : asked gappedPlatforms (some "a.apk") none (some 24) = 20 ∧
      answer (resolveLevel gappedPlatforms "p" (some "a.apk") none) {} = .ok 23 := by
    decide +kernel
  obtain ⟨⟨highest, known, settles⟩, platforms⟩ :=
    (resolveLevel_settles gappedPlatforms "p" (some "a.apk") none).1 23 _ (eq_ok_of_answer found)
  cases top.symm.trans known
  rw [wanted] at settles
  refine ⟨top, wanted, settles, ?_⟩
  exact (platforms {} List.mem_cons_self _).mpr ⟨there, by decide +kernel⟩

end Sdk

end ClassUniverse
