import ClassUniverse.Proofs.ClassPath.Platforms
import ClassUniverse.Proofs.Text.Numerals

/-!
# The highest level in a directory of platforms

The directory of a level is named with the level in decimal form, and its jar is sought there.  The
levels of a directory of platforms are read off the names in it in any spelling, so the highest of
them may be one whose directory is not there in decimal form.
-/

namespace ClassUniverse.Sdk

open Text

variable {t : FileTree} {platforms name : String} {place : List String} {level : UInt32}

/-- Whether a directory of platforms shows a directory of a name. -/
def Shows (t : FileTree) (platforms name : String) : Prop :=
  ∃ place item, t.place? platforms = some place ∧ (name, item) ∈ t.children place ∧
    item.isBranch = true

/-- Whether there is a directory for a level, named as the path of its jar has it. -/
def IsInstalled (t : FileTree) (platforms : String) (level : UInt32) : Prop :=
  Shows t platforms ("android-" ++ decimal level)

/-- Whether there is a directory that is named for a level in any spelling. -/
def IsSpelled (t : FileTree) (platforms : String) (level : UInt32) : Prop :=
  ∃ numeral : String, Spells numeral.toList level ∧ Shows t platforms ("android-" ++ numeral)

theorem IsInstalled.isSpelled (h : IsInstalled t platforms level) :
    IsSpelled t platforms level := ⟨decimal level, spells_decimal level, h⟩

/-- Whether a level is the highest one with a property, or is none because no level has it. -/
structure IsHighest (p : UInt32 → Prop) (highest : Option UInt32) : Prop where
  some_iff : ∀ level, highest = some level ↔ p level ∧ ∀ other, level < other → ¬ p other
  none_iff : highest = none ↔ ∀ level, ¬ p level

/-! ## Names and levels -/

theorem levelOfName?_eq_some_iff : levelOfName? name = some level ↔
    ∃ numeral : String, Spells numeral.toList level ∧ name = "android-" ++ numeral := by
  unfold levelOfName?
  dsimp only
  constructor
  · intro h
    split at h
    next marked =>
      obtain ⟨rest, whole⟩ := List.isPrefixOf_iff_prefix.mp marked
      rw [← whole, List.drop_left, parseNumber?_eq_some_iff] at h
      refine ⟨String.ofList rest, by rwa [String.toList_ofList], ?_⟩
      refine String.toList_inj.mp (whole.symm.trans ?_)
      rw [String.toList_append]
      exact congrArg ("android-".toList ++ ·) String.toList_ofList.symm
    next => cases h
  · rintro ⟨numeral, spells, rfl⟩
    rw [String.toList_append, if_pos (List.isPrefixOf_iff_prefix.mpr (List.prefix_append _ _)),
      List.drop_left, parseNumber?_eq_some_iff]
    exact spells

/-- The levels of the directories at a place. -/
def levelsAt (t : FileTree) (place : List String) : List UInt32 :=
  ((t.children place).filter fun entry => entry.2.isBranch).filterMap fun entry =>
    levelOfName? entry.1

theorem mem_levelsAt_iff (there : t.place? platforms = some place) :
    level ∈ levelsAt t place ↔ IsSpelled t platforms level := by
  unfold levelsAt IsSpelled Shows
  simp only [List.mem_filterMap, List.mem_filter, levelOfName?_eq_some_iff, there]
  constructor
  · rintro ⟨⟨name, item⟩, ⟨shown, branch⟩, numeral, spells, rfl⟩
    exact ⟨numeral, spells, place, item, rfl, shown, branch⟩
  · rintro ⟨numeral, spells, place', item, same, shown, branch⟩
    cases Option.some.inj same
    exact ⟨_, ⟨shown, branch⟩, numeral, spells, rfl⟩

/-! ## Highest levels -/

theorem foldl_higher (levels : List UInt32) (start : UInt32) :
    ∃ top, levels.foldl higher (some start) = some top ∧ top ∈ start :: levels ∧
      ∀ level ∈ start :: levels, level ≤ top := by
  induction levels generalizing start with
  | nil => exact ⟨start, rfl, List.mem_singleton_self start, by simp⟩
  | cons first levels ih =>
      rw [List.foldl_cons]
      by_cases less : start < first
      · obtain ⟨top, found, among, above⟩ := ih first
        have step : higher (some start) first = some first := congrArg some (if_pos less)
        rw [step]
        refine ⟨top, found, List.mem_cons_of_mem start among, ?_⟩
        refine List.forall_mem_cons.mpr ⟨?_, above⟩
        exact UInt32.le_trans (UInt32.le_of_lt less) (above first List.mem_cons_self)
      · obtain ⟨top, found, among, above⟩ := ih start
        rw [List.forall_mem_cons] at above
        have step : higher (some start) first = some start := congrArg some (if_neg less)
        rw [step]
        refine ⟨top, found, ?_, ?_⟩
        · exact (List.mem_cons.mp among).elim (fun h => h ▸ List.mem_cons_self)
            fun h => List.mem_cons_of_mem start (List.mem_cons_of_mem first h)
        · refine List.forall_mem_cons.mpr ⟨above.1, List.forall_mem_cons.mpr ⟨?_, above.2⟩⟩
          exact UInt32.le_trans (UInt32.not_lt.mp less) above.1

namespace IsHighest

variable {p q : UInt32 → Prop} {highest : Option UInt32}

theorem of_greatest {top : UInt32} (has : p top) (above : ∀ level, p level → level ≤ top) :
    IsHighest p (some top) where
  some_iff level := by
    refine ⟨?_, fun ⟨has', last⟩ => congrArg some ?_⟩
    · rintro ⟨⟩
      exact ⟨has, fun other greater has' => UInt32.not_lt.mpr (above other has') greater⟩
    · exact UInt32.le_antisymm (UInt32.not_lt.mp fun greater => last top greater has)
        (above level has')
  none_iff := ⟨(nomatch ·), fun missing => absurd has (missing top)⟩

theorem of_missing (missing : ∀ level, ¬ p level) : IsHighest p none where
  some_iff level := ⟨(nomatch ·), fun h => absurd h.1 (missing level)⟩
  none_iff := ⟨fun _ => missing, fun _ => rfl⟩

theorem congr (h : IsHighest p highest) (same : ∀ level, p level ↔ q level) :
    IsHighest q highest := by
  have same' : q = p := funext fun level => propext (same level).symm
  rwa [same']

/-- What is the highest of some levels is the highest of fewer of them exactly if it is one. -/
theorem iff_of_imp (h : IsHighest p highest) (fewer : ∀ level, q level → p level) :
    IsHighest q highest ↔ ∀ level, highest = some level → q level := by
  refine ⟨fun h' level found => ((h'.some_iff level).mp found).1, fun among => ?_⟩
  cases highest with
  | none => exact of_missing fun level has => h.none_iff.mp rfl level (fewer level has)
  | some top =>
      refine of_greatest (among top rfl) fun level has => ?_
      exact UInt32.not_lt.mp fun greater =>
        ((h.some_iff top).mp rfl).2 level greater (fewer level has)

end IsHighest

theorem isHighest_foldl_higher (levels : List UInt32) :
    IsHighest (· ∈ levels) (levels.foldl higher none) := by
  cases levels with
  | nil => exact .of_missing fun level => List.not_mem_nil
  | cons first levels =>
      obtain ⟨top, found, among, above⟩ := foldl_higher levels first
      have found' : (first :: levels).foldl higher none = some top := found
      rw [found']
      exact .of_greatest among above

/-! ## The highest level of a directory -/

theorem highestIn_of_isDirectory (directory : t.isDirectory platforms = true) :
    ∃ place, t.place? platforms = some place ∧
      highestIn t platforms = .ok ((levelsAt t place).foldl higher none) := by
  unfold FileTree.isDirectory FileTree.item? at directory
  unfold highestIn answer highestLevel
  cases there : t.place? platforms with
  | none =>
      rw [there] at directory
      cases directory
  | some place =>
      rw [there] at directory
      have branch : t.hasDirectory place = true := directory
      refine ⟨place, rfl, ?_⟩
      simp only [bind_apply, get_apply, List.find?_nil, branch]
      rfl

/-- The highest level that is found in a directory of platforms is the highest one that is spelled
in a name there.  It is the highest one with a directory for its jar exactly if it has such a
directory. -/
theorem highestLevel_isHighest (directory : t.isDirectory platforms = true) :
    ∃ highest, answer (highestLevel t platforms) {} = .ok highest ∧
      IsHighest (IsSpelled t platforms) highest ∧
      (IsHighest (IsInstalled t platforms) highest ↔
        ∀ level, highest = some level → IsInstalled t platforms level) := by
  obtain ⟨place, there, found⟩ := highestIn_of_isDirectory directory
  have spelled := (isHighest_foldl_higher (levelsAt t place)).congr fun _ => mem_levelsAt_iff there
  exact ⟨_, found, spelled, spelled.iff_of_imp fun _ => IsInstalled.isSpelled⟩

/-- A platform of level 19 beside a directory for level 23 that is written with a zero. -/
def paddedPlatforms : FileTree :=
  .directory [("p", .directory [
    ("android-19", .directory [("android.jar", .file [])]),
    ("android-023", .directory [])])]

theorem highest_paddedPlatforms : answer (highestLevel paddedPlatforms "p") {} = .ok (some 23) := by
  decide +kernel

theorem not_isInstalled_paddedPlatforms : ¬ IsInstalled paddedPlatforms "p" 23 := by
  rintro ⟨place, item, there, shown, -⟩
  have there' : paddedPlatforms.place? "p" = some ["p"] := by decide +kernel
  cases there'.symm.trans there
  have named : "android-" ++ decimal 23 ∈ (paddedPlatforms.children ["p"]).map Prod.fst :=
    List.mem_map_of_mem shown
  revert named
  decide +kernel

/-- The padded level is found although nothing is installed for it. -/
theorem highestLevel_isHighest_padded :
    paddedPlatforms.isDirectory "p" = true ∧
      IsHighest (IsSpelled paddedPlatforms "p") (some 23) ∧
      ¬ IsHighest (IsInstalled paddedPlatforms "p") (some 23) := by
  have directory : paddedPlatforms.isDirectory "p" = true := by decide +kernel
  obtain ⟨highest, found, spelled, installed⟩ := highestLevel_isHighest directory
  cases highest_paddedPlatforms.symm.trans found
  exact ⟨directory, spelled,
    fun h => not_isInstalled_paddedPlatforms (installed.mp h 23 rfl)⟩

/-- The level that is found need not be the highest one with a directory for its jar. -/
theorem not_highestLevel_isInstalled :
    ¬ ∀ (t : FileTree) (platforms : String) (highest : Option UInt32),
      t.isDirectory platforms = true → answer (highestLevel t platforms) {} = .ok highest →
        IsHighest (IsInstalled t platforms) highest := by
  intro law
  have directory : paddedPlatforms.isDirectory "p" = true := by decide +kernel
  have h := law paddedPlatforms "p" (some 23) directory highest_paddedPlatforms
  exact not_isInstalled_paddedPlatforms ((h.some_iff 23).mp rfl).1

end ClassUniverse.Sdk
