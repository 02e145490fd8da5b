import ClassUniverse.ClassIndex
import Mathlib.Data.String.Basic
import Mathlib.Logic.Function.Iterate

/-!
# What an index of a class path holds

An index takes the listings of the entries one after the other and keeps the first location of each
class.  It has the classes that some entry lists, in the order in which they are listed first, and
it is the same whenever it is asked.  Which class files a directory lists does not depend on the
order in which the walk hands them over; which file of a class it lists first does.
-/

namespace ClassUniverse

open Text

/-! ## Texts with a dot -/

theorem Text.splitLast_eq_some_iff {sep : Char} {s before after : List Char} :
    splitLast sep s = some (before, after) ↔ s = before ++ sep :: after ∧ sep ∉ after := by
  unfold splitLast
  simp only [Option.map_eq_some_iff, Prod.exists, Prod.mk.injEq, splitFirst_eq_some_iff]
  constructor
  · rintro ⟨last, first, ⟨cut, pure⟩, rfl, rfl⟩
    refine ⟨?_, by simpa using pure⟩
    rw [← List.reverse_reverse s, cut]
    simp
  · rintro ⟨rfl, pure⟩
    exact ⟨after.reverse, before.reverse, ⟨by simp, by simpa using pure⟩, by simp, by simp⟩

/-- A text has a part before its last dot exactly if it is that part, a dot and a text without one.
-/
theorem Text.beforeLastDot?_eq_some_iff {s before : String} :
    beforeLastDot? s = some before ↔
      ∃ last : String, s = before ++ "." ++ last ∧ '.' ∉ last.toList := by
  unfold beforeLastDot?
  simp only [Option.map_eq_some_iff, Prod.exists, splitLast_eq_some_iff]
  constructor
  · rintro ⟨first, last, ⟨cut, pure⟩, rfl⟩
    refine ⟨String.ofList last, ?_, by simpa using pure⟩
    apply String.ext
    simp [cut]
  · rintro ⟨last, rfl, pure⟩
    exact ⟨before.toList, last.toList, ⟨by simp, pure⟩, by simp⟩

/-! ## Tables that keep what they have -/

namespace OrderedMap

variable {α : Type} {key : String} {value : α}

theorem get?_insertNew (m : OrderedMap α) (key other : String) (value : α) :
    (m.insertNew key value).get? other =
      (m.get? other).or (if other = key then some value else none) := by
  unfold insertNew
  by_cases known : key ∈ m.keys
  · obtain ⟨held, found⟩ := (mem_keys_iff m).mp known
    rw [if_pos known]
    by_cases same : other = key
    · subst same
      rw [found, Option.some_or]
    · rw [if_neg same, Option.or_none]
  · have absent := (get?_eq_none_iff m).mpr known
    rw [if_neg known, get?_insert]
    by_cases same : other = key
    · subst same
      rw [absent, Option.none_or]
    · rw [if_neg same, if_neg same, Option.or_none]

/-- A list of pairs gives a key that the table lacks the value of the first pair with that key. -/
theorem get?_foldl_insertNew (pairs : List (String × α)) (m : OrderedMap α) :
    (pairs.foldl (fun m pair => m.insertNew pair.1 pair.2) m).get? key =
      (m.get? key).or ((pairs.find? fun pair => pair.1 == key).map Prod.snd) := by
  induction pairs generalizing m with
  | nil => exact (Option.or_none).symm
  | cons pair pairs ih =>
      rw [List.foldl_cons, ih, get?_insertNew, Option.or_assoc]
      congr 1
      by_cases same : key = pair.1
      · have hit : (pair.1 == key) = true := beq_iff_eq.mpr same.symm
        rw [if_pos same, Option.some_or, List.find?_cons_of_pos (by exact hit), Option.map_some]
      · have miss : ¬ (pair.1 == key) = true := fun hit => same (beq_iff_eq.mp hit).symm
        rw [if_neg same, Option.none_or, List.find?_cons_of_neg (by exact miss)]

theorem keys_foldl_insertNew (pairs : List (String × α)) (m : OrderedMap α) :
    (pairs.foldl (fun m pair => m.insertNew pair.1 pair.2) m).keys =
      (pairs.map Prod.fst).foldl appendNew m.keys := by
  induction pairs generalizing m with
  | nil => rfl
  | cons pair pairs ih =>
      rw [List.foldl_cons, ih, keys_insertNew, List.map_cons, List.foldl_cons]
      rfl

end OrderedMap

/-! ## Listings -/

namespace Listing

variable {t : FileTree} {home : Option String} {listings : List Listing} {arrival : Arrival}
  {path name : String} {location : ClassLocation}

/-- Whether a class stands at a location in the first listing that has it, where it is listed first.
-/
inductive IsFirst (listings : List Listing) (name : String) (location : ClassLocation) : Prop
  | intro {before after : List Listing} {first rest : Listing}
      (split : listings = before ++ (first ++ (name, location) :: rest) :: after)
      (unlisted : ∀ earlier ∈ before, name ∉ earlier.map Prod.fst)
      (unseen : name ∉ first.map Prod.fst)

theorem not_listed_iff {pairs : Listing} :
    name ∉ pairs.map Prod.fst ↔ ∀ pair ∈ pairs, (!pair.1 == name) = true := by
  simp only [List.mem_map, not_exists, not_and, Bool.not_eq_true', beq_eq_false_iff_ne]

theorem find?_eq_none_iff {pairs : Listing} :
    (pairs.find? fun pair => pair.1 == name) = none ↔ name ∉ pairs.map Prod.fst := by
  rw [List.find?_eq_none, not_listed_iff]
  simp

theorem find?_eq_some_iff {pairs : Listing} :
    ((pairs.find? fun pair => pair.1 == name).map Prod.snd) = some location ↔
      ∃ first rest, pairs = first ++ (name, location) :: rest ∧ name ∉ first.map Prod.fst := by
  simp only [Option.map_eq_some_iff, List.find?_eq_some_iff_append, not_listed_iff]
  constructor
  · rintro ⟨⟨found, held⟩, ⟨same, first, rest, rfl, unseen⟩, rfl⟩
    obtain rfl : found = name := beq_iff_eq.mp same
    exact ⟨first, rest, rfl, unseen⟩
  · rintro ⟨first, rest, rfl, unseen⟩
    exact ⟨(name, location), ⟨beq_self_eq_true name, first, rest, rfl, unseen⟩, rfl⟩

/-- What a search through all listings finds is listed first. -/
theorem find?_flatten_eq_some_iff :
    ((listings.flatten.find? fun pair => pair.1 == name).map Prod.snd) = some location ↔
      IsFirst listings name location := by
  rw [List.find?_flatten]
  constructor
  · intro h
    obtain ⟨pair, found, rfl⟩ := Option.map_eq_some_iff.mp h
    obtain ⟨before, listing, after, split, hit, missed⟩ := List.findSome?_eq_some_iff.mp found
    obtain ⟨first, rest, rfl, unseen⟩ := find?_eq_some_iff.mp (congrArg (·.map Prod.snd) hit)
    exact ⟨split, fun earlier hm => find?_eq_none_iff.mp (missed earlier hm), unseen⟩
  · rintro (@⟨before, after, first, rest, split, unlisted, unseen⟩)
    have hit : ((first ++ (name, location) :: rest).find? fun pair => pair.1 == name).map Prod.snd =
        some location := find?_eq_some_iff.mpr ⟨first, rest, rfl, unseen⟩
    obtain ⟨pair, hit, rfl⟩ := Option.map_eq_some_iff.mp hit
    refine Option.map_eq_some_iff.mpr ⟨pair, ?_, rfl⟩
    exact List.findSome?_eq_some_iff.mpr
      ⟨_, _, _, split, hit, fun earlier hm => find?_eq_none_iff.mpr (unlisted earlier hm)⟩

/-- The class files of a directory, given as they arrive: in ascending order of the classes, those
of one class as they arrive. -/
structure IsOfDirectory (arriving listing : Listing) : Prop where
  perm : listing.Perm arriving
  sorted : listing.Pairwise fun a b => a.1 ≤ b.1
  stable : ∀ name, (listing.filter fun pair => pair.1 == name) =
    arriving.filter fun pair => pair.1 == name

/-- A sort by the first parts leaves the pairs of one first part in their order. -/
theorem filter_mergeSort (pairs : Listing) (name : String) :
    ((pairs.mergeSort fun a b => decide (a.1 ≤ b.1)).filter fun pair => pair.1 == name) =
      pairs.filter fun pair => pair.1 == name := by
  have alike : (pairs.filter fun pair => pair.1 == name).Pairwise fun a b =>
      decide (a.1 ≤ b.1) = true := by
    refine List.pairwise_of_forall_mem_list fun a ha b hb => ?_
    rw [beq_iff_eq.mp (List.mem_filter.mp ha).2, beq_iff_eq.mp (List.mem_filter.mp hb).2]
    exact decide_eq_true (le_refl name)
  have kept := (List.sublist_mergeSort (fun a b c hab hbc => ?_) (fun a b => ?_) alike
    List.filter_sublist).filter fun pair => pair.1 == name
  · rw [List.filter_filter] at kept
    simp only [Bool.and_self] at kept
    refine (kept.eq_of_length ?_).symm
    exact ((List.mergeSort_perm pairs _).filter _).length_eq.symm
  · simp only [decide_eq_true_eq] at hab hbc ⊢
    exact le_trans hab hbc
  · simpa using le_total a.1 b.1

theorem isOfDirectory (t : FileTree) (path : String) (arrival : Arrival) :
    IsOfDirectory (arriving t path arrival) (ofDirectory t path arrival) where
  perm := List.mergeSort_perm _ _
  sorted := by
    refine (List.pairwise_mergeSort (fun a b c hab hbc => ?_) (fun a b => ?_) _).imp
      fun h => of_decide_eq_true h
    · simp only [decide_eq_true_eq] at hab hbc ⊢
      exact le_trans hab hbc
    · simpa using le_total a.1 b.1
  stable := filter_mergeSort _

theorem perm_arriving (t : FileTree) (path : String) (one other : Arrival) :
    (arriving t path one).Perm (arriving t path other) := by
  unfold arriving
  split
  · exact .refl _
  · split
    · exact .refl _
    · exact ((one.perm _).trans (other.perm _).symm).filterMap _

/-- Which classes an entry lists does not depend on the order in which a walk hands them over. -/
theorem perm_ofEntry (t : FileTree) (path : String) (one other : Arrival) :
    (∃ e, ofEntry t path one = .error e ∧ ofEntry t path other = .error e) ∨
      ∃ first second, ofEntry t path one = .ok first ∧ ofEntry t path other = .ok second ∧
        first.Perm second := by
  unfold ofEntry
  split
  · exact .inr ⟨_, _, rfl, rfl, .refl _⟩
  split
  · refine .inr ⟨_, _, rfl, rfl, (isOfDirectory t path one).perm.trans ?_⟩
    exact (perm_arriving t path one other).trans (isOfDirectory t path other).perm.symm
  split
  · exact .inr ⟨_, _, rfl, rfl, .refl _⟩
  split
  · cases ofArchive t path with
    | error e => exact .inl ⟨e, rfl, rfl⟩
    | ok listing => exact .inr ⟨_, _, rfl, rfl, .refl _⟩
  · exact .inr ⟨_, _, rfl, rfl, .refl _⟩

theorem ofEntryOrRuntime_of_ofEntry {listing : Listing} {one : Arrival}
    (given : ofEntry t path one = .ok listing) (some : name ∈ listing.map Prod.fst)
    (arrival : Arrival) : name ∈ (ofEntryOrRuntime t home path arrival).map Prod.fst := by
  unfold ofEntryOrRuntime
  cases mark : Path.same path moduleMark with
  | true =>
      have bare : ofEntry t path one = .ok [] := by
        unfold ofEntry
        rw [mark, if_pos rfl]
      rw [bare] at given
      cases given
      cases some
  | false =>
      rw [if_neg Bool.false_ne_true]
      rcases perm_ofEntry t path one arrival with ⟨e, failed, -⟩ | ⟨first, second, h, h', perm⟩
      · rw [failed] at given
        cases given
      · rw [h] at given
        cases given
        rw [h']
        exact (perm.map Prod.fst).mem_iff.mp some

theorem getElem?_ofEntries {arrivals : ℕ → Arrival} {entries : List String} {i : ℕ}
    (given : entries[i]? = some path) :
    (ofEntries t home arrivals entries)[i]? =
      some (ofEntryOrRuntime t home path (arrivals i)) := by
  simp [ofEntries, given]

theorem mem_ofEntries {arrivals : ℕ → Arrival} {entries : List String} {listing : Listing} :
    listing ∈ ofEntries t home arrivals entries ↔
      ∃ i path, entries[i]? = some path ∧ listing = ofEntryOrRuntime t home path (arrivals i) := by
  simp only [ofEntries, List.mem_map, Prod.exists, List.mem_zipIdx_iff_getElem?]
  constructor
  · rintro ⟨path, i, given, rfl⟩
    exact ⟨i, path, given, rfl⟩
  · rintro ⟨i, path, given, rfl⟩
    exact ⟨path, i, given, rfl⟩

/-- Whether a directory of modules in a Java home has a module of a name. -/
def IsModule (t : FileTree) (home name : String) : Prop :=
  ∃ place, t.place? (Path.join home "jmods") = some place ∧
    name ∈ (t.children place).map Prod.fst ∧ Path.extension? name = some "jmod"

/-- The classes of a runtime: those of its modules one after the other in ascending order, or the
core classes where it has none. -/
inductive IsOfRuntime (t : FileTree) (home : Option String) : Listing → Prop
  | core (bare : ∀ h ∈ home, ∀ name, ¬ IsModule t h name) :
      IsOfRuntime t home (CoreClass.names.map fun name => (name, .coreTable))
  | modules {h : String} {names : List String} (isHome : home = some h) (some : names ≠ [])
      (sorted : names.Pairwise (· ≤ ·)) (all : ∀ name, name ∈ names ↔ IsModule t h name) :
      IsOfRuntime t home (names.flatMap fun name =>
        orEmpty (ofModule t (Path.join (Path.join h "jmods") name)))

theorem modulesOf_spec (t : FileTree) (home : String) : ∃ names : List String,
    modulesOf t home = names.map (Path.join (Path.join home "jmods")) ∧
      names.Pairwise (· ≤ ·) ∧ ∀ name, name ∈ names ↔ IsModule t home name := by
  unfold modulesOf IsModule
  dsimp only
  cases t.place? (Path.join home "jmods") with
  | none => exact ⟨[], rfl, .nil, fun name => by simp⟩
  | some place =>
      refine ⟨_, rfl, ?_, fun name => ?_⟩
      · refine (List.pairwise_mergeSort (fun a b c hab hbc => ?_) (fun a b => ?_) _).imp
          fun h => of_decide_eq_true h
        · simp only [decide_eq_true_eq] at hab hbc ⊢
          exact le_trans hab hbc
        · simpa using le_total a b
      · simp

theorem isOfRuntime (t : FileTree) (home : Option String) :
    IsOfRuntime t home (ofRuntime t home) := by
  cases home with
  | none => exact .core nofun
  | some home =>
      obtain ⟨names, listed, sorted, all⟩ := modulesOf_spec t home
      unfold ofRuntime
      rw [Option.map_some, Option.getD_some, listed]
      cases names with
      | nil =>
          refine .core fun h isHome name has => ?_
          cases isHome
          cases (all name).mpr has
      | cons name names =>
          have modules : IsOfRuntime t (some home) _ :=
            .modules rfl (List.cons_ne_nil name names) sorted all
          simpa only [List.map_cons, List.flatMap_cons, List.flatMap_map] using modules

end Listing

/-! ## The index -/

namespace ClassIndex

variable {t : FileTree} {home : Option String} {arrivals : ℕ → Arrival} {p : ClassPath}
  {name : String} {location : ClassLocation}

theorem get?_build_eq_some_iff : (build t home p arrivals).get? name = some location ↔
    Listing.IsFirst (Listing.ofEntries t home arrivals p.entries) name location := by
  unfold build
  rw [OrderedMap.get?_foldl_insertNew, OrderedMap.get?_empty, Option.none_or]
  exact Listing.find?_flatten_eq_some_iff

theorem keys_build : (build t home p arrivals).keys =
    ((Listing.ofEntries t home arrivals p.entries).flatten.map Prod.fst).eraseDups := by
  unfold build
  rw [OrderedMap.keys_foldl_insertNew, ← firstOccurrences_eq_eraseDups]
  rfl

theorem mem_keys_build : name ∈ (build t home p arrivals).keys ↔
    ∃ listing ∈ Listing.ofEntries t home arrivals p.entries, name ∈ listing.map Prod.fst := by
  rw [keys_build, List.mem_eraseDups]
  simp only [List.mem_map, List.mem_flatten]
  constructor
  · rintro ⟨pair, ⟨listing, hl, hp⟩, rfl⟩
    exact ⟨listing, hl, pair, hp, rfl⟩
  · rintro ⟨listing, hl, pair, hp, rfl⟩
    exact ⟨pair, ⟨listing, hl, hp⟩, rfl⟩

theorem mem_classesIn {index : ClassIndex} {package : String} :
    name ∈ index.classesIn package ↔ name ∈ index.keys ∧
      ∃ last : String, name = package ++ "." ++ last ∧ '.' ∉ last.toList := by
  unfold classesIn
  rw [List.mem_filter, beq_iff_eq, Text.beforeLastDot?_eq_some_iff]

end ClassIndex

/-! ## The source of classes -/

namespace PathSource

theorem indexNow_indexed (s : PathSource) (t : FileTree) :
    (s.indexed t).indexNow t = s.indexNow t := rfl

/-- However often a source has been asked, its index is the one that it was to get at first. -/
theorem indexNow_iterate (s : PathSource) (t : FileTree) (asked : ℕ) :
    ((fun s => s.indexed t)^[asked] s).indexNow t = s.indexNow t := by
  induction asked generalizing s with
  | zero => rfl
  | succ asked ih =>
      rw [Function.iterate_succ_apply, ih]
      exact indexNow_indexed s t

end PathSource

open Listing

/-- Asked any number of times, a class path locates the classes that an entry lists, each where the
first of these entries lists it first; it names them without repetition in the order in which they
are listed first; the classes of a package are those named by the package, a dot and a text without
one; and what is found under an entry is located.  This holds in whatever orders the walks of
directories hand over what they meet, those that look under an entry later included; of the files of
one class in a directory the one that arrives first is listed first. -/
theorem PathSource.index_spec (t : FileTree) (home : Option String) (p : ClassPath)
    (arrivals : ℕ → Arrival) (asked : ℕ) :
    let source := (fun s : PathSource => s.indexed t)^[asked] ⟨p, home, arrivals, none⟩
    let index := source.indexNow t
    let listings := ofEntries t home arrivals p.entries
    (∀ i entry, p.entries[i]? = some entry → ∃ listing, listings[i]? = some listing ∧
      (Path.same entry moduleMark = true → IsOfRuntime t home listing) ∧
      (Path.same entry moduleMark = false → t.isDirectory entry = true →
        IsOfDirectory (arriving t entry (arrivals i)) listing)) ∧
      (∀ name, (index.get? name).isSome = true ↔
        ∃ listing ∈ listings, name ∈ listing.map Prod.fst) ∧
      (∀ name location, index.get? name = some location ↔ IsFirst listings name location) ∧
      index.keys = (listings.flatten.map Prod.fst).eraseDups ∧
      index.keys.Nodup ∧
      (∀ package name, name ∈ index.classesIn package ↔ name ∈ index.keys ∧
        ∃ last : String, name = package ++ "." ++ last ∧ '.' ∉ last.toList) ∧
      ∀ entry ∈ p.entries, ∀ (later : ℕ → Arrival) (names : List String),
        ({ source with arrivals := later }.supply t).classesUnder entry = .ok names →
          ∀ name ∈ names, (index.get? name).isSome = true := by
  intro source index listings
  have same : index = ClassIndex.build t home p arrivals := indexNow_iterate _ t asked
  have located (name : String) : (index.get? name).isSome = true ↔
      ∃ listing ∈ listings, name ∈ listing.map Prod.fst := by
    rw [Option.isSome_iff_exists, ← OrderedMap.mem_keys_iff, same]
    exact ClassIndex.mem_keys_build
  refine ⟨fun i entry given => ⟨_, getElem?_ofEntries given, fun mark => ?_, fun mark isDir => ?_⟩,
    located, fun name location => ?_, ?_, index.nodup, fun package name => ClassIndex.mem_classesIn,
    fun entry he later names found name hm => ?_⟩
  · unfold ofEntryOrRuntime
    rw [mark, if_pos rfl]
    exact isOfRuntime t home
  · unfold ofEntryOrRuntime ofEntry
    rw [mark, isDir]
    exact isOfDirectory t entry (arrivals i)
  · rw [same]
    exact ClassIndex.get?_build_eq_some_iff
  · rw [same]
    exact ClassIndex.keys_build
  · have under : ((ofEntry t entry (later source.path.entries.length)).map fun listing =>
        listing.map Prod.fst) = .ok names := found
    cases listed : ofEntry t entry (later source.path.entries.length) with
    | error e =>
        rw [listed] at under
        cases under
    | ok pairs =>
        rw [listed] at under
        cases under
        obtain ⟨i, given⟩ := List.mem_iff_getElem?.mp he
        exact (located name).mpr ⟨_, mem_ofEntries.mpr ⟨i, entry, given, rfl⟩,
          ofEntryOrRuntime_of_ofEntry listed hm _⟩

end ClassUniverse
