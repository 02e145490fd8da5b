import ClassUniverse.Proofs.Manifest.Plain
import ClassUniverse.Proofs.Manifest.Reading

/-!
# Manifests in either form

An element changes each level on its own: a level becomes the value of the last attribute for it.
In a manifest that carries some levels there is one such attribute for each that is there, so the
reader of binary manifests finds the levels that the reader of plain ones finds in their rendering.
-/

namespace ClassUniverse.Manifest

open Text

namespace Image

/-! ## What an attribute is for -/

/-- Whether an attribute that was read is for a level, by its name or by its resource number. -/
def isFor (a : ElementAttribute) (r : Role) : Bool :=
  a.name == r.key || r.resource?.any fun n => a.resource == some n.toNat

/-- An attribute sets the level that it is for, where the element is the one for that level. -/
theorem level_apply {a : ElementAttribute} {element : String}
    (apart : element = "uses-sdk" → ¬ (isFor a .target = true ∧ isFor a .minimum = true))
    (l : ManifestLevels) (r : Role) :
    level (a.apply element l) r =
      if element = r.element ∧ isFor a r = true then a.value else level l r := by
  have target : (a.name = "targetSdkVersion" ∨ a.resource = some targetResource) ↔
      isFor a .target = true := by
    simp [isFor, Role.key, Role.resource?, targetResource]
  have minimum : (a.name = "minSdkVersion" ∨ a.resource = some minimumResource) ↔
      isFor a .minimum = true := by
    simp [isFor, Role.key, Role.resource?, minimumResource]
  have build : a.name = "platformBuildVersionCode" ↔ isFor a .build = true := by
    simp [isFor, Role.key, Role.resource?]
  simp only [ElementAttribute.apply, target, minimum, build]
  -- The element decides which levels can change; only for the levels of the SDK are there two.
  by_cases whole : element = "manifest"
  · subst whole
    cases r <;> cases isFor a .build <;> rfl
  · by_cases sdk : element = "uses-sdk"
    · subst sdk
      have apart := apart rfl
      cases forTarget : isFor a .target <;> cases forMinimum : isFor a .minimum
      all_goals cases r <;> simp_all [Role.element, level]
    · cases r <;> simp [whole, sdk, Role.element]

variable {i : Image} {a : Attribute} {r : Role}

/-- A reader reads a text of ASCII characters at an index where the image has it. -/
theorem string_eq_iff {key : String} (ascii : IsAscii key.toList) (index : UInt32) :
    i.tables.strings[index.toNat]? = some key ↔ i.spells index key = true := by
  have read : i.tables.strings[index.toNat]? =
      i.pool.strings[index.toNat]?.map fun s => s.string.text := by
    simp [tables]
  rw [read, spells]
  cases i.pool.strings[index.toNat]? with
  | none => simp
  | some s =>
      rw [Option.map_some, Option.some_inj, s.string.text_eq_iff ascii]
      rfl

theorem isFor_reading : isFor (a.reading i.tables) r = i.plays a r := by
  have ascii : IsAscii r.key.toList := by cases r <;> decide
  have some_name : r.key ≠ "" := by cases r <;> decide
  have named : ((a.reading i.tables).name == r.key) = i.spells a.name r.key := by
    rw [Bool.eq_iff_iff, beq_iff_eq, ← string_eq_iff ascii]
    change (i.tables.strings[a.name.toNat]?).getD "" = r.key ↔ _
    cases i.tables.strings[a.name.toNat]? with
    | none => simp [some_name.symm]
    | some name => simp
  have numbered : (r.resource?.any fun n => (a.reading i.tables).resource == some n.toNat) =
      i.marks a.name r := by
    have read : (a.reading i.tables).resource =
        ((i.resources.map ResourceMap.numbers).getD [])[a.name.toNat]?.map UInt32.toNat := by
      simp [Attribute.reading, tables]
    have same (m n : UInt32) : (some m.toNat == some n.toNat) = (some n == some m) := by
      rw [Bool.eq_iff_iff, beq_iff_eq, beq_iff_eq, Option.some_inj, Option.some_inj,
        UInt32.toNat_inj, eq_comm]
    rw [read, marks]
    cases i.resources with
    | none => cases r.resource? <;> rfl
    | some map =>
        cases r.resource? <;> cases found : map.numbers[a.name.toNat]? <;> simp [found, same]
  unfold isFor plays
  rw [named, numbered]

theorem value_reading {n : UInt32} (h : a.integer? = some n) (p : Progress) :
    (a.reading p).value = some n := by
  unfold Attribute.integer? at h
  split at h
  next integer =>
    cases h
    change levelValue? p.strings a.type a.raw.toNat a.value.toNat = _
    rw [levelValue?, if_pos integer, UInt32.ofNat_toNat]
  next => cases h

/-! ## What elements do to a level -/

/-- The attributes of an element for a level, if the element is the one for that level. -/
def playersIn (i : Image) (r : Role) (e : Element) : List Attribute :=
  if i.spells e.name r.element then e.attributes.filter fun a => i.plays a r else []

/-- The value of the last of some attributes, or a level if there are none. -/
def lastValue (i : Image) (attributes : List Attribute) (start : Option UInt32) : Option UInt32 :=
  attributes.foldl (fun _ a => (a.reading i.tables).value) start

theorem level_attributes {element : String} (attributes : List Attribute)
    (apart : element = "uses-sdk" → i.AreApart attributes) (l : ManifestLevels) (r : Role) :
    level (attributes.foldl (fun l a => (a.reading i.tables).apply element l) l) r =
      i.lastValue (if element = r.element then attributes.filter fun a => i.plays a r else [])
        (level l r) := by
  induction attributes generalizing l with
  | nil => simp [lastValue]
  | cons a attributes ih =>
      have later := fun sdk b hb => apart sdk b (List.mem_cons_of_mem a hb)
      have first : element = "uses-sdk" → ¬ (isFor (a.reading i.tables) .target = true ∧
          isFor (a.reading i.tables) .minimum = true) := by
        rw [isFor_reading, isFor_reading]
        exact fun sdk => apart sdk a List.mem_cons_self
      rw [List.foldl_cons, ih later, level_apply first, isFor_reading]
      by_cases own : element = r.element
      · by_cases plays : i.plays a r = true <;> simp [own, plays, lastValue]
      · simp [own]

theorem level_after {e : Element}
    (apart : i.spells e.name "uses-sdk" = true → i.AreApart e.attributes) (l : ManifestLevels)
    (r : Role) :
    level (Element.after i.tables l e) r = i.lastValue (i.playersIn r e) (level l r) := by
  have ascii : IsAscii r.element.toList := by cases r <;> decide
  have element := string_eq_iff (i := i) ascii e.name
  unfold playersIn Element.after
  rw [← string_eq_iff (by decide)] at apart
  cases name : i.tables.strings[e.name.toNat]? with
  | none =>
      rw [name] at element
      have other : ¬ i.spells e.name r.element = true := by simpa using element
      rw [if_neg other]
      rfl
  | some name' =>
      rw [name, Option.some_inj] at apart element
      simp only [level_attributes e.attributes apart, element]

/-- Elements change each level on its own, to the value of the last attribute for it. -/
theorem level_elements (elements : List Element)
    (apart : ∀ e ∈ elements, i.spells e.name "uses-sdk" = true → i.AreApart e.attributes)
    (l : ManifestLevels) (r : Role) :
    level (elements.foldl (Element.after i.tables) l) r =
      i.lastValue (elements.flatMap (i.playersIn r)) (level l r) := by
  induction elements generalizing l with
  | nil => rfl
  | cons e elements ih =>
      rw [List.forall_mem_cons] at apart
      rw [List.foldl_cons, ih apart.2, level_after apart.1, List.flatMap_cons]
      exact List.foldl_append.symm

theorem players_eq (i : Image) (r : Role) :
    i.players r = (i.body.filterMap Node.element?).flatMap (i.playersIn r) := by
  unfold players elements playersIn
  induction i.body.filterMap Node.element? with
  | nil => rfl
  | cons e elements ih =>
      by_cases own : i.spells e.name r.element = true <;> simp [own, ih]

/-- The only attribute for a level decides it, and with none it stays away. -/
theorem lastValue_of_carries {l : ManifestLevels} (carries : i.Carries l) (r : Role) :
    i.lastValue (i.players r) none = level l r := by
  have only : (i.players r).map Attribute.integer? = (level l r).toList.map some :=
    carries.levels r (by cases r <;> simp)
  cases wanted : level l r with
  | none =>
      rw [wanted] at only
      rw [List.map_eq_nil_iff.mp only]
      rfl
  | some n =>
      rw [wanted] at only
      obtain ⟨a, alone, integer⟩ : ∃ a, i.players r = [a] ∧ a.integer? = some n := by
        simpa [List.map_eq_singleton_iff] using only
      rw [alone]
      exact value_reading integer i.tables

end Image

open Image

/-- Levels are known by their roles. -/
theorem levels_ext {l l' : ManifestLevels} (h : ∀ r, level l r = level l' r) : l = l' := by
  cases l
  cases l'
  exact (ManifestLevels.mk.injEq ..).mpr ⟨h .target, h .minimum, h .build⟩

/-- A binary manifest is read as the levels that it carries. -/
theorem parse_of_carries {i : Image} {l : ManifestLevels} (valid : i.IsValid)
    (carries : i.Carries l) : ManifestLevels.parse i.bytes = l := by
  have apart : ∀ e ∈ i.body.filterMap Node.element?, i.spells e.name "uses-sdk" = true →
      i.AreApart e.attributes :=
    fun e he sdk => carries.apart e (List.mem_filter.mpr ⟨he, sdk⟩)
  unfold ManifestLevels.parse
  rw [if_pos (isBinary_bytes valid), binaryLevels?_bytes valid]
  refine levels_ext fun r => ?_
  rw [Option.getD_some, level_elements _ apart, ← players_eq]
  have initial : level {} r = none := by cases r <;> rfl
  rw [initial]
  exact lastValue_of_carries carries r

/-- A manifest gives back the levels that it names, as their plain rendering and in every binary
image that carries them. -/
theorem parse_either_form (l : ManifestLevels) : ManifestLevels.parse l.plainBytes = l ∧
    ∀ i : Image, i.IsValid → i.Carries l → ManifestLevels.parse i.bytes = l :=
  ⟨l.parse_plainBytes, fun _ valid carries => parse_of_carries valid carries⟩

/-! ## An image -/

/-- Four strings in bytes: the name of an attribute that was taken away, and three that are used. -/
def smallPool : Pool where
  kind := 0x0001
  header := 28
  flags := 0x100
  start := 44
  strings := [⟨0, .inBytes 0 false [] false⟩,
    ⟨2, .inBytes 24 false "platformBuildVersionCode".toUTF8.data.toList false⟩,
    ⟨28, .inBytes 8 false "manifest".toUTF8.data.toList false⟩,
    ⟨38, .inBytes 8 false "uses-sdk".toUTF8.data.toList false⟩]
  bytes := half 0x0001 ++ half 28 ++ word 92 ++ word 4 ++ word 0 ++ word 0x100 ++ word 44 ++
    word 0 ++ [0, 2, 28, 38].flatMap word ++ [0, 0] ++
    24 :: 24 :: "platformBuildVersionCode".toUTF8.data.toList ++
    8 :: 8 :: "manifest".toUTF8.data.toList ++ 8 :: 8 :: "uses-sdk".toUTF8.data.toList

/-- The first string has the resource number of the target level. -/
def smallResources : ResourceMap where
  kind := 0x0180
  header := 8
  numbers := [0x01010270]
  bytes := half 0x0180 ++ half 8 ++ word 12 ++ word 0x01010270

/-- An element with one attribute, an integer in decimal form. -/
def smallElement (name key value : UInt32) : Element where
  kind := 0x0102
  header := 16
  name := name
  start := 20
  stride := 20
  attributes := [⟨key, 0xFFFFFFFF, 0x10, value⟩]
  bytes := half 0x0102 ++ half 16 ++ word 56 ++ word 1 ++ word 0xFFFFFFFF ++ word 0xFFFFFFFF ++
    word name ++ half 20 ++ half 20 ++ half 1 ++ half 0 ++ half 0 ++ half 0 ++
    word 0xFFFFFFFF ++ word key ++ word 0xFFFFFFFF ++ half 8 ++ [0, 0x10] ++ word value

/-- A manifest with an end of a name space between its two elements. -/
def smallImage : Image where
  head := half 0x0003 ++ half 8 ++ word 248
  lead := []
  pool := smallPool
  gap := []
  resources := some smallResources
  body := [.element (smallElement 2 1 35),
    .other ⟨0x0101, 16, half 0x0101 ++ half 16 ++ word 24 ++ [1, 0, 0xFFFFFFFF, 0].flatMap word⟩,
    .element (smallElement 3 0 34)]
  tail := []

theorem parse_either_form_smallImage :
    ManifestLevels.parse (ManifestLevels.mk (some 34) none (some 35)).plainBytes =
        ⟨some 34, none, some 35⟩ ∧
      (smallImage.IsValid ∧ smallImage.Carries ⟨some 34, none, some 35⟩) ∧
        ManifestLevels.parse smallImage.bytes = ⟨some 34, none, some 35⟩ := by
  have valid : smallImage.IsValid := by decide +kernel
  have carries : smallImage.Carries ⟨some 34, none, some 35⟩ := by decide +kernel
  have both := parse_either_form ⟨some 34, none, some 35⟩
  exact ⟨both.1, ⟨valid, carries⟩, both.2 smallImage valid carries⟩

end ClassUniverse.Manifest
