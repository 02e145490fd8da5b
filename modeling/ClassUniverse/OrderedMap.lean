/-!
# Tables in order of first insertion

A finite table from texts to values that lists its entries in the order in which the keys came in.
Writing to a key that is present keeps its place, erasing a key closes the gap, so the order is
always the order of the surviving first insertions.  No key occurs twice.
-/

namespace ClassUniverse

/-- A table keyed by text whose entries stand in order of first insertion. -/
structure OrderedMap (α : Type) where
  entries : List (String × α)
  nodup : (entries.map Prod.fst).Nodup

namespace OrderedMap

variable {α : Type}

def empty : OrderedMap α := ⟨[], List.nodup_nil⟩

instance : Inhabited (OrderedMap α) := ⟨empty⟩

def keys (m : OrderedMap α) : List String := m.entries.map Prod.fst

def values (m : OrderedMap α) : List α := m.entries.map Prod.snd

def size (m : OrderedMap α) : Nat := m.entries.length

def get? (m : OrderedMap α) (key : String) : Option α :=
  (m.entries.find? fun entry => entry.1 == key).map Prod.snd

def contains (m : OrderedMap α) (key : String) : Bool := m.keys.contains key

theorem keys_replace (entries : List (String × α)) (key : String) (value : α) :
    (entries.map fun entry => if entry.1 = key then (key, value) else entry).map Prod.fst =
      entries.map Prod.fst := by
  induction entries with
  | nil => rfl
  | cons entry rest ih =>
      by_cases h : entry.1 = key <;> simp [h, ih]

/-- Sets the value of a key: in its place when the key is present, else at the end. -/
def insert (m : OrderedMap α) (key : String) (value : α) : OrderedMap α :=
  if h : key ∈ m.keys then
    ⟨m.entries.map fun entry => if entry.1 = key then (key, value) else entry,
      by rw [keys_replace]; exact m.nodup⟩
  else
    ⟨m.entries ++ [(key, value)], by
      rw [List.map_append, List.nodup_append]
      refine ⟨m.nodup, by simp, ?_⟩
      intro a ha b hb
      have hb : b = key := by simpa using hb
      intro hab
      exact h (by rw [← hb, ← hab]; exact ha)⟩

/-- Sets the value of a key that has none; a key that has one keeps it. -/
def insertNew (m : OrderedMap α) (key : String) (value : α) : OrderedMap α :=
  if key ∈ m.keys then m else m.insert key value

def erase (m : OrderedMap α) (key : String) : OrderedMap α :=
  ⟨m.entries.filter fun entry => entry.1 != key,
    m.nodup.sublist (List.filter_sublist.map _)⟩

/-- The table of a list of pairs; a later pair replaces the value of an earlier one in its place. -/
def ofList (pairs : List (String × α)) : OrderedMap α :=
  pairs.foldl (fun m pair => m.insert pair.1 pair.2) empty

theorem contains_iff (m : OrderedMap α) (key : String) : m.contains key = true ↔ key ∈ m.keys := by
  simp [contains]

theorem get?_eq_some_iff (m : OrderedMap α) {key : String} {value : α} :
    m.get? key = some value ↔ (key, value) ∈ m.entries := by
  obtain ⟨entries, nodup⟩ := m
  simp only [get?]
  induction entries with
  | nil => simp
  | cons entry rest ih =>
      obtain ⟨first, other⟩ := entry
      rw [List.map_cons, List.nodup_cons] at nodup
      by_cases h : first = key
      · subst h
        have absent : (first, value) ∉ rest := fun hm =>
          nodup.1 (List.mem_map.mpr ⟨_, hm, rfl⟩)
        simp [absent, eq_comm]
      · simpa [h, Ne.symm h] using ih nodup.2

theorem mem_keys_iff (m : OrderedMap α) {key : String} :
    key ∈ m.keys ↔ ∃ value, m.get? key = some value := by
  simp only [get?_eq_some_iff, keys, List.mem_map, Prod.exists]
  constructor
  · rintro ⟨first, value, hm, rfl⟩
    exact ⟨value, hm⟩
  · rintro ⟨value, hm⟩
    exact ⟨key, value, hm, rfl⟩

theorem mem_values_iff (m : OrderedMap α) {value : α} :
    value ∈ m.values ↔ ∃ key, m.get? key = some value := by
  simp only [get?_eq_some_iff, values, List.mem_map, Prod.exists]
  constructor
  · rintro ⟨key, other, hm, rfl⟩
    exact ⟨key, hm⟩
  · rintro ⟨key, hm⟩
    exact ⟨key, value, hm, rfl⟩

theorem get?_eq_none_iff (m : OrderedMap α) {key : String} : m.get? key = none ↔ key ∉ m.keys := by
  rw [mem_keys_iff, Option.eq_none_iff_forall_ne_some]
  simp

@[simp] theorem get?_empty (key : String) : (empty : OrderedMap α).get? key = none := rfl

theorem mem_entries_insert (m : OrderedMap α) {key other : String} {value found : α} :
    (other, found) ∈ (m.insert key value).entries ↔
      (other = key ∧ found = value) ∨ (other ≠ key ∧ (other, found) ∈ m.entries) := by
  unfold insert
  by_cases h : key ∈ m.keys
  · obtain ⟨old, hold⟩ := (mem_keys_iff m).mp h
    have hold := (get?_eq_some_iff m).mp hold
    simp only [dif_pos h, List.mem_map, Prod.exists]
    constructor
    · rintro ⟨first, second, hm, he⟩
      by_cases hf : first = key
      · simp only [hf, if_true, Prod.mk.injEq] at he
        exact .inl ⟨he.1.symm, he.2.symm⟩
      · simp only [hf, if_false, Prod.mk.injEq] at he
        obtain ⟨rfl, rfl⟩ := he
        exact .inr ⟨hf, hm⟩
    · rintro (⟨rfl, rfl⟩ | ⟨hne, hm⟩)
      · exact ⟨other, old, hold, by simp⟩
      · exact ⟨other, found, hm, by simp [hne]⟩
  · simp only [dif_neg h, List.mem_append, List.mem_singleton, Prod.mk.injEq]
    constructor
    · rintro (hm | hnew)
      · refine .inr ⟨?_, hm⟩
        rintro rfl
        exact h (List.mem_map.mpr ⟨_, hm, rfl⟩)
      · exact .inl hnew
    · rintro (hnew | ⟨-, hm⟩)
      · exact .inr hnew
      · exact .inl hm

theorem get?_insert (m : OrderedMap α) (key other : String) (value : α) :
    (m.insert key value).get? other = if other = key then some value else m.get? other := by
  apply Option.ext
  intro found
  rw [get?_eq_some_iff, mem_entries_insert, ← get?_eq_some_iff]
  by_cases h : other = key <;> simp [h, eq_comm]

theorem get?_erase (m : OrderedMap α) (key other : String) :
    (m.erase key).get? other = if other = key then none else m.get? other := by
  apply Option.ext
  intro found
  have hm : (other, found) ∈ (m.erase key).entries ↔ (other, found) ∈ m.entries ∧ other ≠ key := by
    simp [erase]
  rw [get?_eq_some_iff, hm, ← get?_eq_some_iff]
  by_cases h : other = key <;> simp [h]

@[simp] theorem keys_empty : (empty : OrderedMap α).keys = [] := rfl

theorem keys_insert (m : OrderedMap α) (key : String) (value : α) :
    (m.insert key value).keys = if key ∈ m.keys then m.keys else m.keys ++ [key] := by
  unfold insert
  split
  · exact keys_replace m.entries key value
  · simp [keys]

theorem keys_insertNew (m : OrderedMap α) (key : String) (value : α) :
    (m.insertNew key value).keys = if key ∈ m.keys then m.keys else m.keys ++ [key] := by
  unfold insertNew
  by_cases h : key ∈ m.keys
  · simp [h]
  · simp [h, keys_insert]

theorem get?_foldl_insert (pairs : List (String × α)) (nodup : (pairs.map Prod.fst).Nodup)
    (m : OrderedMap α) {key : String} {value : α} :
    (pairs.foldl (fun m pair => m.insert pair.1 pair.2) m).get? key = some value ↔
      (key, value) ∈ pairs ∨ (key ∉ pairs.map Prod.fst ∧ m.get? key = some value) := by
  induction pairs generalizing m with
  | nil => simp
  | cons pair rest ih =>
      obtain ⟨first, held⟩ := pair
      rw [List.map_cons, List.nodup_cons] at nodup
      rw [List.foldl_cons, ih nodup.2, get?_insert, List.map_cons, List.mem_cons, List.mem_cons]
      by_cases same : key = first
      · subst same
        have absent : (key, value) ∉ rest := fun hm => nodup.1 (List.mem_map.mpr ⟨_, hm, rfl⟩)
        have unseen : key ∉ rest.map Prod.fst := nodup.1
        simp [absent, unseen, eq_comm]
      · simp [same]

/-- A table of pairs with different keys has these pairs. -/
theorem get?_ofList {pairs : List (String × α)} (nodup : (pairs.map Prod.fst).Nodup) {key : String}
    {value : α} : (ofList pairs).get? key = some value ↔ (key, value) ∈ pairs := by
  unfold ofList
  rw [get?_foldl_insert pairs nodup]
  simp

end OrderedMap

/-- In a list of pairs with different keys a key leads to the value that it stands with. -/
theorem lookup_eq_some_iff_mem {κ α : Type} [DecidableEq κ] {pairs : List (κ × α)}
    (nodup : (pairs.map Prod.fst).Nodup) {key : κ} {value : α} :
    pairs.lookup key = some value ↔ (key, value) ∈ pairs := by
  induction pairs with
  | nil => simp
  | cons pair rest ih =>
      obtain ⟨first, held⟩ := pair
      rw [List.map_cons, List.nodup_cons] at nodup
      rw [List.lookup_cons, List.mem_cons, Prod.mk.injEq]
      by_cases same : key = first
      · subst same
        have absent : (key, value) ∉ rest := fun hm => nodup.1 (List.mem_map.mpr ⟨_, hm, rfl⟩)
        simp [absent, eq_comm]
      · have differ : (key == first) = false := by simpa using same
        simp [differ, same, ih nodup.2]

/-- Adds a text at the end of a list unless it is there already. -/
def appendNew (names : List String) (name : String) : List String :=
  if name ∈ names then names else names ++ [name]

theorem nodup_appendNew {names : List String} (h : names.Nodup) (name : String) :
    (appendNew names name).Nodup := by
  unfold appendNew
  by_cases hn : name ∈ names
  · simpa [hn] using h
  · simp only [hn, if_false]
    rw [List.nodup_append]
    refine ⟨h, by simp, ?_⟩
    intro a ha b hb hab
    have hb : b = name := by simpa using hb
    exact hn (by rw [← hb, ← hab]; exact ha)

/-- The texts of a list, each at its first occurrence. -/
def firstOccurrences (names : List String) : List String := names.foldl appendNew []

theorem foldl_appendNew (names seen : List String) :
    names.foldl appendNew seen = seen ++ (names.filter (· ∉ seen)).eraseDups := by
  induction names generalizing seen with
  | nil => simp
  | cons name names ih =>
      rw [List.foldl_cons, ih, appendNew]
      by_cases h : name ∈ seen
      · simp [h]
      · have hrest : names.filter (· ∉ seen ++ [name]) =
            (names.filter (· ∉ seen)).filter fun other => !other == name := by
          rw [List.filter_filter]
          apply List.filter_congr
          intro other _
          by_cases he : other = name <;> simp [he]
        rw [if_neg h, hrest]
        simp [h, List.eraseDups_cons]

theorem firstOccurrences_eq_eraseDups (names : List String) :
    firstOccurrences names = names.eraseDups := by
  have hall : names.filter (· ∉ ([] : List String)) = names := by simp
  rw [firstOccurrences, foldl_appendNew, hall, List.nil_append]

end ClassUniverse
