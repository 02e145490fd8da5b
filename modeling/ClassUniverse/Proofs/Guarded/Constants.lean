import ClassUniverse.ClassFile.Parse
import ClassUniverse.Proofs.Guarded.Cursor
import ClassUniverse.Proofs.Guarded.Descriptors

/-!
# Reading the table of constants at places

A table of constants is filled entry by entry from the bytes at a cursor.  Each constant fills at
least one entry, so the filling ends.  The table has no more entries than 16 bits can count, and its
texts are short enough to be cut.
-/

namespace ClassUniverse.ClassFile

open Text Guarded

/-! ## Constants -/

namespace Constant

/-- The entries that a constant takes in the table. -/
def entries (c : Constant) : List (Option Constant) := some c :: List.replicate (c.width - 1) none

theorem length_entries (c : Constant) : c.entries.length = c.width := by
  have positive := c.width_pos
  rw [entries, List.length_cons, List.length_replicate]
  omega

def cursor : Cursor Constant := do
  let tag ← Cursor.byte
  if tag = 1 then
    let length ← Cursor.u16
    return utf8 (← Cursor.take length)
  else if tag = 7 then
    return classRef (← Cursor.u16)
  else if tag = 5 ∨ tag = 6 then
    return wide tag (← Cursor.take 8)
  else
    match payloadLength? tag with
    | some length => return plain tag (← Cursor.take length)
    | none => Cursor.guarded (ofOption none)

theorem payloadLength?_lt {tag : UInt8} {length : Nat} (h : payloadLength? tag = some length) :
    length < 2 ^ 32 := by
  unfold payloadLength? at h
  split at h
  · exact Option.some.inj h ▸ by decide
  split at h
  · exact Option.some.inj h ▸ by decide
  split at h
  · exact Option.some.inj h ▸ by decide
  · cases h

theorem follows_cursor : Follows cursor read := by
  refine Follows.byte.bind fun tag _ => ?_
  split
  · refine Follows.u16.bind fun length given => ?_
    have small := Reader.lt_of_gives_u16 given
    exact (Follows.take (by omega)).bind fun _ _ => Follows.pure _
  split
  · exact Follows.u16.bind fun _ _ => Follows.pure _
  split
  · exact (Follows.take (by decide)).bind fun _ _ => Follows.pure _
  · cases h : payloadLength? tag with
    | some length =>
        exact (Follows.take (payloadLength?_lt h)).bind fun _ _ => Follows.pure _
    | none => exact Follows.failure

/-- The length of a text is read from two bytes. -/
theorem length_of_gives {bytes : List UInt8} (h : read.Gives (utf8 bytes)) :
    bytes.length < 2 ^ 16 := by
  obtain ⟨tag, -, h⟩ := Reader.gives_of_bind h
  split at h
  · obtain ⟨length, small, h⟩ := Reader.gives_of_bind h
    obtain ⟨found, taken, h⟩ := Reader.gives_of_bind h
    cases Reader.gives_of_pure h
    rw [taken.length]
    exact Reader.lt_of_gives_u16 small
  split at h
  · obtain ⟨_, -, h⟩ := Reader.gives_of_bind h
    cases Reader.gives_of_pure h
  split at h
  · obtain ⟨_, -, h⟩ := Reader.gives_of_bind h
    cases Reader.gives_of_pure h
  · split at h
    · obtain ⟨_, -, h⟩ := Reader.gives_of_bind h
      cases Reader.gives_of_pure h
    · exact absurd h Reader.not_gives_failure

/-- The constants of a table take no more indices than they have to, but for one, and their texts
are short. -/
theorem bounds_of_gives {indices : Nat} {constants : List Constant}
    (h : (readTable indices).Gives constants) :
    (constants.map width).sum ≤ indices + 1 ∧ (indices = 0 → constants = []) ∧
      ∀ bytes, utf8 bytes ∈ constants → bytes.length < 2 ^ 16 := by
  induction indices using readTable.induct generalizing constants with
  | case1 =>
      rw [readTable] at h
      cases Reader.gives_of_pure h
      simp
  | case2 indices ih =>
      rw [readTable] at h
      obtain ⟨first, one, h⟩ := Reader.gives_of_bind h
      obtain ⟨rest, others, h⟩ := Reader.gives_of_bind h
      cases Reader.gives_of_pure h
      obtain ⟨sum, ended, texts⟩ := ih first others
      have narrow : first.width ≤ 2 := by cases first <;> simp [width]
      refine ⟨?_, fun none_left => absurd none_left (Nat.succ_ne_zero indices), ?_⟩
      · rw [List.map_cons, List.sum_cons]
        by_cases last : indices + 1 - first.width = 0
        · rw [ended last, List.map_nil, List.sum_nil]
          omega
        · omega
      · intro bytes hm
        obtain same | later := List.mem_cons.mp hm
        · subst same
          exact length_of_gives one
        · exact texts bytes later

end Constant

/-! ## The table of constants -/

namespace ConstantTable

/-- Reads one more constant, unless the table has so many entries. -/
def fill (count : Nat) (table : ConstantTable) : Cursor (ConstantTable ⊕ ConstantTable) :=
  if table.size < count then do
    let constant ← Constant.cursor
    return .inl (table ++ constant.entries.toArray)
  else return .inr table

def cursor : Cursor ConstantTable := do
  let count ← Cursor.u16
  Cursor.guarded (room (count * 64))
  Cursor.loop (fun table => count - table.size) (fill count) #[none]

theorem size_append_entries (table : ConstantTable) (c : Constant) :
    Array.size (table ++ c.entries.toArray) = Array.size table + c.width := by
  simp [c.length_entries]

/-- What is read into a table that has some entries already. -/
def readInto (count : Nat) (table : ConstantTable) : Reader ConstantTable := do
  let constants ← Constant.readTable (count - table.size)
  return table ++ (constants.flatMap Constant.entries).toArray

theorem readInto_eq (count : Nat) (table : ConstantTable) :
    readInto count table = (if table.size < count then
        return .inl (table ++ (← Constant.read).entries.toArray)
      else return .inr table) >>= Sum.elim (readInto count) pure := by
  split
  · rename_i less
    obtain ⟨more, hm⟩ : ∃ more, count - table.size = more + 1 := ⟨count - table.size - 1, by omega⟩
    have left (c : Constant) : count - (Array.size table + c.width) = more + 1 - c.width := by
      omega
    simp [readInto, hm, left, Constant.readTable, Constant.length_entries]
  · rename_i full
    have none_left : count - table.size = 0 := by omega
    simp [readInto, none_left, Constant.readTable]

theorem follows_fill (count : Nat) (table : ConstantTable) :
    Follows (fill count table) (if table.size < count then
        return .inl (table ++ (← Constant.read).entries.toArray)
      else return .inr table) := by
  unfold fill
  split
  · exact Constant.follows_cursor.bind fun _ _ => Follows.pure _
  · exact Follows.pure _

/-- A reader of the table from its count on. -/
def read : Reader ConstantTable := do
  let count ← Reader.u16
  let constants ← Constant.readTable (count - 1)
  return ofConstants constants

theorem follows_cursor : Follows cursor read := by
  refine Follows.u16.bind fun count given => ?_
  have small := Reader.lt_of_gives_u16 given
  refine Follows.skip (room_eq (by omega)) ?_
  have whole : readInto count #[none] = (do
      let constants ← Constant.readTable (count - 1)
      return ofConstants constants) := by
    simp [readInto, ofConstants]
    rfl
  rw [← whole]
  refine Follows.loop (follows_fill count) (fun table next given => ?_) (readInto_eq count) #[none]
  split at given
  · rename_i less
    obtain ⟨c, -, same⟩ := Reader.gives_of_bind given
    have positive := c.width_pos
    have longer := size_append_entries table c
    rw [Sum.inl.inj (Reader.gives_of_pure same), longer]
    omega
  · cases Reader.gives_of_pure given

/-- A table with as many entries as 16 bits can count, whose texts can be cut. -/
structure IsShort (table : ConstantTable) : Prop where
  size : table.size ≤ 2 ^ 16
  texts : ∀ index s, table.text? index = some s → IsCuttable s

theorem isShort_of_gives {table : ConstantTable} (h : read.Gives table) : table.IsShort := by
  obtain ⟨count, small, h⟩ := Reader.gives_of_bind h
  obtain ⟨constants, given, h⟩ := Reader.gives_of_bind h
  cases Reader.gives_of_pure h
  obtain ⟨sum, ended, texts⟩ := Constant.bounds_of_gives given
  have small := Reader.lt_of_gives_u16 small
  constructor
  · have entries : (ofConstants constants).size = 1 + (constants.map Constant.width).sum := by
      change (none :: constants.flatMap Constant.entries).toArray.size = _
      rw [List.size_toArray, List.length_cons, List.length_flatMap, Nat.add_comm]
      simp only [Constant.length_entries]
    rw [entries]
    by_cases none_left : count - 1 = 0
    · rw [ended none_left]
      decide
    · omega
  · intro index s hs
    unfold text? at hs
    split at hs
    · rename_i bytes found
      have place := Array.mem_of_getElem? (Option.join_eq_some_iff.mp found)
      have member : Constant.utf8 bytes ∈ constants := by
        rw [ofConstants, List.mem_toArray, List.mem_cons, List.mem_flatMap] at place
        obtain ⟨_, hn⟩ | ⟨c, hc, hm⟩ := place
        obtain same | padding := List.mem_cons.mp hm
        · rwa [Option.some.inj same]
        · cases (List.mem_replicate.mp padding).2
      have few := texts bytes member
      have decoded := utf8Len_decodeLossy bytes
      rw [← Option.some.inj hs]
      unfold IsCuttable
      omega
    · cases hs

/-- The name of a class is a text with other separators. -/
theorem IsShort.className {table : ConstantTable} (h : table.IsShort) {index : Nat} {s : List Char}
    (found : table.className? index = some s) : IsCuttable (exchange '.' '/' s) := by
  unfold className? at found
  split at found
  · obtain ⟨text, ht, rfl⟩ := Option.map_eq_some_iff.mp found
    have cuttable := h.texts _ _ ht
    unfold IsCuttable at cuttable ⊢
    rwa [exchange, exchange, utf8Len_exchange (by decide), utf8Len_exchange (by decide)]
  · cases found

end ConstantTable

end ClassUniverse.ClassFile
