import ClassUniverse.ClassFile.Parse
import ClassUniverse.Proofs.ClassFile.Reads

/-!
# How far a class file extends

A reader goes through the bytes in one direction and never asks how many there are.  So it reads
what it reads from the front of the bytes, whatever follows, and it fails on anything shorter.  In
the bytes of a class file there is one place where the class file ends: with less it is broken off,
and what stands behind it makes no difference.
-/

namespace ClassUniverse.ClassFile

variable {α β : Type}

/-! ## Reading forward -/

/-- Whether a reader takes what it reads from the front of the bytes, whatever follows. -/
def IsForward (r : Reader α) : Prop :=
  ∀ bytes a rest, r.run bytes = some (a, rest) → ∃ front, bytes = front ++ rest ∧ Reads r front a

namespace IsForward

variable {r : Reader α} {front : List UInt8} {a : α}

protected theorem pure (a : α) : IsForward (pure a : Reader α) := by
  intro bytes b rest h
  obtain ⟨rfl, rfl⟩ := Prod.mk.inj (Option.some.inj h)
  exact ⟨[], rfl, .pure a⟩

protected theorem failure : IsForward (failure : Reader α) := by
  intro bytes a rest h
  cases h

protected theorem bind {k : α → Reader β} (hr : IsForward r) (hk : ∀ a, IsForward (k a)) :
    IsForward (r >>= k) := by
  intro bytes b rest h
  rw [StateT.run_bind] at h
  obtain ⟨⟨a, between⟩, first, second⟩ := Option.bind_eq_some_iff.mp h
  obtain ⟨front, rfl, reads⟩ := hr bytes a between first
  obtain ⟨back, rfl, reads'⟩ := hk a between b rest second
  exact ⟨front ++ back, (List.append_assoc front back rest).symm, reads.bind reads'⟩

/-- A check of what has been read takes nothing. -/
theorem check {c : Prop} [Decidable c] {k : PUnit → Reader α} (hk : ∀ u, IsForward (k u)) :
    IsForward (if c then failure >>= k else k ⟨⟩) := by
  split
  · exact IsForward.failure.bind hk
  · exact hk ⟨⟩

theorem byte : IsForward Reader.byte := by
  intro bytes b rest h
  cases bytes with
  | nil => cases h
  | cons c bytes =>
      obtain ⟨rfl, rfl⟩ := Prod.mk.inj (Option.some.inj h)
      exact ⟨[c], rfl, .byte c⟩

theorem takeExactly_spec {n : Nat} {bytes taken rest : List UInt8}
    (h : takeExactly n bytes = some (taken, rest)) : bytes = taken ++ rest ∧ taken.length = n := by
  induction n generalizing bytes taken with
  | zero =>
      obtain ⟨rfl, rfl⟩ := Prod.mk.inj (Option.some.inj h)
      exact ⟨rfl, rfl⟩
  | succ n ih =>
      cases bytes with
      | nil => cases h
      | cons b bytes =>
          obtain ⟨⟨found, left⟩, later, same⟩ := Option.map_eq_some_iff.mp h
          obtain ⟨rfl, rfl⟩ := Prod.mk.inj same
          obtain ⟨rfl, rfl⟩ := ih later
          exact ⟨rfl, rfl⟩

theorem bytes (n : Nat) : IsForward (Reader.bytes n) := by
  intro all taken rest h
  obtain ⟨rfl, rfl⟩ := takeExactly_spec h
  exact ⟨taken, rfl, .bytes taken⟩

theorem u16 : IsForward Reader.u16 := (bytes 2).bind fun found => .pure (Reader.number found)

theorem u32 : IsForward Reader.u32 := (bytes 4).bind fun found => .pure (Reader.number found)

theorem times (h : IsForward r) (n : Nat) : IsForward (Reader.times r n) := by
  induction n with
  | zero => exact .pure []
  | succ n ih => exact h.bind fun first => ih.bind fun rest => .pure (first :: rest)

theorem counted (h : IsForward r) : IsForward (Reader.counted r) := u16.bind h.times

/-- A reader fails on a part of what it takes: if it read something there, it would read the same
where the rest stands behind, and leave that rest. -/
theorem run_part (h : IsForward r) (reads : Reads r front a) {part : List UInt8}
    (isPart : part <+: front) (short : part.length < front.length) : r.run part = none := by
  obtain ⟨missing, rfl⟩ := isPart
  cases found : r.run part with
  | none => rfl
  | some result =>
      obtain ⟨b, rest⟩ := result
      obtain ⟨taken, rfl, reads'⟩ := h part b rest found
      have again := reads' (rest ++ missing)
      rw [← List.append_assoc, reads.run] at again
      have left : rest ++ missing = [] := (Prod.mk.inj (Option.some.inj again)).2.symm
      rw [(List.append_eq_nil_iff.mp left).2, List.append_nil] at short
      exact absurd short (Nat.lt_irrefl _)

end IsForward

/-! ## The parts of a class file -/

open IsForward

theorem isForward_constant : IsForward Constant.read := by
  refine byte.bind fun tag => ?_
  split
  · exact u16.bind fun length => (bytes length).bind fun _ => .pure _
  split
  · exact u16.bind fun _ => .pure _
  split
  · exact (bytes 8).bind fun _ => .pure _
  split
  · exact (bytes _).bind fun _ => .pure _
  · exact .failure

theorem isForward_readTable (indices : Nat) : IsForward (Constant.readTable indices) := by
  induction indices using Nat.strong_induction_on with
  | h indices ih =>
      cases indices with
      | zero =>
          rw [Constant.readTable]
          exact .pure []
      | succ indices =>
          rw [Constant.readTable]
          refine isForward_constant.bind fun first => ?_
          have fewer : indices + 1 - first.width < indices + 1 := by
            have pos := first.width_pos
            omega
          exact (ih _ fewer).bind fun _ => .pure _

theorem isForward_attribute : IsForward Attribute.read :=
  u16.bind fun _ => u32.bind fun length => (bytes length).bind fun _ => .pure _

theorem isForward_member : IsForward Member.read :=
  u16.bind fun _ => u16.bind fun _ => u16.bind fun _ =>
    isForward_attribute.counted.bind fun _ => .pure _

theorem isForward_layout : IsForward Layout.read :=
  u32.bind fun _ => (IsForward.check fun _ => (bytes 4).bind fun _ => u16.bind fun count =>
    (isForward_readTable (count - 1)).bind fun _ => u16.bind fun _ => u16.bind fun _ =>
      u16.bind fun _ => u16.counted.bind fun _ => isForward_member.counted.bind fun _ =>
        isForward_member.counted.bind fun _ => isForward_attribute.counted.bind fun _ => .pure _)

/-! ## The end of a class file -/

variable {name : String} {front bytes : List UInt8} {layout : Layout} {d : ClassDefinition}

theorem definition?_of_parse (h : parse name bytes = .ok d) : definition? bytes = some d := by
  unfold parse at h
  split at h
  next found =>
    rw [found, Except.ok.inj h]
  next => cases h

theorem parse_of_reads (reads : Reads Layout.read front layout)
    (defines : layout.definition? = some d) (name : String) (start : front <+: bytes) :
    parse name bytes = .ok d := by
  obtain ⟨rest, rfl⟩ := start
  have found : definition? (front ++ rest) = some d := by
    rw [definition?, reads, Option.bind_eq_bind, Option.bind_some]
    exact defines
  rw [parse, found]

theorem parse_part (reads : Reads Layout.read front layout) (name : String) {part : List UInt8}
    (isPart : part <+: front) (short : part.length < front.length) :
    parse name part = .error (.configuration (.malformedClassFile name)) := by
  have broken : definition? part = none := by
    rw [definition?, isForward_layout.run_part reads isPart short]
    rfl
  rw [parse, broken]

/-- Whether the class file that defines a class ends at a place in some bytes: what reaches there,
in these bytes or beyond them, defines the class, and what does not is refused. -/
structure EndsAt (name : String) (bytes : List UInt8) (d : ClassDefinition) (place : Nat) :
    Prop where
  inside : place ≤ bytes.length
  enough : ∀ front, front <+: bytes → place ≤ front.length → parse name front = .ok d
  extended : ∀ longer, bytes <+: longer → parse name longer = .ok d
  needed : ∀ front, front <+: bytes → front.length < place →
    parse name front = .error (.configuration (.malformedClassFile name))

theorem EndsAt.le {place other : Nat} (h : EndsAt name bytes d place)
    (h' : EndsAt name bytes d other) : place ≤ other := by
  by_contra less
  have short : (bytes.take other).length = other := List.length_take_of_le h'.inside
  have refused := h.needed _ (List.take_prefix other bytes) (by omega)
  have read := h'.enough _ (List.take_prefix other bytes) (by omega)
  cases refused.symm.trans read

theorem endsAt_of_reads (reads : Reads Layout.read front layout)
    (defines : layout.definition? = some d) (name : String) (start : front <+: bytes) :
    EndsAt name bytes d front.length where
  inside := start.length_le
  enough _ isFront far :=
    parse_of_reads reads defines name (List.prefix_of_prefix_length_le start isFront far)
  extended _ isLonger := parse_of_reads reads defines name (start.trans isLonger)
  needed _ isFront short :=
    parse_part reads name (List.prefix_of_prefix_length_le isFront start (Nat.le_of_lt short)) short

/-- In bytes that define a class, the class file ends at exactly one place. -/
theorem parse_ends_once (name : String) (h : parse name bytes = .ok d) :
    ∃! place, EndsAt name bytes d place := by
  obtain ⟨⟨layout, rest⟩, found, defines⟩ := Option.bind_eq_some_iff.mp (definition?_of_parse h)
  obtain ⟨front, rfl, reads⟩ := isForward_layout bytes layout rest found
  have ends := endsAt_of_reads reads defines name (List.prefix_append front rest)
  exact ⟨front.length, ends, fun other h' => Nat.le_antisymm (h'.le ends) (ends.le h')⟩

/-! ## One class file

The bytes of a class without members, and three bytes behind them. -/

def loneClass : List UInt8 :=
  [0xCA, 0xFE, 0xBA, 0xBE, 0, 0, 0, 52, 0, 3, 1, 0, 1, 66, 7, 0, 1, 0, 0x21, 0, 2, 0, 0, 0, 0, 0, 0,
    0, 0, 0, 0]

theorem parse_ends_once_loneClass :
    parse "B" (loneClass ++ [1, 2, 3]) = .ok { name := "B", modifiers := ⟨0x21⟩ } ∧
      ∃! place, EndsAt "B" (loneClass ++ [1, 2, 3]) { name := "B", modifiers := ⟨0x21⟩ } place := by
  have read : parse "B" (loneClass ++ [1, 2, 3]) = .ok { name := "B", modifiers := ⟨0x21⟩ } := by
    decide +kernel
  exact ⟨read, parse_ends_once "B" read⟩

end ClassUniverse.ClassFile
