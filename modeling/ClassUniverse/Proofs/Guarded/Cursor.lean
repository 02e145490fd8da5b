import ClassUniverse.ClassFile.Bytes
import ClassUniverse.Proofs.Guarded.Basic

/-!
# Reading bytes at a place

A cursor keeps its place in some bytes and takes what stands there.  It follows a reader when it
never faults and gives what the reader takes from the bytes that are left.  A look-up that needs no
bytes can be made before or after the reading of others.
-/

namespace ClassUniverse.ClassFile

variable {α β γ : Type}

/-! ## Cursors -/

/-- A reader that keeps its place in some bytes. -/
abbrev Cursor (α : Type) := ReaderT (List UInt8) (StateT Nat Guarded) α

namespace Cursor

/-- A computation that reads no bytes. -/
def guarded (x : Guarded α) : Cursor α := fun _ start => x >>= fun a => pure (a, start)

def take (n : Nat) : Cursor (List UInt8) := fun bytes start => do
  let stop ← Guarded.plus start n
  let found ← Guarded.ofOption (Guarded.between? bytes start stop)
  let next ← Guarded.plus start n
  return (found, next)

def byte : Cursor UInt8 := do
  let found ← take 1
  guarded (Guarded.item found 0)

/-- A number of so many bytes. -/
def number (width : Nat) : Cursor Nat := do
  let found ← take width
  guarded (.ofOption (if found.length = width then some (Reader.number found) else none))

def u16 : Cursor Nat := number 2

def u32 : Cursor Nat := number 4

def times (one : Cursor α) : Nat → Cursor (List α)
  | 0 => pure []
  | n + 1 => do
      let first ← one
      let rest ← times one n
      return first :: rest

def counted (one : Cursor α) : Cursor (List α) := do
  let count ← u16
  times one count

def loop {σ : Type} (measure : σ → Nat) (step : σ → Cursor (σ ⊕ β)) (s : σ) : Cursor β :=
  Guarded.loopOr (guarded (.fault .stuck)) measure step s

end Cursor

/-! ## What a reader can give -/

namespace Reader

def ofOption (o : Option α) : Reader α := fun rest => o.map fun a => (a, rest)

/-- Whether a reader reads a value from some bytes. -/
def Gives (r : Reader α) (a : α) : Prop := ∃ bytes rest, r bytes = some (a, rest)

theorem takeExactly_eq (n : Nat) (rest : List UInt8) :
    takeExactly n rest = if n ≤ rest.length then some (rest.take n, rest.drop n) else none := by
  induction n generalizing rest with
  | zero => rw [if_pos (Nat.zero_le _)]; rfl
  | succ n ih =>
      cases rest with
      | nil => rfl
      | cons b rest =>
          rw [takeExactly, ih]
          by_cases h : n ≤ rest.length
          · have h' : n + 1 ≤ (b :: rest).length := Nat.succ_le_succ h
            rw [if_pos h, if_pos h']
            rfl
          · have h' : ¬ n + 1 ≤ (b :: rest).length := fun le => h (Nat.le_of_succ_le_succ le)
            rw [if_neg h, if_neg h']
            rfl

theorem Gives.length {n : Nat} {found : List UInt8} (h : (bytes n).Gives found) :
    found.length = n := by
  obtain ⟨front, rest, h⟩ := h
  unfold Reader.bytes at h
  rw [takeExactly_eq] at h
  split at h
  · obtain ⟨rfl, -⟩ := Prod.mk.inj (Option.some.inj h)
    rwa [List.length_take, Nat.min_eq_left]
  · cases h

theorem number_lt (bytes : List UInt8) : number bytes < 256 ^ bytes.length := by
  have later (value : Nat) : bytes.foldl (fun value b => value * 256 + b.toNat) value <
      (value + 1) * 256 ^ bytes.length := by
    induction bytes generalizing value with
    | nil => simp
    | cons b rest ih =>
        rw [List.foldl_cons, List.length_cons, Nat.pow_succ', ← Nat.mul_assoc]
        have small : b.toNat < 256 := b.toNat_lt
        have le : value * 256 + b.toNat + 1 ≤ (value + 1) * 256 := by omega
        exact (ih _).trans_le (Nat.mul_le_mul_right _ le)
  simpa [number] using later 0

theorem gives_of_bind {r : Reader α} {k : α → Reader β} {b : β} (h : (r >>= k).Gives b) :
    ∃ a, r.Gives a ∧ (k a).Gives b := by
  obtain ⟨bytes, rest, h⟩ := h
  obtain ⟨⟨a, between⟩, hr, hk⟩ := Option.bind_eq_some_iff.mp h
  exact ⟨a, ⟨bytes, between, hr⟩, between, rest, hk⟩

theorem gives_of_pure {a b : α} (h : (pure a : Reader α).Gives b) : b = a := by
  obtain ⟨bytes, rest, h⟩ := h
  exact (Prod.mk.inj (Option.some.inj h)).1.symm

theorem not_gives_failure {a : α} : ¬ (failure : Reader α).Gives a := by
  rintro ⟨bytes, rest, h⟩
  cases h

theorem lt_of_gives_number {width n : Nat}
    (h : (return number (← bytes width) : Reader Nat).Gives n) : n < 256 ^ width := by
  obtain ⟨found, taken, last⟩ := gives_of_bind h
  rw [gives_of_pure last, ← taken.length]
  exact number_lt found

theorem lt_of_gives_u16 {n : Nat} (h : u16.Gives n) : n < 2 ^ 16 := lt_of_gives_number h

theorem lt_of_gives_u32 {n : Nat} (h : u32.Gives n) : n < 2 ^ 32 := lt_of_gives_number h

/-! ## Looking up and reading -/

/-- A look-up needs no bytes, so it can wait until others have been read. -/
theorem ofOption_comm (o : Option α) (r : Reader β) (k : α → β → Reader γ) :
    (ofOption o >>= fun a => r >>= fun b => k a b) =
      r >>= fun b => ofOption o >>= fun a => k a b := by
  funext bytes
  cases o with
  | none =>
      change none = (r bytes).bind fun _ => none
      rw [Option.bind_fun_none]
  | some a => rfl

theorem ofOption_bind (o : Option α) (f : α → Option β) :
    ofOption (o.bind f) = ofOption o >>= fun a => ofOption (f a) := by
  cases o <;> rfl

theorem ofOption_map (o : Option α) (f : α → β) :
    ofOption (o.map f) = ofOption o >>= fun a => pure (f a) := by
  cases o <;> rfl

theorem ofOption_some (a : α) : ofOption (some a) = pure a := rfl

/-- Items that are looked up one by one can be read first and looked up together. -/
theorem times_ofOption (item : Reader α) (f : α → Option β) (n : Nat) :
    times (item >>= fun a => ofOption (f a)) n =
      times item n >>= fun items => ofOption (items.mapM f) := by
  induction n with
  | zero => rfl
  | succ n ih =>
      have together (a : α) (items : List α) :
          (ofOption (f a) >>= fun b => ofOption (items.mapM f) >>= fun bs => pure (b :: bs)) =
            ofOption ((a :: items).mapM f) := by
        rw [List.mapM_cons]
        change _ = ofOption ((f a).bind fun b => (items.mapM f).bind fun bs => some (b :: bs))
        simp only [ofOption_bind, ofOption_some]
      simp only [times, ih, bind_assoc, pure_bind, ofOption_comm _ (times item n), together]

theorem counted_ofOption (item : Reader α) (f : α → Option β) :
    counted (item >>= fun a => ofOption (f a)) =
      counted item >>= fun items => ofOption (items.mapM f) := by
  simp only [counted, times_ofOption, bind_assoc]

end Reader

/-! ## Cursors that follow readers -/

/-- From every place a cursor gives without a fault what a reader takes from the bytes that are
left, and ends at the place behind it. -/
def Follows (c : Cursor α) (r : Reader α) : Prop :=
  ∀ (bytes : List UInt8) (start : Nat), bytes.length < 2 ^ 63 → start ≤ bytes.length →
    ∃ o : Option (α × Nat), c bytes start = .ofOption o ∧
      r (bytes.drop start) = o.map (fun found => (found.1, bytes.drop found.2)) ∧
      ∀ found ∈ o, found.2 ≤ bytes.length

namespace Follows

variable {c : Cursor α} {r : Reader α}

protected theorem pure (a : α) : Follows (pure a) (pure a) := fun _ start _ inside =>
  ⟨some (a, start), rfl, rfl, fun _ same => Option.some.inj same ▸ inside⟩

theorem failure : Follows (Cursor.guarded (.ofOption none)) (failure : Reader α) := fun _ _ _ _ =>
  ⟨none, rfl, rfl, nofun⟩

protected theorem bind {f : α → Cursor β} {g : α → Reader β} (h : Follows c r)
    (later : ∀ a, r.Gives a → Follows (f a) (g a)) : Follows (c >>= f) (r >>= g) := by
  intro bytes start few inside
  obtain ⟨o, hc, hr, ho⟩ := h bytes start few inside
  change ∃ o', (c bytes start >>= fun found => f found.1 bytes found.2) = _ ∧
    ((r (bytes.drop start)).bind fun found => g found.1 found.2) = _ ∧ _
  rw [hc, hr]
  cases o with
  | none => exact ⟨none, rfl, rfl, nofun⟩
  | some found => exact later found.1 ⟨_, _, hr⟩ bytes found.2 few (ho found rfl)

/-- A computation without faults is a look-up. -/
theorem guarded {x : Guarded α} {o : Option α} (h : x = .ofOption o) :
    Follows (Cursor.guarded x) (Reader.ofOption o) := by
  intro bytes start _ inside
  refine ⟨o.map fun a => (a, start), ?_, ?_, ?_⟩
  · rw [Cursor.guarded, h, Guarded.map_ofOption]
  · rw [Reader.ofOption, Option.map_map]
    rfl
  · rintro found hm
    obtain ⟨a, -, rfl⟩ := Option.map_eq_some_iff.mp hm
    exact inside

/-- A look-up goes on with what is found, in the form in which the cursor has it. -/
theorem look {o : Option α} {f : α → γ} {x : Guarded γ} (h : x = .ofOption (o.map f))
    {k : γ → Cursor β} {g : α → Reader β} (later : ∀ a, o = some a → Follows (k (f a)) (g a)) :
    Follows (Cursor.guarded x >>= k) (Reader.ofOption o >>= g) := by
  cases o with
  | none => exact h ▸ fun _ _ _ _ => ⟨none, rfl, rfl, nofun⟩
  | some a =>
      have same : Cursor.guarded x >>= k = k (f a) := by
        rw [h]
        rfl
      rw [same]
      exact later a rfl

theorem lookUp {o : Option α} {k : α → Cursor β} {g : α → Reader β}
    (later : ∀ a, o = some a → Follows (k a) (g a)) :
    Follows (Cursor.guarded (.ofOption o) >>= k) (Reader.ofOption o >>= g) :=
  look (f := id) (by rw [Option.map_id_fun, id]) later

/-- A computation that gives a value gives it before anything is read. -/
theorem skip {x : Guarded α} {a : α} (h : x = pure a) {f : α → Cursor β} {g : Reader β}
    (later : Follows (f a) g) : Follows (Cursor.guarded x >>= f) g := by
  have same : Cursor.guarded x >>= f = f a := by
    rw [h]
    rfl
  rwa [same]

theorem take {n : Nat} (small : n < 2 ^ 32) : Follows (Cursor.take n) (Reader.bytes n) := by
  intro bytes start few inside
  have sum : Guarded.plus start n = pure (start + n) := Guarded.plus_eq (by omega)
  unfold Cursor.take Reader.bytes
  rw [Reader.takeExactly_eq, List.length_drop, sum, pure_bind]
  by_cases h : n ≤ bytes.length - start
  · have there : start + n ≤ bytes.length := by omega
    refine ⟨some ((bytes.drop start).take n, start + n), ?_, ?_, ?_⟩
    · rw [Guarded.between?_eq (Nat.le_add_right start n) there, Nat.add_sub_cancel_left]
      rfl
    · rw [if_pos h, List.drop_drop]
      rfl
    · rintro found hm
      rw [← Option.some.inj hm]
      exact there
  · have beyond : ¬ (start ≤ start + n ∧ start + n ≤ bytes.length) := by omega
    refine ⟨none, ?_, if_neg h, nofun⟩
    rw [Guarded.between?, if_neg beyond]
    rfl

theorem byte : Follows Cursor.byte Reader.byte := by
  have same : Reader.byte = Reader.bytes 1 >>= fun found => Reader.ofOption found[0]? := by
    funext bytes
    cases bytes <;> rfl
  rw [same]
  refine (take (by decide)).bind fun found taken => ?_
  have one : found.length = 1 := taken.length
  obtain ⟨b, rfl⟩ := List.length_eq_one_iff.mp one
  exact guarded (Guarded.item_eq rfl)

theorem number {width : Nat} (small : width < 2 ^ 32) :
    Follows (Cursor.number width) (return Reader.number (← Reader.bytes width)) := by
  refine (take small).bind fun found taken => ?_
  rw [if_pos taken.length]
  exact guarded rfl

theorem u16 : Follows Cursor.u16 Reader.u16 := number (by decide)

theorem u32 : Follows Cursor.u32 Reader.u32 := number (by decide)

theorem times (h : Follows c r) (n : Nat) : Follows (c.times n) (r.times n) := by
  induction n with
  | zero => exact Follows.pure []
  | succ n ih => exact h.bind fun a _ => ih.bind fun _ _ => Follows.pure _

theorem counted (h : Follows c r) : Follows c.counted r.counted :=
  u16.bind fun n _ => h.times n

/-- A loop follows a reader that each of its steps begins, when a step that does not end the loop
lowers the measure. -/
theorem loop {σ : Type} {measure : σ → Nat} {step : σ → Cursor (σ ⊕ β)} {whole : σ → Reader β}
    {part : σ → Reader (σ ⊕ β)} (each : ∀ s, Follows (step s) (part s))
    (less : ∀ s next, (part s).Gives (.inl next) → measure next < measure s)
    (begins : ∀ s, whole s = part s >>= Sum.elim whole pure) (s : σ) :
    Follows (Cursor.loop measure step s) (whole s) := by
  induction hm : measure s using Nat.strongRecOn generalizing s with
  | ind bound ih =>
      subst hm
      rw [begins, Cursor.loop, Guarded.loopOr]
      refine (each s).bind fun end_or_next given => ?_
      cases end_or_next with
      | inr b => exact Follows.pure b
      | inl next =>
          have smaller := less s next given
          dsimp only
          rw [if_pos smaller]
          exact ih _ smaller next rfl

end Follows

end ClassUniverse.ClassFile
