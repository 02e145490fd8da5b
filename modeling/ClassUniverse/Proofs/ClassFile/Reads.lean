import ClassUniverse.ClassFile.Bytes
import Mathlib.Algebra.Order.Ring.Nat

/-!
# What a reader takes

A reader reads a value from some bytes when it takes just these, whatever follows them, and gives
the value.  Readers in sequence read bytes in sequence.
-/

namespace ClassUniverse.ClassFile

/-- The bytes of a number, the most significant first. -/
def bigEndian : Nat → Nat → List UInt8
  | 0, _ => []
  | width + 1, n => bigEndian width (n / 256) ++ [UInt8.ofNat (n % 256)]

theorem length_bigEndian (width n : Nat) : (bigEndian width n).length = width := by
  induction width generalizing n with
  | zero => rfl
  | succ width ih => simp [bigEndian, ih]

theorem number_bigEndian {width n : Nat} (h : n < 256 ^ width) :
    Reader.number (bigEndian width n) = n := by
  induction width generalizing n with
  | zero =>
      have hn : n = 0 := by simpa using h
      simp [bigEndian, Reader.number, hn]
  | succ width ih =>
      have hhigh : n / 256 < 256 ^ width := by
        rw [Nat.div_lt_iff_lt_mul (by decide), ← Nat.pow_succ]
        exact h
      have hlow : n % 256 < 256 := Nat.mod_lt n (by decide)
      have hrec : (bigEndian width (n / 256)).foldl (fun value b => value * 256 + b.toNat) 0 =
          n / 256 := ih hhigh
      simp only [bigEndian, Reader.number, List.foldl_append, hrec, List.foldl_cons,
        List.foldl_nil, UInt8.toNat_ofNat', Nat.mod_eq_of_lt hlow]
      omega

variable {α β : Type}

/-- The reader takes these bytes, no more and no less, and gives this value. -/
def Reads (r : Reader α) (taken : List UInt8) (a : α) : Prop :=
  ∀ rest, r.run (taken ++ rest) = some (a, rest)

namespace Reads

variable {r : Reader α} {a : α} {front back : List UInt8}

theorem run (h : Reads r front a) : r.run front = some (a, []) := by
  simpa using h []

protected theorem pure (a : α) : Reads (pure a) [] a := fun _ => rfl

protected theorem bind {k : α → Reader β} {b : β} (hr : Reads r front a)
    (hk : Reads (k a) back b) : Reads (r >>= k) (front ++ back) b := by
  intro rest
  rw [StateT.run_bind, List.append_assoc, hr]
  exact hk rest

theorem bind_pure {f : α → β} (hr : Reads r front a) :
    Reads (r >>= fun x => pure (f x)) front (f a) := by
  have hall := hr.bind (k := fun x => pure (f x)) (Reads.pure (f a))
  rwa [List.append_nil] at hall

theorem byte (b : UInt8) : Reads Reader.byte [b] b := fun _ => rfl

theorem takeExactly_append (taken rest : List UInt8) :
    takeExactly taken.length (taken ++ rest) = some (taken, rest) := by
  induction taken with
  | nil => rfl
  | cons b taken ih => simp [takeExactly, ih]

theorem bytes (taken : List UInt8) : Reads (Reader.bytes taken.length) taken taken :=
  takeExactly_append taken

theorem bytes_bigEndian (width n : Nat) :
    Reads (Reader.bytes width) (bigEndian width n) (bigEndian width n) := by
  simpa only [length_bigEndian] using bytes (bigEndian width n)

theorem number {width n : Nat} (h : n < 256 ^ width) :
    Reads (return Reader.number (← Reader.bytes width)) (bigEndian width n) n := by
  have hread := (bytes_bigEndian width n).bind_pure (f := Reader.number)
  rwa [number_bigEndian h] at hread

theorem u16 {n : Nat} (h : n < 2 ^ 16) : Reads Reader.u16 (bigEndian 2 n) n := number h

theorem u32 {n : Nat} (h : n < 2 ^ 32) : Reads Reader.u32 (bigEndian 4 n) n := number h

variable {ι : Type} {item : Reader α} {code : ι → List UInt8} {value : ι → α} {xs : List ι}

theorem times (h : ∀ x ∈ xs, Reads item (code x) (value x)) :
    Reads (Reader.times item xs.length) (xs.flatMap code) (xs.map value) := by
  induction xs with
  | nil => exact Reads.pure []
  | cons x xs ih =>
      have hx : Reads item (code x) (value x) := h x List.mem_cons_self
      have hxs := ih fun y hy => h y (List.mem_cons_of_mem x hy)
      exact hx.bind hxs.bind_pure

/-- A list behind its length in two bytes. -/
theorem counted (hlength : xs.length < 2 ^ 16) (h : ∀ x ∈ xs, Reads item (code x) (value x)) :
    Reads (Reader.counted item) (bigEndian 2 xs.length ++ xs.flatMap code) (xs.map value) :=
  (u16 hlength).bind (times h)

end Reads

end ClassUniverse.ClassFile
