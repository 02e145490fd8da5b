import Mathlib.Algebra.Order.Ring.Nat

/-!
# Computations that may fault

A program on bytes computes places from what it reads, and takes what stands there.  An access that
nothing has checked faults when its place is not there, a sum or a product faults when it does not
fit in 64 bits, and a loop faults when a step does not bring it nearer to its end.  A computation
without a fault ends with a value or with nothing: it is then known by an `Option`.
-/

namespace ClassUniverse

/-- What can go wrong in a step that nothing has checked before. -/
inductive Fault
  | overflow
  | outOfRange
  | offBoundary
  | stuck
  deriving DecidableEq, Repr

/-- A computation that ends with a value, with nothing, or in a fault. -/
abbrev Guarded (α : Type) := OptionT (Except Fault) α

namespace Guarded

variable {α β γ : Type}

def ofOption (o : Option α) : Guarded α := OptionT.mk (.ok o)

def fault (f : Fault) : Guarded α := OptionT.mk (.error f)

/-- What a computation ends with, as a value also when it ends with nothing. -/
def attempt (x : Guarded α) : Guarded (Option α) := OptionT.lift x.run

theorem pure_eq (a : α) : (pure a : Guarded α) = ofOption (some a) := rfl

@[simp] theorem attempt_ofOption (o : Option α) : attempt (ofOption o) = pure o := rfl

@[simp] theorem some_bind (a : α) (f : α → Guarded β) : ofOption (some a) >>= f = f a := rfl

/-- Without faults the parts of a sequence can be put in sequence as options. -/
theorem bind_eq {o : Option α} {f : α → Guarded β} {g : α → Option β}
    (h : ∀ a, o = some a → f a = ofOption (g a)) : ofOption o >>= f = ofOption (o.bind g) := by
  cases o with
  | none => rfl
  | some a => exact h a rfl

theorem map_ofOption (o : Option α) (f : α → β) :
    (ofOption o >>= fun a => pure (f a)) = ofOption (o.map f) := by
  cases o <;> rfl

/-! ## Numbers of 64 bits -/

def plus (a b : Nat) : Guarded Nat := if a + b < 2 ^ 64 then pure (a + b) else fault .overflow

def times (a b : Nat) : Guarded Nat := if a * b < 2 ^ 64 then pure (a * b) else fault .overflow

def minus (a b : Nat) : Guarded Nat := if b ≤ a then pure (a - b) else fault .overflow

/-- Room for so many bytes of memory. -/
def room (size : Nat) : Guarded Unit := if size < 2 ^ 63 then pure () else fault .overflow

variable {a b : Nat}

theorem plus_eq (h : a + b < 2 ^ 64) : plus a b = pure (a + b) := if_pos h

theorem times_eq (h : a * b < 2 ^ 64) : times a b = pure (a * b) := if_pos h

theorem minus_eq (h : b ≤ a) : minus a b = pure (a - b) := if_pos h

theorem room_eq (h : a < 2 ^ 63) : room a = pure () := if_pos h

/-! ## Items at places -/

/-- The items from one place up to another, when they are all there. -/
def between? (items : List α) (start stop : Nat) : Option (List α) :=
  if start ≤ stop ∧ stop ≤ items.length then some ((items.drop start).take (stop - start)) else none

/-- The items from one place up to another, which have to be there. -/
def between (items : List α) (start stop : Nat) : Guarded (List α) :=
  match between? items start stop with
  | some found => pure found
  | none => fault .outOfRange

/-- The item at a place, which has to be there. -/
def item (items : List α) (place : Nat) : Guarded α :=
  match items[place]? with
  | some found => pure found
  | none => fault .outOfRange

variable {items : List α} {start stop place : Nat}

theorem between?_eq (h : start ≤ stop) (inside : stop ≤ items.length) :
    between? items start stop = some ((items.drop start).take (stop - start)) := if_pos ⟨h, inside⟩

theorem bounds_of_between? {found : List α} (h : between? items start stop = some found) :
    stop ≤ items.length ∧ found.length = stop - start := by
  unfold between? at h
  split at h
  · rename_i inside
    rw [← Option.some.inj h, List.length_take, List.length_drop]
    omega
  · cases h

theorem between_eq (h : start ≤ stop) (inside : stop ≤ items.length) :
    between items start stop = pure ((items.drop start).take (stop - start)) := by
  rw [between, between?_eq h inside]

theorem item_eq {found : α} (h : items[place]? = some found) : item items place = pure found := by
  rw [item, h]

/-! ## Loops -/

section Loops

variable {σ : Type} {m : Type → Type} [Monad m]

/-- Takes steps until one ends the loop; each other step has to lower a measure of the state, or
else the loop is stuck. -/
def loopOr (stuck : m β) (measure : σ → Nat) (step : σ → m (σ ⊕ β)) (s : σ) : m β := do
  match ← step s with
  | .inr b => pure b
  | .inl next =>
      if measure next < measure s then loopOr stuck measure step next else stuck
  termination_by measure s

def loop (measure : σ → Nat) (step : σ → Guarded (σ ⊕ β)) (s : σ) : Guarded β :=
  loopOr (fault .stuck) measure step s

/-- A loop gives a result that every step from a state of an invariant keeps, when such a step
lowers the measure. -/
theorem loop_eq {measure : σ → Nat} {step : σ → Guarded (σ ⊕ β)} (Inv : σ → Prop)
    (result : σ → Option β)
    (each : ∀ s, Inv s → step s = ofOption ((result s).map .inr) ∨
      ∃ next, step s = pure (.inl next) ∧ measure next < measure s ∧ Inv next ∧
        result next = result s)
    {s : σ} (h : Inv s) : loop measure step s = ofOption (result s) := by
  -- The induction is on the measure: a step lowers it or ends the loop.
  induction hm : measure s using Nat.strongRecOn generalizing s with
  | ind bound ih =>
      subst hm
      rw [loop, loopOr]
      obtain last | ⟨next, stepped, less, inv, same⟩ := each s h
      · rw [last]
        cases result s <;> rfl
      · rw [stepped, pure_bind]
        dsimp only
        rw [if_pos less, ← same]
        exact ih _ less inv rfl

end Loops

end Guarded

end ClassUniverse
