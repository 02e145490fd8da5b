/-!
# Recycling numbering

A numbering that does not keep its elements: an element may cease to exist while it has a number,
and its number is then given to another one.  Which elements still exist is told from outside.  A
handle names an element by its number and by how often that number had been vacated, so that it
never leads to a later holder of the number.

The number of an element is found by a search among the places.  `AddressedNumbering` finds it
through an index instead, and `NumberedHeap.agrees_with_search` shows that it finds the same.

Vacated numbers are given again last in, first out.  When none is left, dead elements are swept out
as soon as the number of additions since the last sweep has reached the size of the numbering, and
at least 64.
-/

namespace ClassUniverse

/-- A place of the numbering: its holder, and how often it has been vacated. -/
structure RecyclingPlace (α : Type) where
  holder : Option α
  vacated : Nat

/-- The generation of a place as handles show it, in 32 bits: it comes again after 2³² vacations. -/
def RecyclingPlace.generation {α : Type} (p : RecyclingPlace α) : UInt32 := UInt32.ofNat p.vacated

/-- A number together with the state of its place. -/
structure NumberHandle where
  id : Nat
  generation : UInt32
  deriving DecidableEq, Repr

/-- A numbering whose place `i` belongs to the number `i + 1`.  The free numbers stand in the order
in which they will be given.  The natural numbers stand for numbers of 32 bits, which hold them as
long as there are fewer than 2³² places. -/
structure RecyclingNumbering (α : Type) where
  places : Array (RecyclingPlace α)
  free : List Nat
  addedSinceSweep : Nat

namespace RecyclingNumbering

variable {α : Type}

def empty : RecyclingNumbering α := ⟨#[], [], 0⟩

instance : Inhabited (RecyclingNumbering α) := ⟨empty⟩

def place? (n : RecyclingNumbering α) (id : Nat) : Option (RecyclingPlace α) :=
  if id = 0 then none else n.places[id - 1]?

def liveHolder? (isLive : α → Bool) (p : RecyclingPlace α) : Option α := p.holder.filter isLive

def get? (isLive : α → Bool) (n : RecyclingNumbering α) (id : Nat) : Option α :=
  (n.place? id).bind (liveHolder? isLive)

def size (isLive : α → Bool) (n : RecyclingNumbering α) : Nat :=
  n.places.toList.countP fun p => (liveHolder? isLive p).isSome

def vacate (n : RecyclingNumbering α) (id : Nat) : RecyclingNumbering α :=
  match n.place? id with
  | some ⟨some _, vacated⟩ =>
      { n with places := n.places.set! (id - 1) ⟨none, vacated + 1⟩, free := id :: n.free }
  | _ => n

/-- The numbers whose holders no longer exist, in ascending order. -/
def deadIds (isLive : α → Bool) (n : RecyclingNumbering α) : List Nat :=
  (n.places.toList.zipIdx 1).filterMap fun (p, id) =>
    match p.holder with
    | some a => if isLive a then none else some id
    | none => none

/-- Takes the numbers from all holders that no longer exist. -/
def sweep (isLive : α → Bool) (n : RecyclingNumbering α) : RecyclingNumbering α :=
  { (n.deadIds isLive).foldl vacate n with addedSinceSweep := 0 }

/-- Whether an addition has to sweep first: no number is free and enough has been added. -/
def isSweepDue (n : RecyclingNumbering α) : Bool :=
  n.free.isEmpty && max n.places.size 64 ≤ n.addedSinceSweep

/-- Gives a free number, or a new one, to an element that has none. -/
def settle (n : RecyclingNumbering α) (a : α) : Nat × RecyclingNumbering α :=
  match n.free with
  | id :: free =>
      (id, { n with
        places := n.places.modify (id - 1) fun p => { p with holder := some a }
        free := free })
  | [] => (n.places.size + 1, { n with places := n.places.push ⟨some a, 0⟩ })

variable [DecidableEq α]

def idOf? (n : RecyclingNumbering α) (a : α) : Option Nat :=
  (n.places.findIdx? fun p => p.holder == some a).map (· + 1)

/-- The number of an element, given now if it has none, and the numbering after that. -/
def add (isLive : α → Bool) (n : RecyclingNumbering α) (a : α) : Nat × RecyclingNumbering α :=
  match n.idOf? a with
  | some id => (id, n)
  | none =>
      let counted := { n with addedSinceSweep := n.addedSinceSweep + 1 }
      (if counted.isSweepDue then counted.sweep isLive else counted).settle a

/-- The numbering without an element, or nothing when the element has no number. -/
def remove? (n : RecyclingNumbering α) (a : α) : Option (RecyclingNumbering α) :=
  (n.idOf? a).map n.vacate

def handleOf? (n : RecyclingNumbering α) (a : α) : Option NumberHandle :=
  (n.idOf? a).bind fun id =>
    (n.place? id).map fun p => ⟨id, p.generation⟩

/-- The element that a handle was made for, if it still exists and still has its number. -/
def resolve? (isLive : α → Bool) (n : RecyclingNumbering α) (h : NumberHandle) : Option α :=
  match n.place? h.id with
  | some p => if p.generation = h.generation then liveHolder? isLive p else none
  | none => none

end RecyclingNumbering

end ClassUniverse
