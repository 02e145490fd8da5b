/-!
# Dense numbering

Elements get the numbers 1, 2, 3, … in the order in which they come.  A number is given once: the
element that is removed leaves an empty place, and gets a new number when it comes again.
-/

namespace ClassUniverse

/-- A numbering whose place `i` holds the element of number `i + 1`, or nothing when that element
has been removed.  The natural numbers stand for numbers of 32 bits, which hold them as long as
there are fewer than 2³² places. -/
structure DenseNumbering (α : Type) where
  places : Array (Option α)

namespace DenseNumbering

variable {α : Type}

def empty : DenseNumbering α := ⟨#[]⟩

instance : Inhabited (DenseNumbering α) := ⟨empty⟩

def get? (n : DenseNumbering α) (id : Nat) : Option α :=
  if id = 0 then none else (n.places[id - 1]?).join

def highest (n : DenseNumbering α) : Nat := n.places.size

/-- The numbers in use with their elements, in ascending order. -/
def toList (n : DenseNumbering α) : List (Nat × α) :=
  (n.places.toList.zipIdx 1).filterMap fun (place, id) => place.map fun a => (id, a)

def size (n : DenseNumbering α) : Nat := n.toList.length

variable [DecidableEq α]

def idOf? (n : DenseNumbering α) (a : α) : Option Nat :=
  (n.places.findIdx? (· == some a)).map (· + 1)

/-- The number of an element, a new one if it has none, and the numbering after that. -/
def add (n : DenseNumbering α) (a : α) : Nat × DenseNumbering α :=
  match n.idOf? a with
  | some id => (id, n)
  | none => (n.places.size + 1, ⟨n.places.push (some a)⟩)

/-- The numbering without an element, or nothing when the element has no number. -/
def remove? (n : DenseNumbering α) (a : α) : Option (DenseNumbering α) :=
  (n.idOf? a).map fun id => ⟨n.places.set! (id - 1) none⟩

def ofList (elements : List α) : DenseNumbering α :=
  elements.foldl (fun n a => (n.add a).2) empty

end DenseNumbering

end ClassUniverse
