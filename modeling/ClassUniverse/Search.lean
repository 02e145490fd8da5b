/-!
# Breadth-first search

A search over things that are told apart by a key.  What has been seen is kept in the order of
discovery; a thing is looked at once, in that order.  The number of steps is bounded by the number
of things that a search can add.
-/

namespace ClassUniverse

namespace Search

variable {α : Type} (key : α → String)

/-- Whether a thing with the same key has been seen. -/
def isSeen (seen : List α) (a : α) : Bool := seen.any fun b => key b == key a

/-- The things of a list whose keys have not been seen, each key once. -/
def unseen (seen : List α) : List α → List α
  | [] => []
  | a :: rest => if isSeen key seen a then unseen seen rest else a :: unseen (seen ++ [a]) rest

/-- What has been seen after looking at the queue and at all that is found on the way, in at most a
number of steps. -/
def explore (next : α → List α) : (steps : Nat) → (seen queue : List α) → List α
  | 0, seen, _ => seen
  | _ + 1, seen, [] => seen
  | steps + 1, seen, a :: queue =>
      let found := unseen key seen (next a)
      explore next steps (seen ++ found) (queue ++ found)

/-- All that is found from some starting things, these included.  A search finds each key of
the things that can be found at most once, so their number, the bound, and that of the starting
things limit its steps. -/
def reach (next : α → List α) (bound : Nat) (start : List α) : List α :=
  let seen := unseen key [] start
  explore key next (start.length + bound) seen seen

end Search

end ClassUniverse
