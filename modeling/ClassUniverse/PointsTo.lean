import ClassUniverse.Entity
import ClassUniverse.OrderedMap

/-!
# Points-to sets

What a variable may point to: the types of the objects, or anything at all.
-/

namespace ClassUniverse

/-- The objects that a variable may point to; types stand in ascending order, each once. -/
inductive PointsToSet
  | everything
  | types (names : List String)
  deriving DecidableEq, Repr

namespace PointsToSet

def ofTypes (names : List String) : PointsToSet :=
  types ((firstOccurrences names).mergeSort fun a b => decide (a ≤ b))

/-- Whether an object may be in both sets; the set of no types holds none. -/
def meets : PointsToSet → PointsToSet → Bool
  | everything, everything => true
  | everything, types names => !names.isEmpty
  | types names, everything => !names.isEmpty
  | types a, types b => a.any fun name => b.contains name

end PointsToSet

abbrev PointsTo := LocalVariable → PointsToSet

def PointsTo.unknown : PointsTo := fun _ => PointsToSet.everything

def PointsTo.mayAlias (p : PointsTo) (a b : LocalVariable) : Bool := (p a).meets (p b)

end ClassUniverse
