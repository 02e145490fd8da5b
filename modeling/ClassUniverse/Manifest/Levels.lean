/-!
# The API levels of a manifest

The levels that an application asks for, and the one to analyze it with.
-/

namespace ClassUniverse

/-- The API levels that a manifest names. -/
structure ManifestLevels where
  target : Option UInt32 := none
  minimum : Option UInt32 := none
  build : Option UInt32 := none
  deriving DecidableEq, Repr, Inhabited

namespace ManifestLevels

/-- The minimum level, when it is installed: at most the highest level. -/
def usableMinimum (m : ManifestLevels) (highest : Option UInt32) : Option UInt32 :=
  match m.minimum, highest with
  | some least, some top => if least ≤ top then some least else none
  | _, _ => none

/-- A wanted level, or the usable minimum when the wanted level is above the highest installed. -/
def settle (m : ManifestLevels) (highest : Option UInt32) (wanted : UInt32) : UInt32 :=
  match highest, m.usableMinimum highest with
  | some top, some least => if top < wanted then least else wanted
  | _, _ => wanted

/-- The level that a manifest asks for: its target, else the level it was built with, each settled
against the highest installed level, else its minimum. -/
def preferred (m : ManifestLevels) (highest : Option UInt32) : Option UInt32 :=
  match m.target, m.build with
  | some wanted, _ => some (m.settle highest wanted)
  | none, some wanted => some (m.settle highest wanted)
  | none, none => m.minimum

end ManifestLevels

end ClassUniverse
