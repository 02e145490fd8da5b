/-!
# Levels and partitions

How much of a class has been loaded, and which share of the universe it belongs to.
-/

namespace ClassUniverse

/-- How much structural detail of a class has been loaded, least first. -/
inductive Level
  | dangling
  | hierarchy
  | signatures
  | bodies
  deriving DecidableEq, Repr, Inhabited

namespace Level

/-- The place of a level in the order, from zero. -/
def rank : Level → Nat
  | dangling => 0
  | hierarchy => 1
  | signatures => 2
  | bodies => 3

instance : LE Level := ⟨fun a b => a.rank ≤ b.rank⟩
instance : LT Level := ⟨fun a b => a.rank < b.rank⟩
instance (a b : Level) : Decidable (a ≤ b) := inferInstanceAs (Decidable (a.rank ≤ b.rank))
instance (a b : Level) : Decidable (a < b) := inferInstanceAs (Decidable (a.rank < b.rank))

theorem rank_injective {a b : Level} (h : a.rank = b.rank) : a = b := by
  cases a <;> cases b <;> simp [rank] at h <;> rfl

def max (a b : Level) : Level := if a ≤ b then b else a

def name : Level → String
  | dangling => "Dangling"
  | hierarchy => "Hierarchy"
  | signatures => "Signatures"
  | bodies => "Bodies"

def ofRank? : Nat → Option Level
  | 0 => some dangling
  | 1 => some hierarchy
  | 2 => some signatures
  | 3 => some bodies
  | _ => none

end Level

/-- The share of the universe that a registered class belongs to. -/
inductive Partition
  | application
  | library
  | phantom
  deriving DecidableEq, Repr, Inhabited

def Partition.name : Partition → String
  | application => "Application"
  | library => "Library"
  | phantom => "Phantom"

end ClassUniverse
