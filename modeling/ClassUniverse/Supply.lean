import ClassUniverse.Definition
import ClassUniverse.Error

/-!
# Supplies of definitions

A supply answers at one moment what a class looks like and which classes are to be found where.
-/

namespace ClassUniverse

/-- The answers of a source of classes: the definition of a name, the classes under a location, the
classes of a package, and how many names can have a definition. -/
structure Supply where
  lookup : String → Except Error (Option ClassDefinition)
  classesUnder : String → Except Error (List String)
  classesIn : String → List String
  size : Nat

/-- Definitions kept in memory, each under its own name, and the names kept under each location. -/
structure MemorySource where
  definitions : OrderedMap ClassDefinition
  locations : List (String × String)
  named : ∀ name d, definitions.get? name = some d → d.name = name

namespace MemorySource

def empty : MemorySource := ⟨.empty, [], by simp⟩

/-- Adds a definition in the place of one of the same name. -/
def add (s : MemorySource) (d : ClassDefinition) : MemorySource where
  definitions := s.definitions.insert d.name d
  locations := s.locations
  named name found h := by
    rw [OrderedMap.get?_insert] at h
    split at h
    · cases h; exact Eq.symm ‹_›
    · exact s.named name found h

/-- Adds a definition that is to be found under a location. -/
def addAt (s : MemorySource) (location : String) (d : ClassDefinition) : MemorySource :=
  { s.add d with locations := s.locations ++ [(location, d.name)] }

def classesIn (s : MemorySource) (package : String) : List String :=
  (s.definitions.keys.filter fun name => Text.beforeLastDot? name == some package).mergeSort
    fun a b => decide (a ≤ b)

def supply (s : MemorySource) : Supply where
  lookup name := .ok (s.definitions.get? name)
  classesUnder location :=
    .ok ((s.locations.filter fun place => place.1 == location).map Prod.snd)
  classesIn := s.classesIn
  size := s.definitions.size

end MemorySource

end ClassUniverse
