import ClassUniverse.Catalog
import ClassUniverse.OrderedMap

/-!
# The registry

Which descriptor stands for which name, and which partition each name belongs to.  Every class that
comes or goes counts as a change.
-/

namespace ClassUniverse

/-- The registered classes in the order in which they came, the names in each partition in the order
in which they were put there, and the number of changes.  The natural number stands for a counter of
64 bits: a run of fewer than 2⁶⁴ changes does not exceed it. -/
structure Registry where
  classes : OrderedMap ClassId
  application : List String
  library : List String
  phantom : List String
  changes : Nat

namespace Registry

def empty : Registry := ⟨.empty, [], [], [], 0⟩

instance : Inhabited Registry := ⟨empty⟩

def get? (r : Registry) (name : String) : Option ClassId := r.classes.get? name

def contains (r : Registry) (name : String) : Bool := r.classes.contains name

/-- The registered descriptors in the order in which they came. -/
def ids (r : Registry) : List ClassId := r.classes.values

def size (r : Registry) : Nat := r.classes.size

def namesIn (r : Registry) : Partition → List String
  | .application => r.application
  | .library => r.library
  | .phantom => r.phantom

def idsIn (r : Registry) (p : Partition) : List ClassId := (r.namesIn p).filterMap r.get?

def partitionOf? (r : Registry) (name : String) : Option Partition :=
  [Partition.application, .library, .phantom].find? fun p => (r.namesIn p).contains name

def put (r : Registry) (name : String) : Partition → Registry
  | .application => { r with application := appendNew r.application name }
  | .library => { r with library := appendNew r.library name }
  | .phantom => { r with phantom := appendNew r.phantom name }

def takeOut (r : Registry) (name : String) : Registry :=
  { r with
    application := r.application.filter (· != name)
    library := r.library.filter (· != name)
    phantom := r.phantom.filter (· != name) }

def insert (r : Registry) (name : String) (id : ClassId) (p : Partition) : Registry :=
  let r := r.put name p
  { r with classes := r.classes.insert name id, changes := r.changes + 1 }

def erase (r : Registry) (name : String) : Registry :=
  let r := r.takeOut name
  { r with classes := r.classes.erase name, changes := r.changes + 1 }

/-- Whether every registered name is in exactly one partition and no other name is in any. -/
def isConsistent (r : Registry) : Bool :=
  r.application.length + r.library.length + r.phantom.length == r.size &&
    r.classes.keys.all fun name =>
      ([Partition.application, .library, .phantom].countP fun p => (r.namesIn p).contains name) == 1

end Registry

end ClassUniverse
