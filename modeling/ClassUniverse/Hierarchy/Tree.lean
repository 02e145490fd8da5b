import ClassUniverse.Search
import ClassUniverse.Universe

/-!
# The class hierarchy

A hierarchy records which classes were registered and who named whom as a superclass or an interface
when it was built.  Downward questions are answered from this record, upward questions from the
links as they are when the question is asked.
-/

namespace ClassUniverse

namespace Universe

/-- Checks that every class that is no phantom is at `hierarchy` or above. -/
def checkLinked (u : Universe) : Except Error Unit :=
  let isUnlinked (id : ClassId) := !(u.record id).isPhantom && (u.record id).level < .hierarchy
  match u.registry.ids.find? isUnlinked with
  | some id => .error (.unresolvedClass (u.record id).name .hierarchy)
  | none => .ok ()

end Universe

/-- The registered classes by name, and the pairs of a class and a direct subclass, and of an
interface and a class or interface that names it, in order of registration. -/
structure Hierarchy where
  classes : OrderedMap ClassId
  subclasses : List (String × String)
  implementors : List (String × String)

namespace Hierarchy

def build (u : Universe) : Except Error Hierarchy := do
  u.checkLinked
  let ids := u.registry.ids
  return {
    classes := .ofList (ids.map fun id => ((u.record id).name, id))
    subclasses := ids.flatMap fun id =>
      (u.catalog.superclass? id).toList.map fun parent =>
        (u.catalog.nameOf parent, (u.record id).name)
    implementors := ids.flatMap fun id =>
      (u.catalog.interfaces id).map fun i => (u.catalog.nameOf i, (u.record id).name) }

def size (h : Hierarchy) : Nat := h.classes.size

/-- The second names of the pairs that begin with a name. -/
def partners (pairs : List (String × String)) (name : String) : List String :=
  pairs.filterMap fun pair => if pair.1 = name then some pair.2 else none

/-- The classes of some names, as far as they are in the hierarchy. -/
def lookup (h : Hierarchy) (names : List String) : List ClassId := names.filterMap h.classes.get?

def directSubclasses (h : Hierarchy) (name : String) : List ClassId :=
  h.lookup (partners h.subclasses name)

/-- The names of a class and of all classes below it. -/
def namesBelow (h : Hierarchy) (name : String) : List String :=
  Search.reach id (partners h.subclasses) h.subclasses.length [name]

def below (h : Hierarchy) (name : String) : List ClassId := h.lookup (h.namesBelow name)

def above (h : Hierarchy) (c : Catalog) (name : String) : List ClassId :=
  match h.classes.get? name with
  | some id => (c.ancestry id).tail
  | none => []

/-- Whether a name is that of an interface of the hierarchy. -/
def isInterface (h : Hierarchy) (c : Catalog) (name : String) : Bool :=
  match h.classes.get? name with
  | some id => (c.get id).modifiers.isInterface
  | none => false

/-- The names of an interface and of all interfaces below it. -/
def interfacesBelow (h : Hierarchy) (c : Catalog) (name : String) : List String :=
  Search.reach id (fun n => (partners h.implementors n).filter (h.isInterface c))
    h.implementors.length [name]

/-- The names of the classes that name an interface or one below it. -/
def directImplementers (h : Hierarchy) (c : Catalog) (name : String) : List String :=
  let named := (h.interfacesBelow c name).flatMap (partners h.implementors)
  firstOccurrences (named.filter fun n => h.classes.contains n && !h.isInterface c n)

/-- The classes that implement an interface: themselves, through an interface below it, or through a
superclass. -/
def implementers (h : Hierarchy) (c : Catalog) (name : String) : List ClassId :=
  let below := (h.directImplementers c name).flatMap fun n =>
    (h.below n).map c.nameOf
  h.lookup (firstOccurrences below)

def isSubclass (h : Hierarchy) (c : Catalog) (child parent : String) : Bool :=
  (h.above c child).any fun id => c.nameOf id == parent

/-- Whether a class is another one or a subclass of it. -/
def isSubclassOrSame (h : Hierarchy) (c : Catalog) (child parent : String) : Bool :=
  child == parent || h.isSubclass c child parent

end Hierarchy

end ClassUniverse
