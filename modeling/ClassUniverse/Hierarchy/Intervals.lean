import ClassUniverse.Hierarchy.Tree

/-!
# Subtypes by intervals

The classes that are no interfaces form a forest.  A walk over it gives each class the interval of
steps that the walk spends at or below it, so that one class is at or below another when its
interval begins inside the other one.  For interfaces the set of all interfaces above a class is
kept.
-/

namespace ClassUniverse

/-- The steps at which a walk enters and leaves a class. -/
structure Interval where
  enter : Nat
  leave : Nat
  deriving DecidableEq, Repr

/-- The interval of each class, the names of all interfaces above each class, and the names of the
interfaces. -/
structure SubtypeIndex where
  intervals : List (String × Interval)
  closure : OrderedMap (List String)
  interfaces : List String

namespace SubtypeIndex

/-- Walks over a class and what is below it from a given step: the intervals, and the next step.
A walk goes no deeper than there are classes. -/
def walk (children : String → List String) :
    (depth : Nat) → (name : String) → (step : Nat) → List (String × Interval) × Nat
  | 0, _, step => ([], step)
  | depth + 1, name, step =>
      let (below, step') := (children name).foldl (fun (found, step) child =>
        let (more, step) := walk children depth child step
        (found ++ more, step)) ([], step + 1)
      ((name, ⟨step, step'⟩) :: below, step' + 1)

def registeredParent? (u : Universe) (id : ClassId) : Option String :=
  ((u.catalog.superclass? id).map u.catalog.nameOf).filter u.registry.contains

def interfacesAbove (u : Universe) (id : ClassId) : List String :=
  let c := u.catalog
  let start := (c.ancestry id).flatMap c.interfaces
  (Search.reach c.nameOf c.interfaces c.records.size start).map c.nameOf

def build (u : Universe) : Except Error SubtypeIndex := do
  u.checkLinked
  let ids := u.registry.ids
  let isInterface (id : ClassId) := (u.record id).modifiers.isInterface
  let classes := ids.filter fun id => !isInterface id
  let pairs := classes.flatMap fun id =>
    (registeredParent? u id).toList.map fun parent => (parent, u.catalog.nameOf id)
  let roots := (classes.filter fun id => (registeredParent? u id).isNone).map u.catalog.nameOf
  let (intervals, _) := roots.foldl (fun (found, step) root =>
    let (more, step) := walk (Hierarchy.partners pairs) ids.length root step
    (found ++ more, step)) ([], 0)
  return {
    intervals := intervals
    closure := .ofList (ids.map fun id => (u.catalog.nameOf id, interfacesAbove u id))
    interfaces := (ids.filter isInterface).map u.catalog.nameOf }

/-- Whether a class is another one or a subclass of it; interfaces have no interval. -/
def isSubclassOrSame (x : SubtypeIndex) (child parent : String) : Bool :=
  match x.intervals.lookup child, x.intervals.lookup parent with
  | some c, some p => p.enter ≤ c.enter && c.enter ≤ p.leave
  | _, _ => false

/-- Whether a value of a type can be kept in a variable of another. -/
def canStore (x : SubtypeIndex) (child parent : String) : Bool :=
  if child = parent then true
  else if x.interfaces.contains parent then
    ((x.closure.get? child).getD []).contains parent
  else x.isSubclassOrSame child parent

end SubtypeIndex

end ClassUniverse
