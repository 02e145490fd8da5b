import ClassUniverse.CallGraph.Reachable
import ClassUniverse.Hierarchy.Intervals
import ClassUniverse.PointsTo

/-!
# Workspaces

A workspace is a universe together with what has been computed from it.  A hierarchy, a subtype
index, a points-to analysis and a side-effect analysis are valid for the number of changes at which
they were stored; one that is out of date is dropped when it is asked for.

Descriptors exist as long as somebody holds them.  The registry and a stored hierarchy do, and
whoever uses the workspace from outside may.
-/

namespace ClassUniverse

/-- The number of a call graph of a workspace. -/
structure GraphId where
  serial : Nat
  deriving DecidableEq, Repr, Inhabited

/-- What a method may call and what its variables may point to: a points-to analysis and the call
graph that it goes with. -/
structure SideEffects where
  pointsTo : PointsTo
  graph : GraphId

/-- Something computed, the number of changes at which it was stored, and a number of its own. -/
structure Stamped (α : Type) where
  changes : Nat
  serial : Nat
  value : α

/-- Who holds descriptors and members from outside of a workspace. -/
inductive Holders
  | everything
  | these (classes : List ClassId) (members : List Nat)
  deriving DecidableEq, Repr, Inhabited

/-- A universe and what has been computed from it. -/
structure Workspace where
  core : Universe
  stamps : Nat
  hierarchy : Option (Stamped Hierarchy)
  subtypes : Option (Stamped SubtypeIndex)
  pointsTo : Option (Stamped PointsTo)
  sideEffects : Option (Stamped SideEffects)
  graphs : Array CallGraph
  callGraph : Option GraphId
  reachable : Option Reachable
  entryPoints : Option (List Method)
  holders : Holders

abbrev WorkspaceAction := EStateM Error Workspace

namespace Workspace

def ofUniverse (u : Universe) : Workspace where
  core := u
  stamps := 0
  hierarchy := none
  subtypes := none
  pointsTo := none
  sideEffects := none
  graphs := #[]
  callGraph := none
  reachable := none
  entryPoints := none
  holders := .everything

instance : Inhabited Workspace := ⟨ofUniverse default⟩

def changes (w : Workspace) : Nat := w.core.registry.changes

def graph (w : Workspace) (id : GraphId) : CallGraph := (w.graphs[id.serial]?).getD default

def heldClasses (w : Workspace) : List ClassId :=
  w.core.registry.ids ++ ((w.hierarchy.map fun h => h.value.classes.values).getD [])

/-- The serial numbers of the members that are held by existing descriptors and inside of the
workspace. -/
def heldMembers (w : Workspace) (classes : List ClassId) : List Nat :=
  let records := classes.map w.core.record
  let ofClasses := records.flatMap fun r => r.fields.map (·.serial) ++ r.methods.map (·.serial)
  let ofGraphs :=
    w.graphs.toList.flatMap fun g => g.edges.flatMap fun e => [e.source.serial, e.target.serial]
  let ofSets := (w.reachable.map Reachable.methods).getD [] ++ w.entryPoints.getD []
  ofClasses ++ ofGraphs ++ ofSets.map (·.serial)

/-- Lets go of the descriptors and members that nobody holds. -/
def letGo (w : Workspace) : Workspace :=
  match w.holders with
  | .everything => w
  | .these classes members =>
      let c := w.core.catalog
      let kept := c.ids.filter fun id => (w.heldClasses ++ classes).contains id && c.isLive id
      let keptMembers := w.heldMembers kept ++ members
      let catalog := { c with
        released := c.ids.filter fun id => !kept.contains id
        releasedMembers := (List.range c.membersMade).filter fun m => !keptMembers.contains m }
      { w with core := { w.core with catalog := catalog } }

def onUniverse {α : Type} (action : Action α) : WorkspaceAction α := fun w =>
  match action w.core with
  | .ok a u => .ok a { w with core := u }.letGo
  | .error e u => .error e { w with core := u }.letGo

/-- What is stored in a slot, if it is up to date. -/
def current {α : Type} (w : Workspace) (slot : Option (Stamped α)) : Option (Stamped α) :=
  slot.filter fun s => s.changes == w.changes

/-- A value with the stamp of this moment, and the workspace that has given the stamp. -/
def stamp {α : Type} (w : Workspace) (value : α) : Stamped α × Workspace :=
  (⟨w.changes, w.stamps, value⟩, { w with stamps := w.stamps + 1 })

def refreshHierarchy (w : Workspace) : Workspace :=
  { w with hierarchy := w.current w.hierarchy }.letGo

/-- Drops the subtype index when it is out of date. -/
def refreshSubtypes (w : Workspace) : Workspace := { w with subtypes := w.current w.subtypes }

def setHierarchy (w : Workspace) (h : Hierarchy) : Workspace :=
  let (stamped, w) := w.stamp h
  { w with hierarchy := some stamped }.letGo

def setSubtypes (w : Workspace) (x : SubtypeIndex) : Workspace :=
  let (stamped, w) := w.stamp x
  { w with subtypes := some stamped }

def releaseHierarchy (w : Workspace) : Workspace := { w with hierarchy := none }.letGo

def releaseSubtypes (w : Workspace) : Workspace := { w with subtypes := none }

/-- Whether the stored hierarchy is up to date; one that is not is dropped. -/
def hasHierarchy : WorkspaceAction Bool := do
  modify refreshHierarchy
  return (← get).hierarchy.isSome

/-- Whether the stored subtype index is up to date; one that is not is dropped. -/
def hasSubtypes : WorkspaceAction Bool := do
  modify refreshSubtypes
  return (← get).subtypes.isSome

/-- The hierarchy, built anew when the stored one is out of date. -/
def getHierarchy : WorkspaceAction (Stamped Hierarchy) := do
  modify refreshHierarchy
  match (← get).hierarchy with
  | some h => return h
  | none =>
      match Hierarchy.build (← get).core with
      | .error e => throw e
      | .ok h =>
          let (stamped, w) := (← get).stamp h
          set { w with hierarchy := some stamped }
          return stamped

/-- The subtype index, built anew when the stored one is out of date. -/
def getSubtypes : WorkspaceAction (Stamped SubtypeIndex) := do
  modify refreshSubtypes
  match (← get).subtypes with
  | some x => return x
  | none =>
      match SubtypeIndex.build (← get).core with
      | .error e => throw e
      | .ok x =>
          let (stamped, w) := (← get).stamp x
          set { w with subtypes := some stamped }
          return stamped

/-- Drops the points-to analysis when it is out of date. -/
def refreshPointsTo (w : Workspace) : Workspace := { w with pointsTo := w.current w.pointsTo }

/-- Whether the stored points-to analysis is up to date; one that is not is dropped. -/
def hasPointsTo : WorkspaceAction Bool := do
  modify refreshPointsTo
  return (← get).pointsTo.isSome

/-- The points-to analysis, or the one that knows nothing when none is up to date. -/
def getPointsTo (w : Workspace) : PointsTo :=
  ((w.current w.pointsTo).map Stamped.value).getD PointsTo.unknown

def setPointsTo (w : Workspace) (p : PointsTo) : Workspace :=
  let (stamped, w) := w.stamp p
  { w with pointsTo := some stamped }

def releasePointsTo (w : Workspace) : Workspace := { w with pointsTo := none }

def expectGraph (w : Workspace) : Except Error GraphId :=
  match w.callGraph with
  | some id => .ok id
  | none => .error .noCallGraph

def makeGraph (w : Workspace) (g : CallGraph) : GraphId × Workspace :=
  (⟨w.graphs.size⟩, { w with graphs := w.graphs.push g })

/-- Adds a call to a call graph, and tells whether it is new. -/
def addEdge (w : Workspace) (id : GraphId) (e : Edge) : Bool × Workspace :=
  let (isNew, g) := (w.graph id).add e
  (isNew, { w with graphs := w.graphs.modify id.serial fun _ => g })

/-- Installs a call graph; the reachable methods of the old one are dropped. -/
def setCallGraph (w : Workspace) (id : GraphId) : Workspace :=
  { w with callGraph := some id, reachable := none }

def releaseCallGraph (w : Workspace) : Workspace := { w with callGraph := none, reachable := none }

/-- Drops the side-effect analysis when it is out of date. -/
def refreshSideEffects (w : Workspace) : Workspace :=
  { w with sideEffects := w.current w.sideEffects }

/-- Whether the stored side-effect analysis is up to date; one that is not is dropped. -/
def hasSideEffects : WorkspaceAction Bool := do
  modify refreshSideEffects
  return (← get).sideEffects.isSome

def setSideEffects (w : Workspace) (s : SideEffects) : Workspace :=
  let (stamped, w) := w.stamp s
  { w with sideEffects := some stamped }

def releaseSideEffects (w : Workspace) : Workspace := { w with sideEffects := none }

/-- The side-effect analysis of the points-to analysis and the call graph of this moment. -/
def currentSideEffects : WorkspaceAction SideEffects := do
  modify refreshPointsTo
  match (← get).expectGraph with
  | .error e => throw e
  | .ok graph => return ⟨(← get).getPointsTo, graph⟩

def getSideEffects : WorkspaceAction SideEffects := do
  modify refreshSideEffects
  match (← get).sideEffects with
  | some s => return s.value
  | none =>
      let s ← currentSideEffects
      modify (setSideEffects · s)
      return s

/-- The methods that a method may call, by the call graph of a side-effect analysis. -/
def transitiveCallees (w : Workspace) (s : SideEffects) (m : Method) : List Method :=
  (w.graph s.graph).transitiveCallees m

def reachFrom (entries : List Method) : WorkspaceAction Reachable := do
  match (← get).expectGraph with
  | .error e => throw e
  | .ok id =>
      let w ← get
      let r := (w.reachable.getD .empty).update (w.graph id) entries
      set { w with reachable := some r }
      return r

def setReachable (w : Workspace) (r : Reachable) : Workspace := { w with reachable := some r }

def releaseReachable (w : Workspace) : Workspace := { w with reachable := none }

def entryPointsOr (compute : Universe → List Method) : WorkspaceAction (List Method) := do
  match (← get).entryPoints with
  | some methods => return methods
  | none =>
      let methods := compute (← get).core
      modify fun w => { w with entryPoints := some methods }
      return methods

def setEntryPoints (w : Workspace) (methods : List Method) : Workspace :=
  { w with entryPoints := some methods }

def releaseEntryPoints (w : Workspace) : Workspace := { w with entryPoints := none }

end Workspace

end ClassUniverse
