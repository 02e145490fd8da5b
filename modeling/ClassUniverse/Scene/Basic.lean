import ClassUniverse.ClassIndex
import ClassUniverse.EntryPoints
import ClassUniverse.Scene.BasicClasses
import ClassUniverse.Scene.PackagePattern
import ClassUniverse.Workspace

/-!
# Scenes

A scene is one analysis: its options and its source of classes, the workspace, and what has been
settled about its class path, its dynamic classes, its main class and its entry points.
-/

namespace ClassUniverse

/-- Where the definitions of a scene come from: memory, a class path, or something else that answers
by what files there are. -/
inductive ClassSource
  | memory (s : MemorySource)
  | path (s : PathSource)
  | other (answers : FileTree → Supply)

namespace ClassSource

def supply (t : FileTree) : ClassSource → Supply
  | memory s => s.supply
  | path s => s.supply t
  | other answers => answers t

/-- A source after it has been asked for a name. -/
def asked (t : FileTree) : ClassSource → ClassSource
  | memory s => memory s
  | path s => path (s.indexed t)
  | other answers => other answers

/-- Being asked makes no difference to what a source answers at that moment. -/
theorem supply_asked (t : FileTree) (source : ClassSource) :
    (source.asked t).supply t = source.supply t := by
  cases source with
  | memory | other => rfl
  | path s => rfl

end ClassSource

/-- One analysis. -/
structure Scene where
  options : Options
  source : ClassSource
  workspace : Workspace
  classPath : ClassPathState
  basic : OrderedMap Level
  excluded : List String
  dynamic : List ClassId
  main : Option ClassId
  rule : EntryPointRule
  isIncremental : Bool

abbrev SceneAction := EStateM Error Scene

namespace Scene

/-- The patterns of the packages that hold no application classes. -/
def excludedPackages (o : Options) : List String :=
  let usual := if o.includeAll || o.precedence == .apk then [] else PackagePattern.runtimePackages
  usual ++ o.excluded

/-- A scene of some options over a source of classes. -/
def ofSource (o : Options) (source : ClassSource) : Scene where
  options := o
  source := source
  workspace := .ofUniverse (.empty o.recycleNumbers o.allowPhantoms)
  classPath := .ofOptions o
  basic := BasicClasses.table
  excluded := excludedPackages o
  dynamic := []
  main := none
  rule := .standard
  isIncremental := false

/-- A scene of some options over their effective class path. -/
def ofClassPath (env : Surroundings) (o : Options) : Except Error Scene :=
  match ClassPathState.effectivePath env (.ofOptions o) with
  | .error e _ => .error e
  | .ok path state =>
      .ok { ofSource o (.path { path := path, javaHome := o.javaHome }) with classPath := state }

def core (s : Scene) : Universe := s.workspace.core

def record (s : Scene) (id : ClassId) : ClassRecord := s.core.record id

def onWorkspace {α : Type} (action : WorkspaceAction α) : SceneAction α := fun s =>
  match action s.workspace with
  | .ok a w => .ok a { s with workspace := w }
  | .error e w => .error e { s with workspace := w }

def changeWorkspace (change : Workspace → Workspace) : SceneAction Unit :=
  modify fun s => { s with workspace := change s.workspace }

def onUniverse {α : Type} (action : Action α) : SceneAction α :=
  onWorkspace (Workspace.onUniverse action)

/-- Runs an operation that may ask the source for definitions. -/
def resolving {α : Type} (env : Surroundings) (action : Supply → Action α) :
    SceneAction α := fun s =>
  let settle (s : Scene) : Scene :=
    if s.core.hasAsked then { s with source := s.source.asked env.files } else s
  match onUniverse (action (s.source.supply env.files)) s with
  | .ok a s => .ok a (settle s)
  | .error e s => .error e (settle s)

def onClassPath {α : Type} (action : ClassPathAction α) : SceneAction α := fun s =>
  match action s.classPath with
  | .ok a p => .ok a { s with classPath := p }
  | .error e p => .error e { s with classPath := p }

/-- Whether a class matches a pattern of classes to analyze in any case. -/
def isIncluded (s : Scene) (name : String) : Bool :=
  s.options.included.any (PackagePattern.covers · name)

/-- Whether a class matches a pattern of excluded packages and none of classes to analyze in any
case. -/
def isExcluded (s : Scene) (name : String) : Bool :=
  s.excluded.any (PackagePattern.covers · name) && !s.isIncluded name

/-- Removes a registered class; the entry points are dropped, and so is the main class if it is the
one removed. -/
def removeClass (id : ClassId) : SceneAction Unit := do
  onUniverse (Universe.removeClass id)
  modify fun s => { s with main := s.main.filter (· != id) }
  changeWorkspace Workspace.releaseEntryPoints

def expectMain (s : Scene) : Except Error ClassId :=
  match s.main with
  | some id => .ok id
  | none => .error (.noMainClass .neverSet)

/-- Sets the main class, which has to declare a main method; the entry points are dropped. -/
def setMain (id : ClassId) : SceneAction Unit := do
  let r := (← get).record id
  if !r.declares EntryPoints.mainMember then
    throw (.noMainClass (.notDeclared r.name EntryPoints.mainMember))
  modify fun s => { s with main := some id }
  changeWorkspace Workspace.releaseEntryPoints

/-- The first class with a main method among those named by the options and the application
classes. -/
def inferredMain (s : Scene) (named : List ClassId) : Option ClassId :=
  (named ++ s.core.registry.idsIn .application).find? fun id =>
    (s.record id).declares EntryPoints.mainMember

/-- Sets the main class by the options, or to the inferred one, unless it is set already. -/
def setMainFromOptions : SceneAction Unit := do
  let s ← get
  if s.main.isSome then return
  match s.options.mainClass.filter fun name => !name.isEmpty with
  | some name => setMain (← onUniverse (Universe.expect name))
  | none =>
      let named ← s.options.classes.mapM fun name => onUniverse (Universe.expect name)
      match s.inferredMain named with
      | some id => setMain id
      | none => pure ()

def setIncremental (on : Bool) : SceneAction Unit := modify fun s => { s with isIncremental := on }

/-- Sets how entry points are found; the stored ones are dropped. -/
def setRule (rule : EntryPointRule) : SceneAction Unit := do
  modify fun s => { s with rule := rule }
  changeWorkspace Workspace.releaseEntryPoints

def entryPoints : SceneAction (List Method) := do
  let s ← get
  onWorkspace (Workspace.entryPointsOr fun u => s.rule.methods u s.main)

def reachableMethods : SceneAction Reachable := do
  let entries ← entryPoints
  onWorkspace (Workspace.reachFrom entries)

end Scene

end ClassUniverse
