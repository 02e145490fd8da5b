import ClassUniverse.Resolution
import ClassUniverse.Scene.Basic
import ClassUniverse.Scene.ReflectionTrace

/-!
# Loading a scene

A scene is loaded in steps: the basic classes, the classes named by the options, the dynamic classes
and those of the process directories, and then whatever becomes an application class by the rules of
the options.  Loading ends with resolution closed and the main class settled.
-/

namespace ClassUniverse.Scene

/-- Sees to it that a basic class has at least a level. -/
def addBasic (name : String) (level : Level) : SceneAction Unit :=
  modify fun s => { s with basic := BasicClasses.raise s.basic name level }

def clearBasic : SceneAction Unit := modify fun s => { s with basic := .empty }

/-- Adds the classes of the reflection log to the basic classes, with bodies. -/
def addTraceClasses (env : Surroundings) : SceneAction Unit := do
  match (← get).options.reflectionLog with
  | none => pure ()
  | some log =>
      match env.files.readText log with
      | .error problem => throw (.file problem)
      | .ok text =>
          match ReflectionTrace.classes text with
          | .error e => throw e
          | .ok names => names.forM fun name => addBasic name .bodies

/-- Loads the basic classes of one level, and counts those that have a source. -/
def loadBasicAt (env : Surroundings) (basic : List (String × Level)) (level : Level) :
    SceneAction Nat :=
  (basic.filter fun entry => entry.2 == level).foldlM (fun loaded entry => do
    match ← resolving env fun s => Universe.tryLoad s entry.1 level with
    | some id => return if ((← get).record id).isPhantom then loaded else loaded + 1
    | none => return loaded) 0

/-- Loads the basic classes, highest level first, and counts those that have a source; fails when
none has. -/
def loadBasic (env : Surroundings) : SceneAction Nat := do
  addTraceClasses env
  (← get).classPath.runtimeClasses.forM fun name => addBasic name .hierarchy
  let basic := (← get).basic.entries
  let bodies ← loadBasicAt env basic .bodies
  let signatures ← loadBasicAt env basic .signatures
  let hierarchy ← loadBasicAt env basic .hierarchy
  let loaded := bodies + signatures + hierarchy
  if loaded = 0 then throw .noBasicClassesLoaded
  return loaded

/-- Loads a class with bodies and makes it an application class, unless it is a phantom. -/
def loadApplication (env : Surroundings) (name : String) : SceneAction Unit := do
  let id ← resolving env fun s => Universe.loadWithSupport s name
  if !((← get).record id).isPhantom then onUniverse (Universe.reclassify id .application)

def classesUnder (env : Surroundings) (location : String) : SceneAction (List String) := do
  match ((← get).source.supply env.files).classesUnder location with
  | .ok names => return names
  | .error e => throw e

def classesIn (env : Surroundings) (package : String) : SceneAction (List String) := do
  let names := ((← get).source.supply env.files).classesIn package
  modify fun s => { s with source := s.source.asked env.files }
  return names

/-- Loads the dynamic classes of the options and keeps those of which instances can be made. -/
def loadDynamic (env : Surroundings) : SceneAction Unit := do
  let o := (← get).options
  let ofDirs ← o.dynamicDirs.mapM (classesUnder env)
  let ofPackages ← o.dynamicPackages.mapM (classesIn env)
  let names := firstOccurrences (o.dynamicClasses ++ ofDirs.flatten ++ ofPackages.flatten)
  let ids ← names.foldlM (fun kept name => do
    let id ← resolving env fun s => Universe.loadWithSupport s name
    return if ((← get).record id).modifiers.isConcrete then kept ++ [id] else kept) []
  modify fun s => { s with dynamic := ids }

/-- Loads the classes under a process directory as application classes. -/
def loadDirectory (env : Surroundings) (directory : String) : SceneAction Unit := do
  (← classesUnder env directory).forM (loadApplication env)

/-- Applies the rules of the options to a registered class that is no phantom: everything is an
application class if so asked, a class named by the options is one, an excluded one is not, an
included one is.  Application classes are loaded with bodies. -/
def applyRules (env : Surroundings) (id : ClassId) : SceneAction Unit := do
  let o := (← get).options
  let name := ((← get).record id).name
  if o.app then onUniverse (Universe.reclassify id .application)
  if o.classes.contains name then
    onUniverse (Universe.reclassify id .application)
  else
    if ((← get).record id).partition == some .application && (← get).isExcluded name then
      onUniverse (Universe.reclassify id .library)
    if (← get).isIncluded name then onUniverse (Universe.reclassify id .application)
    if ((← get).record id).partition == some .application then
      let _ ← resolving env fun s => Universe.loadWithSupport s name

/-- Applies the rules to a registered class, unless it is a phantom. -/
def visit (env : Surroundings) (id : ClassId) : SceneAction Unit := do
  if !((← get).record id).isPhantom then applyRules env id

def pending (s : Scene) (met : List String) : List ClassId :=
  s.core.registry.ids.filter fun id => !met.contains (s.record id).name

/-- The names that have been met after the pending classes. -/
def metAfter (s : Scene) (met : List String) : List String :=
  met ++ (s.pending met).map fun id => (s.record id).name

/-- Applies the rules to the registered classes whose names have not been met, and then to those
that this has loaded, in at most a number of rounds. -/
def settleClasses (env : Surroundings) : (rounds : Nat) → (met : List String) → SceneAction Unit
  | 0, _ => pure ()
  | rounds + 1, met => do
      let s ← get
      if (s.pending met).isEmpty then return
      (s.pending met).forM (visit env)
      settleClasses env rounds (s.metAfter met)

/-- Applies the rules to all classes.  A round after the first that loads anything meets a class
with a definition for the first time, so two rounds more than there are definitions are enough. -/
def prepare (env : Surroundings) : SceneAction Unit := do
  let definitions := ((← get).source.supply env.files).size
  settleClasses env (definitions + 2) []

/-- Loads the basic classes, the classes named by the options, the dynamic classes and those of the
process directories. -/
def gather (env : Surroundings) : SceneAction Unit := do
  let _ ← loadBasic env
  (← get).options.classes.forM (loadApplication env)
  loadDynamic env
  (← get).options.processDirs.forM (loadDirectory env)

def load (env : Surroundings) : SceneAction Unit := do
  gather env
  prepare env
  onUniverse Universe.close
  setMainFromOptions

end ClassUniverse.Scene
