import ClassUniverse.Supply
import ClassUniverse.Universe

/-!
# Resolution

Resolution brings a class to a level.  What a level needs is brought to `hierarchy` first: the
supertypes for `hierarchy` itself, the classes named by the members for `signatures`, the classes
mentioned by bodies for `bodies`.  Only supertypes lead on to further classes, so a class whose
supertypes lead back to itself is the one thing that cannot be resolved.

A class without source becomes a phantom where phantoms are allowed.  An operation that fails keeps
the classes that it has resolved on the way.
-/

namespace ClassUniverse

/-- Whether resolution goes on after it has been closed. -/
inductive Mode
  | regular
  | forced
  deriving DecidableEq, Repr

namespace Universe

/-- Whether a class needs nothing more to count as loaded to a level. -/
def isLoaded (u : Universe) (id : ClassId) (level : Level) : Bool :=
  (u.record id).isPhantom || level ≤ (u.record id).level

/-- The level of the class registered under a name, the lowest for an unregistered name. -/
def levelOf (u : Universe) (name : String) : Level :=
  match u.find? name with
  | some id => (u.record id).level
  | none => .dangling

def ask (s : Supply) (name : String) : Action (Option ClassDefinition) := do
  modify fun u => { u with hasAsked := true }
  match s.lookup name with
  | .ok d => return d
  | .error e => throw e

/-- Puts a phantom in the place of a class without source. -/
def substitutePhantom (name : String) : Action ClassId := do
  if !(← get).allowPhantoms then throw (.classNotFound name)
  match (← get).find? name with
  | some id =>
      reclassify id .phantom
      return id
  | none => getOrCreatePhantom name

/-- The definition to load a class from, else the phantom in the place of the class. -/
def demand (s : Supply) (name : String) : Action (ClassId ⊕ ClassDefinition) := do
  match ← ask s name with
  | some d => return .inr d
  | none => return .inl (← substitutePhantom name)

/-- Demands a name that is not loaded.  A name that is on the path of names being resolved closes a
cycle. -/
def seek (s : Supply) (mode : Mode) (path : List String) (name : String) (level : Level) :
    Action (ClassId ⊕ ClassDefinition) := do
  if path.contains name then throw (.cyclicHierarchy name)
  if mode = .regular ∧ (← get).isClosed then throw (.resolutionFinished name level)
  demand s name

/-- The first step of resolving a name: the class, when it is loaded or replaced by a phantom, else
the definition to load it from. -/
def prepare (s : Supply) (mode : Mode) (path : List String) (name : String) (level : Level) :
    Action (ClassId ⊕ ClassDefinition) := do
  match (← get).find? name with
  | some id => if (← get).isLoaded id level then return .inl id
  | none => pure ()
  seek s mode path name level

/-- Brings the class of a definition to a level, after an installation of what the level adds.  A
class that is not registered is registered once it has reached the level. -/
def publish (d : ClassDefinition) (level : Level) (install : ClassId → Action Unit) :
    Action ClassId := do
  match (← get).find? d.name with
  | none =>
      let id ← make (.ofDefinition d)
      install id
      onCatalog fun c => c.modify id (·.raise level)
      let _ ← addClass id
      return id
  | some id =>
      if (← get).isLoaded id level then return id
      install id
      onCatalog fun c => c.modify id (·.raise level)
      return id

/-- Resolves the supertypes of a definition by a given resolution and links its class to them. -/
def linkSupertypes (resolve : String → Action ClassId) (d : ClassDefinition) : Action Unit := do
  let superclass ← d.superclass.mapM resolve
  let interfaces ← d.interfaces.mapM resolve
  let _ ← publish d .hierarchy fun id => onCatalog fun c => c.link id superclass interfaces

/-- Resolves a name to `hierarchy` along a path of names of at most a given further length.  The
names on a path are different and have definitions, so a path that is as long as there are
definitions can only be continued by closing a cycle. -/
def resolveAlong (s : Supply) (mode : Mode) :
    (length : Nat) → (path : List String) → (name : String) → Action ClassId
  | 0, _, name => throw (.cyclicHierarchy name)
  | length + 1, path, name => do
      match ← prepare s mode path name .hierarchy with
      | .inl id => return id
      | .inr d =>
          linkSupertypes (resolveAlong s mode length (path ++ [name])) d
          expect name

def resolveHierarchy (s : Supply) (mode : Mode) (name : String) : Action ClassId :=
  resolveAlong s mode (s.size + 1) [] name

def installMembers (d : ClassDefinition) (id : ClassId) : Action Unit := do
  onCatalog fun c => c.installMembers id d
  numberMembers id

/-- Brings a class from `hierarchy` to `signatures` by a given resolution of the classes that its
members name. -/
def loadSignatures (resolve : String → Action ClassId) (d : ClassDefinition) : Action Unit := do
  d.signatureReferences.forM fun reference => discard (resolve reference)
  let _ ← publish d .signatures (installMembers d)

/-- Brings a class from `signatures` to `bodies` by a given resolution of the classes that its
bodies mention. -/
def loadBodies (resolve : String → Action ClassId) (name : String) (d : ClassDefinition) :
    Action ClassId := do
  (d.bodyReferences.filter (· != name)).forM fun reference => discard (resolve reference)
  publish d .bodies fun id => onCatalog fun c => c.loadBodies id

/-- Resolves a name to a level by given resolutions of its supertypes and of the classes that it
refers to. -/
def resolveBy (parent reference : String → Action ClassId) (s : Supply) (mode : Mode)
    (name : String) (level : Level) : Action ClassId := do
  let current := (← get).levelOf name
  match ← prepare s mode [] name level with
  | .inl id => return id
  | .inr d =>
      if level = .dangling then return ← publish d level fun _ => pure ()
      if current < .hierarchy then linkSupertypes parent d
      if level ≤ .hierarchy then return ← expect name
      if current < .signatures then loadSignatures reference d
      if level ≤ .signatures then return ← expect name
      loadBodies reference name d

def resolve (s : Supply) (mode : Mode) (name : String) (level : Level) : Action ClassId :=
  resolveBy (resolveAlong s mode s.size [name]) (resolveHierarchy s mode) s mode name level

/-- Resolves a name to a level; a name without source gives nothing where phantoms are not
allowed. -/
def tryLoad (s : Supply) (name : String) (level : Level) : Action (Option ClassId) := fun u =>
  match resolve s .regular name level u with
  | .ok id u => .ok (some id) u
  | .error (.classNotFound missing) u =>
      if missing = name then .ok none u else .error (.classNotFound missing) u
  | .error e u => .error e u

/-- Resolves a name to `signatures`, and to `bodies` unless it is a phantom. -/
def loadWithSupport (s : Supply) (name : String) : Action ClassId := do
  let id ← resolve s .regular name .signatures
  if ((← get).record id).isPhantom then return id
  resolve s .regular name .bodies

def close : Action Unit := modify fun u => { u with isClosed := true }

end Universe

end ClassUniverse
