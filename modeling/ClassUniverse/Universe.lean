import ClassUniverse.Error
import ClassUniverse.Numbering.Domains
import ClassUniverse.Registry

/-!
# The universe of classes

A universe holds the descriptors, the registry and the numberings, and the operations that change
them together.  An operation that fails keeps what it had changed before it failed; the operations
of this module check first and change then, so that they fail without a change.
-/

namespace ClassUniverse

/-- The descriptors, the registry and the numberings, whether a class without source may be replaced
by a phantom, whether resolution has been closed, and whether a source of classes has been asked for
a name. -/
structure Universe where
  catalog : Catalog
  registry : Registry
  numbers : Numberings
  allowPhantoms : Bool
  isClosed : Bool
  hasAsked : Bool

abbrev Action := EStateM Error Universe

namespace Universe

def empty (recycles allowPhantoms : Bool) : Universe where
  catalog := .empty
  registry := .empty
  numbers := .empty recycles
  allowPhantoms := allowPhantoms
  isClosed := false
  hasAsked := false

instance : Inhabited Universe := ⟨empty false false⟩

def find? (u : Universe) (name : String) : Option ClassId := u.registry.get? name

def record (u : Universe) (id : ClassId) : ClassRecord := u.catalog.get id

/-- Whether a descriptor is the one registered under its name. -/
def isManaged (u : Universe) (id : ClassId) : Bool := u.find? (u.record id).name == some id

/-- The descriptor registered under a name; fails when there is none. -/
def expect (name : String) : Action ClassId := do
  match (← get).find? name with
  | some id => return id
  | none => throw (.classNotFound name)

def make (r : ClassRecord) : Action ClassId :=
  modifyGet fun u =>
    let (id, catalog) := u.catalog.make r
    (id, { u with catalog := catalog })

def modifyCatalog {α : Type} (change : Catalog → α × Catalog) : Action α :=
  modifyGet fun u =>
    let (a, catalog) := change u.catalog
    (a, { u with catalog := catalog })

def modifyNumbers {α : Type} (change : Numberings → α × Numberings) : Action α :=
  modifyGet fun u =>
    let (a, numbers) := change u.numbers
    (a, { u with numbers := numbers })

def onCatalog (change : Catalog → Catalog) : Action Unit :=
  modify fun u => { u with catalog := change u.catalog }

/-- The partition that a class enters when it is registered: the one it has, else the phantoms for a
phantom and the library for any other class. -/
def entryPartition (r : ClassRecord) : Partition :=
  r.partition.getD (if r.isPhantom then .phantom else .library)

def enter (u : Universe) (id : ClassId) : Nat × Universe :=
  let r := u.record id
  let p := entryPartition r
  let catalog := u.catalog.modify id fun r => { r.assign (some p) with inScene := true }
  let (number, numbers) := u.numbers.addClass catalog id
  (number, { u with
    catalog := catalog
    registry := u.registry.insert r.name id p
    numbers := numbers })

/-- Registers a descriptor and gives its class number.  A descriptor that is registered already, or
whose name is, is refused. -/
def addClass (id : ClassId) : Action Nat := do
  let r := (← get).record id
  if r.inScene || (← get).registry.contains r.name then throw (.duplicateClass r.name)
  modifyGet fun u => u.enter id

/-- Removes the descriptor registered under its name, with its numbers and those of its members. -/
def removeClass (id : ClassId) : Action Unit := do
  let r := (← get).record id
  if !(← get).isManaged id then throw (.notManaged r.name)
  modify fun u => { u with
    catalog := u.catalog.modify id fun r => { r.assign none with inScene := false }
    registry := u.registry.erase r.name
    numbers := u.numbers.removeClass u.catalog id }

/-- The descriptor registered under a name, else a new phantom where phantoms are allowed. -/
def getOrCreatePhantom (name : String) : Action ClassId := do
  match (← get).find? name with
  | some id => return id
  | none =>
      if !(← get).allowPhantoms then throw (.classNotFound name)
      let id ← make (.phantom name)
      let _ ← addClass id
      return id

/-- Moves a registered class to a partition.  A phantom stays a phantom. -/
def reclassify (id : ClassId) (p : Partition) : Action Unit := do
  let r := (← get).record id
  if !(← get).isManaged id then throw (.notManaged r.name)
  if r.isPhantom && p != .phantom then throw (.configuration (.phantomPromotion r.name p))
  modify fun u => { u with
    catalog := u.catalog.modify id (·.assign (some p))
    registry := (u.registry.takeOut r.name).put r.name p }

def numberMembers (id : ClassId) : Action Unit :=
  modify fun u => { u with numbers := u.numbers.addMembers u.catalog id }

def numberMethod (m : Method) : Action Nat := do
  let catalog := (← get).catalog
  modifyNumbers fun n => n.addMethod (catalog.isLiveMember ·.serial) m

/-- Chooses the numbering of contexts; it can be chosen once. -/
def chooseContexts (recycles : Bool) : Action Unit := do
  if (← get).numbers.contexts.isSome then throw .contextsAlreadySet
  modifyNumbers fun n => ((), { n with contexts := some (.empty recycles) })

def idsAtLevel (u : Universe) (level : Level) : List ClassId :=
  u.registry.ids.filter fun id => level ≤ (u.record id).level

/-- The method of a signature, unless its class or the method is unknown. -/
def method? (u : Universe) (signature : String) : Except Error (Option Method) := do
  let s ← Signature.parse signature
  return (u.find? s.className).bind fun id => (u.record id).method? s.member

/-- The field of a signature, unless its class or the field is unknown. -/
def field? (u : Universe) (signature : String) : Except Error (Option Field) := do
  let s ← Signature.parse signature
  return (u.find? s.className).bind fun id => (u.record id).field? s.member

/-- The method of a signature; fails when it is unknown. -/
def method (u : Universe) (signature : String) : Except Error Method := do
  match ← u.method? signature with
  | some m => return m
  | none => throw (.memberNotFound signature)

/-- The field of a signature; fails when it is unknown. -/
def field (u : Universe) (signature : String) : Except Error Field := do
  match ← u.field? signature with
  | some f => return f
  | none => throw (.memberNotFound signature)

/-- The method of a signature, where it is well formed and known. -/
def knownMethod? (u : Universe) (signature : String) : Option Method :=
  match u.method? signature with
  | .ok m => m
  | .error _ => none

end Universe

end ClassUniverse
