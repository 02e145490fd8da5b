import ClassUniverse.Level
import ClassUniverse.Member

/-!
# The catalog of class descriptors

Every class descriptor made so far, under the identity it got when it was made.  A descriptor links
to other descriptors by identity and does not keep them in existence: a link to a descriptor that
nobody holds any more is not there.
-/

namespace ClassUniverse

/-- The identity of a class descriptor. -/
structure ClassId where
  serial : Nat
  deriving DecidableEq, Repr, Inhabited

/-- What is known of a class. -/
structure ClassRecord where
  name : String
  level : Level := .dangling
  partition : Option Partition := none
  inScene : Bool := false
  isPhantom : Bool := false
  modifiers : Modifiers := Modifiers.publicFlag
  superclass : Option ClassId := none
  interfaces : List ClassId := []
  fields : List Field := []
  methods : List Method := []
  tags : List Tag := []
  deriving DecidableEq, Repr, Inhabited

namespace ClassRecord

/-- A phantom: a class that is only known to be mentioned. -/
def phantom (name : String) : ClassRecord := { name := name, isPhantom := true }

/-- A class of which a definition has given flags and tags so far. -/
def ofDefinition (d : ClassDefinition) : ClassRecord :=
  { name := d.name, modifiers := d.modifiers, tags := d.tags }

def method? (r : ClassRecord) (subsignature : String) : Option Method :=
  r.methods.find? fun m => m.subsignature == subsignature

def field? (r : ClassRecord) (subsignature : String) : Option Field :=
  r.fields.find? fun f => f.subsignature == subsignature

def declares (r : ClassRecord) (subsignature : String) : Bool := (r.method? subsignature).isSome

/-- A class at a level at least as high as a given one. -/
def raise (r : ClassRecord) (level : Level) : ClassRecord :=
  if r.level < level then { r with level := level } else r

/-- A class in a partition, or in none; a class put among the phantoms becomes one. -/
def assign (r : ClassRecord) (partition : Option Partition) : ClassRecord :=
  { r with
    partition := partition
    isPhantom := r.isPhantom || partition == some .phantom }

end ClassRecord

/-- All class descriptors by identity, how many members have been made, the methods whose bodies are
loaded, and the descriptors and members that nobody holds any more. -/
structure Catalog where
  records : Array ClassRecord
  membersMade : Nat
  loadedBodies : List Nat
  released : List ClassId
  releasedMembers : List Nat

namespace Catalog

def empty : Catalog := ⟨#[], 0, [], [], []⟩

instance : Inhabited Catalog := ⟨empty⟩

def get (c : Catalog) (id : ClassId) : ClassRecord := (c.records[id.serial]?).getD default

def modify (c : Catalog) (id : ClassId) (change : ClassRecord → ClassRecord) : Catalog :=
  { c with records := c.records.modify id.serial change }

def make (c : Catalog) (r : ClassRecord) : ClassId × Catalog :=
  (⟨c.records.size⟩, { c with records := c.records.push r })

def nameOf (c : Catalog) (id : ClassId) : String := (c.get id).name

def ids (c : Catalog) : List ClassId := (List.range c.records.size).map ClassId.mk

def isLive (c : Catalog) (id : ClassId) : Bool := !c.released.contains id

def isLiveMember (c : Catalog) (serial : Nat) : Bool := !c.releasedMembers.contains serial

def hasBody (c : Catalog) (m : Method) : Bool := c.loadedBodies.contains m.serial

def superclass? (c : Catalog) (id : ClassId) : Option ClassId :=
  (c.get id).superclass.filter c.isLive

def interfaces (c : Catalog) (id : ClassId) : List ClassId := (c.get id).interfaces.filter c.isLive

/-- A descriptor and its superclasses, nearest first.  A chain without repetition is no longer than
the catalog. -/
def ancestry (c : Catalog) (id : ClassId) : List ClassId := climb c.records.size id
where
  climb : Nat → ClassId → List ClassId
    | 0, _ => []
    | steps + 1, id =>
        id ::
          match c.superclass? id with
          | some parent => climb steps parent
          | none => []

def link (c : Catalog) (id : ClassId) (superclass : Option ClassId) (interfaces : List ClassId) :
    Catalog :=
  c.modify id fun r => { r with superclass := superclass, interfaces := interfaces }

def makeField (c : Catalog) (declaringClass : String) (d : FieldDefinition) : Field × Catalog :=
  (⟨c.membersMade, declaringClass, d⟩, { c with membersMade := c.membersMade + 1 })

def makeMethod (c : Catalog) (declaringClass : String) (d : MethodDefinition) : Method × Catalog :=
  (⟨c.membersMade, declaringClass, d⟩, { c with membersMade := c.membersMade + 1 })

def setModifiers (c : Catalog) (id : ClassId) (m : Modifiers) : Catalog :=
  c.modify id fun r => { r with modifiers := m }

def addTag (c : Catalog) (id : ClassId) (t : Tag) : Catalog :=
  c.modify id fun r => { r with tags := r.tags ++ [t] }

def declareField (c : Catalog) (id : ClassId) (d : FieldDefinition) : Catalog :=
  let (f, c) := c.makeField (c.nameOf id) d
  c.modify id fun r => { r with fields := r.fields ++ [f] }

def declareMethod (c : Catalog) (id : ClassId) (d : MethodDefinition) : Catalog :=
  let (m, c) := c.makeMethod (c.nameOf id) d
  c.modify id fun r => { r with methods := r.methods ++ [m] }

/-- Puts the members of a definition in the place of those that a descriptor has. -/
def installMembers (c : Catalog) (id : ClassId) (d : ClassDefinition) : Catalog :=
  let name := c.nameOf id
  let fields := d.fields.zipIdx c.membersMade |>.map fun (f, serial) => ⟨serial, name, f⟩
  let start := c.membersMade + d.fields.length
  let methods := d.methods.zipIdx start |>.map fun (m, serial) => ⟨serial, name, m⟩
  { c.modify id fun r => { r with fields := fields, methods := methods } with
    membersMade := start + d.methods.length }

def loadBodies (c : Catalog) (id : ClassId) : Catalog :=
  let bodies := (c.get id).methods.filter (·.definition.hasBody) |>.map (·.serial)
  { c with loadedBodies := bodies.filter (!c.loadedBodies.contains ·) ++ c.loadedBodies }

def release (c : Catalog) (id : ClassId) : Catalog :=
  if c.isLive id then { c with released := id :: c.released } else c

end Catalog

end ClassUniverse
