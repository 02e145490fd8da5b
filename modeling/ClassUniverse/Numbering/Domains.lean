import ClassUniverse.CallGraph.InvokeKind
import ClassUniverse.Catalog
import ClassUniverse.Entity
import ClassUniverse.Numbering.Dense
import ClassUniverse.Numbering.Recycling

/-!
# The numberings of a universe

Classes, members, variables, positions, subsignatures, call kinds and contexts are each numbered on
their own.
-/

namespace ClassUniverse

/-- A numbering that keeps its elements, or one that does not.  Its numbers fit in 32 bits as long
as it has fewer than 2³² places. -/
inductive Numbering (α : Type)
  | dense (n : DenseNumbering α)
  | recycling (n : RecyclingNumbering α)

namespace Numbering

variable {α : Type}

/-- The numbering without elements of one sort or the other. -/
def empty (recycles : Bool) : Numbering α :=
  if recycles then recycling .empty else dense .empty

instance : Inhabited (Numbering α) := ⟨empty false⟩

def get? (isLive : α → Bool) : Numbering α → Nat → Option α
  | dense n, id => n.get? id
  | recycling n, id => n.get? isLive id

def size (isLive : α → Bool) : Numbering α → Nat
  | dense n => n.size
  | recycling n => n.size isLive

variable [DecidableEq α]

def idOf? : Numbering α → α → Option Nat
  | dense n, a => n.idOf? a
  | recycling n, a => n.idOf? a

/-- The number of an element, given now if it has none. -/
def add (isLive : α → Bool) : Numbering α → α → Nat × Numbering α
  | dense n, a => let (id, n) := n.add a; (id, dense n)
  | recycling n, a => let (id, n) := n.add isLive a; (id, recycling n)

/-- Whether an element had a number, and the numbering without it. -/
def remove : Numbering α → α → Bool × Numbering α
  | dense n, a =>
      match n.remove? a with
      | some n => (true, dense n)
      | none => (false, dense n)
  | recycling n, a =>
      match n.remove? a with
      | some n => (true, recycling n)
      | none => (false, recycling n)

end Numbering

/-- One numbering for each domain.  Contexts have none before one is chosen. -/
structure Numberings where
  classes : Numbering ClassId
  methods : Numbering Method
  fields : Numbering Field
  locals : Numbering (Entity LocalVariable)
  positions : DenseNumbering (Entity BodyPosition)
  subsignatures : DenseNumbering String
  contexts : Option (Numbering (Entity String))

namespace Numberings

def empty (recycles : Bool) : Numberings where
  classes := .empty recycles
  methods := .empty recycles
  fields := .empty recycles
  locals := .empty recycles
  positions := .empty
  subsignatures := .empty
  contexts := none

instance : Inhabited Numberings := ⟨empty false⟩

def kinds : DenseNumbering InvokeKind := .ofList InvokeKind.all

/-- The numberings after the members of a class have got numbers. -/
def addMembers (n : Numberings) (c : Catalog) (id : ClassId) : Numberings :=
  let r := c.get id
  { n with
    subsignatures := r.methods.foldl (fun s m => (s.add m.subsignature).2) n.subsignatures
    methods := r.methods.foldl (fun s m => (s.add (c.isLiveMember ·.serial) m).2) n.methods
    fields := r.fields.foldl (fun s f => (s.add (c.isLiveMember ·.serial) f).2) n.fields }

/-- The numberings after a class and its members have got numbers, and the number of the class. -/
def addClass (n : Numberings) (c : Catalog) (id : ClassId) : Nat × Numberings :=
  let (number, classes) := n.classes.add c.isLive id
  (number, { n with classes := classes }.addMembers c id)

def removeClass (n : Numberings) (c : Catalog) (id : ClassId) : Numberings :=
  let r := c.get id
  { n with
    classes := (n.classes.remove id).2
    methods := r.methods.foldl (fun s m => (s.remove m).2) n.methods
    fields := r.fields.foldl (fun s f => (s.remove f).2) n.fields }

/-- The number of a method, given now if it has none. -/
def addMethod (n : Numberings) (isLive : Method → Bool) (m : Method) : Nat × Numberings :=
  let (id, methods) := n.methods.add isLive m
  (id, { n with methods := methods })

/-- The number of a subsignature, given now if it has none. -/
def addSubsignature (n : Numberings) (s : String) : Nat × Numberings :=
  let (id, subsignatures) := n.subsignatures.add s
  (id, { n with subsignatures := subsignatures })

/-- The number of a variable, given now if it has none. -/
def addLocal (n : Numberings) (isLive : Entity LocalVariable → Bool) (v : Entity LocalVariable) :
    Nat × Numberings :=
  let (id, locals) := n.locals.add isLive v
  (id, { n with locals := locals })

/-- Whether a variable had a number, and the numberings without it. -/
def removeLocal (n : Numberings) (v : Entity LocalVariable) : Bool × Numberings :=
  let (had, locals) := n.locals.remove v
  (had, { n with locals := locals })

/-- The number of a position, given now if it has none. -/
def addPosition (n : Numberings) (p : Entity BodyPosition) : Nat × Numberings :=
  let (id, positions) := n.positions.add p
  (id, { n with positions := positions })

/-- Whether a position had a number, and the numberings without it. -/
def removePosition (n : Numberings) (p : Entity BodyPosition) : Bool × Numberings :=
  match n.positions.remove? p with
  | some positions => (true, { n with positions := positions })
  | none => (false, n)

/-- The number of a context, given now if it has none, once contexts are numbered. -/
def addContext (n : Numberings) (isLive : Entity String → Bool) (x : Entity String) :
    Option Nat × Numberings :=
  match n.contexts with
  | none => (none, n)
  | some contexts =>
      let (id, contexts) := contexts.add isLive x
      (some id, { n with contexts := some contexts })

/-- Whether a context had a number, and the numberings without it, once contexts are numbered. -/
def removeContext (n : Numberings) (x : Entity String) : Option Bool × Numberings :=
  match n.contexts with
  | none => (none, n)
  | some contexts =>
      let (had, contexts) := contexts.remove x
      (some had, { n with contexts := some contexts })

end Numberings

end ClassUniverse
