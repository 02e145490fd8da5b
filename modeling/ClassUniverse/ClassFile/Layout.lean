import ClassUniverse.ClassFile.Bytes

/-!
# The layout of a class file

The parts of a class file as they follow each other in its bytes.  Names and types are still
indices into the table of constants here.
-/

namespace ClassUniverse.ClassFile

/-- An entry of the table of constants, as far as it matters. -/
inductive Constant
  | utf8 (bytes : List UInt8)
  | classRef (name : Nat)
  | plain (tag : UInt8) (payload : List UInt8)
  | wide (tag : UInt8) (payload : List UInt8)
  deriving DecidableEq, Repr

/-- An attribute: the index of its name and its bytes. -/
structure Attribute where
  name : Nat
  body : List UInt8
  deriving DecidableEq, Repr

/-- A field or a method. -/
structure Member where
  access : Nat
  name : Nat
  descriptor : Nat
  attributes : List Attribute
  deriving DecidableEq, Repr

/-- A class file. -/
structure Layout where
  version : List UInt8
  constants : List Constant
  access : Nat
  thisClass : Nat
  superclass : Nat
  interfaces : List Nat
  fields : List Member
  methods : List Member
  attributes : List Attribute
  deriving DecidableEq, Repr

def magic : Nat := 0xCAFEBABE

/-- How many bytes follow the tag of a constant that is neither text nor class. -/
def payloadLength? (tag : UInt8) : Option Nat :=
  if [3, 4, 9, 10, 11, 12, 17, 18].contains tag then some 4
  else if [8, 16, 19, 20].contains tag then some 2
  else if tag = 15 then some 3
  else none

namespace Constant

/-- How many indices a constant takes: numbers of eight bytes take two. -/
def width : Constant → Nat
  | wide _ _ => 2
  | _ => 1

theorem width_pos (c : Constant) : 0 < c.width := by
  cases c <;> simp [width]

def read : Reader Constant := do
  let tag ← Reader.byte
  if tag = 1 then
    let length ← Reader.u16
    return utf8 (← Reader.bytes length)
  else if tag = 7 then
    return classRef (← Reader.u16)
  else if tag = 5 ∨ tag = 6 then
    return wide tag (← Reader.bytes 8)
  else
    match payloadLength? tag with
    | some length => return plain tag (← Reader.bytes length)
    | none => failure

/-- Reads constants until they take a number of indices; the last may take one more. -/
def readTable : Nat → Reader (List Constant)
  | 0 => pure []
  | indices + 1 => do
      let first ← read
      let rest ← readTable (indices + 1 - first.width)
      return first :: rest
  termination_by indices => indices
  decreasing_by
    have := first.width_pos
    omega

end Constant

def Attribute.read : Reader Attribute := do
  let name ← Reader.u16
  let length ← Reader.u32
  return ⟨name, ← Reader.bytes length⟩

def Member.read : Reader Member := do
  let access ← Reader.u16
  let name ← Reader.u16
  let descriptor ← Reader.u16
  return ⟨access, name, descriptor, ← Reader.counted Attribute.read⟩

/-- Reads a class file; bytes after its end are left. -/
def Layout.read : Reader Layout := do
  let found ← Reader.u32
  if found ≠ magic then failure
  let version ← Reader.bytes 4
  let count ← Reader.u16
  let constants ← Constant.readTable (count - 1)
  let access ← Reader.u16
  let thisClass ← Reader.u16
  let superclass ← Reader.u16
  let interfaces ← Reader.counted Reader.u16
  let fields ← Reader.counted Member.read
  let methods ← Reader.counted Member.read
  let attributes ← Reader.counted Attribute.read
  return ⟨version, constants, access, thisClass, superclass, interfaces, fields, methods,
    attributes⟩

end ClassUniverse.ClassFile
