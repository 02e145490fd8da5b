import ClassUniverse.ClassFile.Layout
import ClassUniverse.ClassFile.TypeDescriptor
import ClassUniverse.Definition
import ClassUniverse.Error
import ClassUniverse.Text.Utf8

/-!
# The definition in a class file

A class file defines a class when every index that the definition needs leads to a constant of the
right kind.  Classes that the table of constants mentions beyond the class and its supertypes are
the references of its bodies.
-/

namespace ClassUniverse.ClassFile

open Text

/-- What an index of the table of constants stands for: entry zero and the second index of a wide
constant stand for nothing. -/
abbrev ConstantTable := Array (Option Constant)

namespace ConstantTable

def ofConstants (constants : List Constant) : ConstantTable :=
  (none :: constants.flatMap fun c => some c :: List.replicate (c.width - 1) none).toArray

def constant? (table : ConstantTable) (index : Nat) : Option Constant := (table[index]?).join

def text? (table : ConstantTable) (index : Nat) : Option (List Char) :=
  match table.constant? index with
  | some (.utf8 bytes) => some (decodeLossy bytes)
  | _ => none

/-- The name of the class at an index, with dots for slashes. -/
def className? (table : ConstantTable) (index : Nat) : Option (List Char) :=
  match table.constant? index with
  | some (.classRef name) => (table.text? name).map (exchange '/' '.')
  | _ => none

end ConstantTable

/-- The name of an attribute of a class, and the text that the attribute points to when it names the
source file. -/
def Attribute.reading? (table : ConstantTable) (a : Attribute) :
    Option (String × Option String) := do
  let name := String.ofList (← table.text? a.name)
  match name, a.body with
  | "SourceFile", [high, low] =>
      return (name, (table.text? (high.toNat * 256 + low.toNat)).map String.ofList)
  | _, _ => return (name, none)

/-- The tag that an attribute of a class gives it. -/
def attributeTag? : String × Option String → Option Tag
  | ("SourceFile", some file) => some (.sourceFile file)
  | ("Deprecated", _) => some .deprecated
  | _ => none

/-- The access flags in a word of a class file. -/
def modifiersOf (word : Nat) : Modifiers := ⟨UInt16.ofNat word⟩

namespace Member

def field? (table : ConstantTable) (m : Member) : Option FieldDefinition := do
  let name ← table.text? m.name
  let (type, _) ← TypeDescriptor.read? (← table.text? m.descriptor)
  let _ ← m.attributes.mapM (Attribute.reading? table)
  return {
    name := String.ofList name
    typeName := type.sourceName
    modifiers := modifiersOf m.access }

/-- The method that a member defines; it has a body when it has an attribute of code. -/
def method? (table : ConstantTable) (m : Member) : Option MethodDefinition := do
  let name ← table.text? m.name
  let types ← MethodDescriptor.read? (← table.text? m.descriptor)
  let attributes ← m.attributes.mapM (Attribute.reading? table)
  return {
    name := String.ofList name
    parameterTypes := types.parameters.map TypeDescriptor.sourceName
    returnType := types.result.sourceName
    modifiers := modifiersOf m.access
    hasBody := attributes.any fun (name, _) => name == "Code" }

end Member

namespace Layout

def declared (l : Layout) : List Nat := l.thisClass :: l.superclass :: l.interfaces

/-- The class that a class constant mentions: for an array its base, unless that is primitive. -/
def mentioned? (name : List Char) : Option String :=
  match name with
  | '[' :: _ => do
      let (type, _) ← TypeDescriptor.read? (exchange '.' '/' name)
      referenceTypeName? type.sourceName
  | name => some (String.ofList name)

/-- The classes that the constants mention apart from the declared ones, in the order of the table.
-/
def mentions (l : Layout) (table : ConstantTable) : List String :=
  let indices := (List.range table.size).filter fun index => !l.declared.contains index
  indices.filterMap fun index => (table.className? index).bind mentioned?

def definition? (l : Layout) : Option ClassDefinition := do
  let table := ConstantTable.ofConstants l.constants
  let name := String.ofList (← table.className? l.thisClass)
  let superclass ←
    if l.superclass = 0 then pure none
    else (table.className? l.superclass).map fun name => some (String.ofList name)
  let interfaces ← l.interfaces.mapM table.className?
  let fields ← l.fields.mapM (Member.field? table)
  let methods ← l.methods.mapM (Member.method? table)
  let attributes ← l.attributes.mapM (Attribute.reading? table)
  return {
    name := name
    modifiers := modifiersOf l.access
    superclass := superclass
    interfaces := interfaces.map String.ofList
    fields := fields
    methods := methods
    bodyReferences := firstOccurrences ((l.mentions table).filter (· != name))
    tags := attributes.filterMap attributeTag? }

end Layout

/-- The class that the bytes of a class file define. -/
def definition? (bytes : List UInt8) : Option ClassDefinition := do
  let (layout, _) ← Layout.read.run bytes
  layout.definition?

/-- Reads the class file of a class; the definition in it may have another name. -/
def parse (name : String) (bytes : List UInt8) : Except Error ClassDefinition :=
  match definition? bytes with
  | some definition => .ok definition
  | none => .error (.configuration (.malformedClassFile name))

end ClassUniverse.ClassFile
