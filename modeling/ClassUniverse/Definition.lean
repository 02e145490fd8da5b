import ClassUniverse.Modifiers
import ClassUniverse.OrderedMap
import ClassUniverse.Text.Blank
import ClassUniverse.Text.Split

/-!
# Definitions

What a source says about a class: its flags, supertypes and members, and the classes that its
method bodies mention.
-/

namespace ClassUniverse

open Text

/-- A remark attached to a class or a member. -/
inductive Tag
  | deprecated
  | sourceFile (name : String)
  | signature (text : String)
  | raw (name : String) (bytes : List UInt8)
  deriving DecidableEq, Repr

/-- A field as its class declares it. -/
structure FieldDefinition where
  name : String
  typeName : String
  modifiers : Modifiers := Modifiers.privateFlag
  tags : List Tag := []
  deriving DecidableEq, Repr, Inhabited

/-- Whether a method with these flags has code: neither abstract nor native. -/
def Modifiers.allowBody (m : Modifiers) : Bool := !m.isAbstract && !m.isNative

/-- A method as its class declares it. -/
structure MethodDefinition where
  name : String
  parameterTypes : List String
  returnType : String
  modifiers : Modifiers := Modifiers.publicFlag
  exceptions : List String := []
  hasBody : Bool := modifiers.allowBody
  tags : List Tag := []
  deriving DecidableEq, Repr, Inhabited

/-- A class as its source declares it. -/
structure ClassDefinition where
  name : String
  modifiers : Modifiers := Modifiers.publicFlag
  superclass : Option String := none
  interfaces : List String := []
  fields : List FieldDefinition := []
  methods : List MethodDefinition := []
  bodyReferences : List String := []
  tags : List Tag := []
  deriving DecidableEq, Repr, Inhabited

def primitiveTypes : List String :=
  ["boolean", "byte", "char", "short", "int", "long", "float", "double", "void"]

/-- The class behind a type name: the text before its first bracket without blanks around it, unless
nothing is left or a primitive type. -/
def referenceTypeName? (typeName : String) : Option String :=
  let base := String.ofList (trim (typeName.toList.takeWhile (· != '[')))
  if base.isEmpty || primitiveTypes.contains base then none else some base

namespace MethodDefinition

/-- The types that the head of a method names: parameters, result, exceptions. -/
def typeNames (m : MethodDefinition) : List String :=
  m.parameterTypes ++ m.returnType :: m.exceptions

def subsignature (m : MethodDefinition) : String :=
  m.returnType ++ " " ++ m.name ++ "(" ++ String.intercalate "," m.parameterTypes ++ ")"

end MethodDefinition

def FieldDefinition.subsignature (f : FieldDefinition) : String := f.typeName ++ " " ++ f.name

namespace ClassDefinition

def supertypes (d : ClassDefinition) : List String := d.superclass.toList ++ d.interfaces

/-- The types named by the fields and the method heads of a class. -/
def memberTypeNames (d : ClassDefinition) : List String :=
  d.fields.map (·.typeName) ++ d.methods.flatMap (·.typeNames)

/-- The other classes that the members of a class name in their types, in ascending order and each
once. -/
def signatureReferences (d : ClassDefinition) : List String :=
  let names := (d.memberTypeNames.filterMap referenceTypeName?).filter (· != d.name)
  (firstOccurrences names).mergeSort fun a b => decide (a ≤ b)

end ClassDefinition

end ClassUniverse
