import ClassUniverse.Text.Split

/-!
# Type descriptors

The compact spelling of field and method types in class files, and the spelling of the same types
in Java source.
-/

namespace ClassUniverse.ClassFile

open Text

/-- A type that is no array. -/
inductive BaseType
  | boolean
  | byte
  | char
  | short
  | int
  | long
  | float
  | double
  | void
  | object (path : List Char)
  deriving DecidableEq, Repr

/-- A type: a base and a number of array dimensions. -/
structure TypeDescriptor where
  dimensions : Nat
  base : BaseType
  deriving DecidableEq, Repr

/-- A path or a name with one character in the place of another. -/
def exchange (old new : Char) (s : List Char) : List Char :=
  s.map fun c => if c = old then new else c

namespace BaseType

/-- The base type of a descriptor letter other than the one for objects. -/
def ofLetter? : Char → Option BaseType
  | 'Z' => some boolean
  | 'B' => some byte
  | 'C' => some char
  | 'S' => some short
  | 'I' => some int
  | 'J' => some long
  | 'F' => some float
  | 'D' => some double
  | 'V' => some void
  | _ => none

def descriptor : BaseType → List Char
  | boolean => ['Z']
  | byte => ['B']
  | char => ['C']
  | short => ['S']
  | int => ['I']
  | long => ['J']
  | float => ['F']
  | double => ['D']
  | void => ['V']
  | object path => 'L' :: path ++ [';']

/-- The spelling in Java source; the slashes of a class path become dots. -/
def sourceName : BaseType → String
  | boolean => "boolean"
  | byte => "byte"
  | char => "char"
  | short => "short"
  | int => "int"
  | long => "long"
  | float => "float"
  | double => "double"
  | void => "void"
  | object path => String.ofList (exchange '/' '.' path)

/-- Reads the base type at the front of a text. -/
def read? : List Char → Option (BaseType × List Char)
  | [] => none
  | 'L' :: rest => (splitFirst ';' rest).map fun (path, rest) => (object path, rest)
  | c :: rest => (ofLetter? c).map fun base => (base, rest)

theorem length_of_read? {s rest : List Char} {base : BaseType}
    (h : read? s = some (base, rest)) : rest.length < s.length := by
  unfold read? at h
  split at h
  · simp at h
  · rename_i tail
    simp only [Option.map_eq_some_iff, Prod.exists, Prod.mk.injEq] at h
    obtain ⟨path, after, hs, -, rfl⟩ := h
    obtain ⟨hs, -⟩ := splitFirst_eq_some_iff.1 hs
    simp only [hs, List.length_cons, List.length_append]
    omega
  · simp only [Option.map_eq_some_iff, Prod.mk.injEq] at h
    obtain ⟨_, _, -, rfl⟩ := h
    simp

end BaseType

namespace TypeDescriptor

/-- The spelling in a class file: a bracket a dimension, then the base. -/
def descriptor (t : TypeDescriptor) : List Char :=
  List.replicate t.dimensions '[' ++ t.base.descriptor

/-- The spelling in Java source: the base, then a pair of brackets a dimension. -/
def sourceName (t : TypeDescriptor) : String :=
  t.base.sourceName ++ String.join (List.replicate t.dimensions "[]")

def read? (s : List Char) : Option (TypeDescriptor × List Char) :=
  (BaseType.read? (s.dropWhile (· == '['))).map fun (base, rest) =>
    (⟨(s.takeWhile (· == '[')).length, base⟩, rest)

theorem length_of_read? {s rest : List Char} {t : TypeDescriptor}
    (h : read? s = some (t, rest)) : rest.length < s.length := by
  simp only [read?, Option.map_eq_some_iff, Prod.exists, Prod.mk.injEq] at h
  obtain ⟨base, after, hb, -, rfl⟩ := h
  have h1 := BaseType.length_of_read? hb
  have h2 : (s.dropWhile (· == '[')).length ≤ s.length :=
    (List.dropWhile_sublist _).length_le
  omega

end TypeDescriptor

/-- The types of a method: its parameters in order and its result. -/
structure MethodDescriptor where
  parameters : List TypeDescriptor
  result : TypeDescriptor
  deriving DecidableEq, Repr

namespace MethodDescriptor

/-- The spelling in a class file: the parameters between parentheses, then the result. -/
def descriptor (m : MethodDescriptor) : List Char :=
  '(' :: m.parameters.flatMap TypeDescriptor.descriptor ++ ')' :: m.result.descriptor

/-- Reads types up to the closing parenthesis, and what follows it. -/
def readParameters? (s : List Char) : Option (List TypeDescriptor × List Char) :=
  match s with
  | ')' :: rest => some ([], rest)
  | s =>
      match _h : TypeDescriptor.read? s with
      | none => none
      | some (first, rest) =>
          (readParameters? rest).map fun (others, rest) => (first :: others, rest)
  termination_by s.length
  decreasing_by exact TypeDescriptor.length_of_read? (by assumption)

/-- Reads a method descriptor; what follows the result is ignored. -/
def read? : List Char → Option MethodDescriptor
  | '(' :: rest =>
      match readParameters? rest with
      | none => none
      | some (parameters, rest) =>
          (TypeDescriptor.read? rest).map fun (result, _) => ⟨parameters, result⟩
  | _ => none

end MethodDescriptor

end ClassUniverse.ClassFile
