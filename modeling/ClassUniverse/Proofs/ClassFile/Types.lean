import ClassUniverse.ClassFile.TypeDescriptor
import ClassUniverse.Definition
import Mathlib.Data.List.TakeWhile

/-!
# The types of fields and methods

The types that the format of class files has, with their two spellings: the descriptor in the file
and the name in Java source.  Reading a descriptor gives the type that has the source name.
-/

namespace ClassUniverse.ClassFile

open Text

/-- Whether a class name may have a character. -/
def isNameChar (c : Char) : Bool := c != '.' && c != ';' && c != '[' && !isBlank c

/-- A class name in the form of class files, with slashes between its parts. -/
structure ClassName where
  path : List Char
  nonempty : path ≠ []
  isPlain : path.all isNameChar = true
  not_primitive : String.ofList path ∉ primitiveTypes
  deriving DecidableEq

/-- The name in Java source. -/
def ClassName.dotted (n : ClassName) : String :=
  String.ofList (n.path.map fun c => if c = '/' then '.' else c)

theorem ClassName.of_mem (n : ClassName) {c : Char} (h : c ∈ n.path) :
    c ≠ '.' ∧ c ≠ ';' ∧ c ≠ '[' ∧ isBlank c = false := by
  have hc := List.all_eq_true.1 n.isPlain c h
  simpa [isNameChar, and_assoc] using hc

inductive Primitive
  | boolean
  | byte
  | char
  | short
  | int
  | long
  | float
  | double
  deriving DecidableEq, Repr

namespace Primitive

def letter : Primitive → Char
  | boolean => 'Z'
  | byte => 'B'
  | char => 'C'
  | short => 'S'
  | int => 'I'
  | long => 'J'
  | float => 'F'
  | double => 'D'

def word : Primitive → String
  | boolean => "boolean"
  | byte => "byte"
  | char => "char"
  | short => "short"
  | int => "int"
  | long => "long"
  | float => "float"
  | double => "double"

end Primitive

/-- The type of a field or of a parameter. -/
inductive FieldType
  | primitive (p : Primitive)
  | object (name : ClassName)
  | array (element : FieldType)
  deriving DecidableEq

namespace FieldType

def descriptor : FieldType → List Char
  | primitive p => [p.letter]
  | object name => 'L' :: name.path ++ [';']
  | array element => '[' :: element.descriptor

def sourceName : FieldType → String
  | primitive p => p.word
  | object name => name.dotted
  | array element => element.sourceName ++ "[]"

/-- The class that a type is made of. -/
def className? : FieldType → Option ClassName
  | primitive _ => none
  | object name => some name
  | array element => element.className?

end FieldType

/-- The types of a method; one without a result is `void`. -/
structure MethodType where
  parameters : List FieldType
  result : Option FieldType
  deriving DecidableEq

/-- What a class constant names: a class, or an array of some type. -/
inductive Mention
  | named (name : ClassName)
  | array (element : FieldType)
  deriving DecidableEq

namespace Mention

def spelling : Mention → List Char
  | named name => name.path
  | array element => (FieldType.array element).descriptor

def className? : Mention → Option ClassName
  | named name => some name
  | array element => element.className?

end Mention

namespace MethodType

def descriptor (m : MethodType) : List Char :=
  '(' :: m.parameters.flatMap FieldType.descriptor ++ ')' ::
    (m.result.map FieldType.descriptor).getD ['V']

def resultName (m : MethodType) : String := (m.result.map FieldType.sourceName).getD "void"

end MethodType

/-! ## Reading descriptors -/

def Primitive.base : Primitive → BaseType
  | boolean => .boolean
  | byte => .byte
  | char => .char
  | short => .short
  | int => .int
  | long => .long
  | float => .float
  | double => .double

namespace FieldType

/-- What a reader of descriptors gives for a type. -/
def parsed : FieldType → TypeDescriptor
  | primitive p => ⟨0, p.base⟩
  | object name => ⟨0, .object name.path⟩
  | array element => ⟨element.parsed.dimensions + 1, element.parsed.base⟩

theorem read?_bracket (s : List Char) :
    TypeDescriptor.read? ('[' :: s) =
      (TypeDescriptor.read? s).map fun (t, rest) => (⟨t.dimensions + 1, t.base⟩, rest) := by
  simp [TypeDescriptor.read?, Function.comp_def]

theorem read?_object (name : ClassName) (rest : List Char) :
    TypeDescriptor.read? ('L' :: (name.path ++ ';' :: rest)) =
      some (⟨0, .object name.path⟩, rest) := by
  have hsemicolon : ';' ∉ name.path := fun h => (name.of_mem h).2.1 rfl
  have hfirst : splitFirst ';' (name.path ++ ';' :: rest) = some (name.path, rest) :=
    splitFirst_eq_some_iff.2 ⟨rfl, hsemicolon⟩
  simp [TypeDescriptor.read?, BaseType.read?, hfirst]

theorem read?_descriptor (t : FieldType) (rest : List Char) :
    TypeDescriptor.read? (t.descriptor ++ rest) = some (t.parsed, rest) := by
  induction t with
  | primitive p => cases p <;> rfl
  | object name =>
      have hshape : (object name).descriptor ++ rest = 'L' :: (name.path ++ ';' :: rest) := by
        simp [descriptor]
      rw [hshape, read?_object]
      rfl
  | array element ih =>
      rw [descriptor, List.cons_append, read?_bracket, ih]
      rfl

theorem read?_whole (t : FieldType) : TypeDescriptor.read? t.descriptor = some (t.parsed, []) := by
  have h := t.read?_descriptor []
  rwa [List.append_nil] at h

theorem sourceName_parsed (t : FieldType) : t.parsed.sourceName = t.sourceName := by
  induction t with
  | primitive p => cases p <;> rfl
  | object name =>
      simp [parsed, sourceName, TypeDescriptor.sourceName, BaseType.sourceName, ClassName.dotted,
        exchange]
  | array element ih =>
      rw [sourceName, ← ih]
      simp [parsed, TypeDescriptor.sourceName, List.replicate_succ', String.append_assoc]

theorem head?_descriptor_ne (t : FieldType) (rest : List Char) :
    (t.descriptor ++ rest).head? ≠ some ')' := by
  cases t with
  | primitive p => cases p <;> simp [descriptor, Primitive.letter]
  | object name => simp [descriptor]
  | array element => simp [descriptor]

theorem readParameters?_descriptor (t : FieldType) (rest : List Char) :
    MethodDescriptor.readParameters? (t.descriptor ++ rest) =
      (MethodDescriptor.readParameters? rest).map fun (others, rest) =>
        (t.parsed :: others, rest) := by
  have hread := t.read?_descriptor rest
  have hne := t.head?_descriptor_ne rest
  generalize t.descriptor ++ rest = s at hread hne
  rw [MethodDescriptor.readParameters?.eq_def]
  split
  · exact absurd rfl hne
  · split
    · next hnone =>
        rw [hread] at hnone
        cases hnone
    · next first after hsome =>
        rw [hread] at hsome
        cases hsome
        rfl

theorem readParameters?_flatMap (ts : List FieldType) (rest : List Char) :
    MethodDescriptor.readParameters? (ts.flatMap descriptor ++ ')' :: rest) =
      some (ts.map parsed, rest) := by
  induction ts with
  | nil => simp [MethodDescriptor.readParameters?]
  | cons t ts ih =>
      rw [List.flatMap_cons, List.append_assoc, readParameters?_descriptor, ih]
      rfl

end FieldType

namespace MethodType

def parsed (m : MethodType) : MethodDescriptor :=
  ⟨m.parameters.map FieldType.parsed, (m.result.map FieldType.parsed).getD ⟨0, .void⟩⟩

theorem read?_descriptor (m : MethodType) :
    MethodDescriptor.read? m.descriptor = some m.parsed := by
  have hresult : TypeDescriptor.read? ((m.result.map FieldType.descriptor).getD ['V']) =
      some (m.parsed.result, []) := by
    cases hr : m.result with
    | none => simp [parsed, hr]; rfl
    | some t => simp [parsed, hr, t.read?_whole]
  simp [descriptor, MethodDescriptor.read?, FieldType.readParameters?_flatMap, hresult, parsed]

theorem sourceName_result (m : MethodType) : m.parsed.result.sourceName = m.resultName := by
  cases hr : m.result with
  | none => simp [parsed, resultName, hr]; rfl
  | some t => simp [parsed, resultName, hr, t.sourceName_parsed]

theorem sourceName_parameters (m : MethodType) :
    m.parsed.parameters.map TypeDescriptor.sourceName =
      m.parameters.map FieldType.sourceName := by
  simp [parsed, FieldType.sourceName_parsed]

end MethodType

/-! ## The class behind a type -/

theorem exchange_exchange {s : List Char} (h : '.' ∉ s) :
    exchange '.' '/' (exchange '/' '.' s) = s := by
  induction s with
  | nil => rfl
  | cons c s ih =>
      have hc : c ≠ '.' := fun hc => h (by simp [hc])
      have hs : '.' ∉ s := fun hs => h (by simp [hs])
      have ih' := ih hs
      simp only [exchange, List.map_cons, List.map_map, List.cons.injEq] at ih' ⊢
      refine ⟨?_, ih'⟩
      by_cases hslash : c = '/'
      · simp [hslash]
      · simp [hslash, hc]

namespace ClassName

theorem mem_toList_dotted {n : ClassName} {c : Char} (h : c ∈ n.dotted.toList) :
    c = '.' ∨ c ∈ n.path := by
  rw [dotted, String.toList_ofList, List.mem_map] at h
  obtain ⟨d, hd, rfl⟩ := h
  by_cases hslash : d = '/'
  · simp [hslash]
  · simp [hslash, hd]

theorem not_blank_dotted (n : ClassName) : ∀ c ∈ n.dotted.toList, isBlank c = false := by
  intro c hc
  rcases mem_toList_dotted hc with rfl | hc
  · decide
  · exact (n.of_mem hc).2.2.2

theorem bracket_not_mem_dotted (n : ClassName) : ∀ c ∈ n.dotted.toList, (c != '[') = true := by
  intro c hc
  rcases mem_toList_dotted hc with rfl | hc
  · decide
  · simpa using (n.of_mem hc).2.2.1

theorem dotted_not_primitive (n : ClassName) : n.dotted ∉ primitiveTypes := by
  intro h
  have hwords : ∀ word ∈ primitiveTypes, '.' ∉ word.toList := by decide
  have hslash : '/' ∉ n.path := by
    intro hmem
    apply hwords n.dotted h
    rw [dotted, String.toList_ofList, List.mem_map]
    exact ⟨'/', hmem, by simp⟩
  have hkeep : ∀ c ∈ n.path, (if c = '/' then '.' else c) = c := by
    intro c hc
    have hne : c ≠ '/' := fun he => hslash (he ▸ hc)
    exact if_neg hne
  have hsame : (n.path.map fun c => if c = '/' then '.' else c) = n.path :=
    (List.map_congr_left hkeep).trans (List.map_id n.path)
  rw [dotted, hsame] at h
  exact n.not_primitive h

theorem referenceTypeName?_dotted (n : ClassName) :
    referenceTypeName? n.dotted = some n.dotted := by
  have hne : n.dotted ≠ "" := by
    intro h
    have hlist := congrArg String.toList h
    rw [dotted, String.toList_ofList] at hlist
    exact n.nonempty (by simpa using hlist)
  have hwhole : n.dotted.toList.takeWhile (· != '[') = n.dotted.toList :=
    List.takeWhile_eq_self_iff.2 n.bracket_not_mem_dotted
  simp only [referenceTypeName?, hwhole, trim_of_not_blank n.not_blank_dotted, String.ofList_toList]
  simp [hne, n.dotted_not_primitive]

end ClassName

namespace FieldType

theorem referenceTypeName?_brackets (s : String) :
    referenceTypeName? (s ++ "[]") = referenceTypeName? s := by
  have hsame : (s ++ "[]").toList.takeWhile (· != '[') = s.toList.takeWhile (· != '[') := by
    simp only [String.toList_append, List.takeWhile_append]
    split
    · next hlength => simp [(List.takeWhile_prefix _).eq_of_length hlength]
    · rfl
  simp only [referenceTypeName?, hsame]

theorem referenceTypeName?_sourceName (t : FieldType) :
    referenceTypeName? t.sourceName = t.className?.map ClassName.dotted := by
  induction t with
  | primitive p => cases p <;> decide
  | object name => exact name.referenceTypeName?_dotted
  | array element ih => rw [sourceName, referenceTypeName?_brackets, ih, className?]

theorem dot_not_mem_descriptor (t : FieldType) : '.' ∉ t.descriptor := by
  induction t with
  | primitive p => cases p <;> decide
  | object name =>
      have hname : '.' ∉ name.path := fun h => (name.of_mem h).1 rfl
      simp [descriptor, hname]
  | array element ih => simp [descriptor, ih]

end FieldType

end ClassUniverse.ClassFile
