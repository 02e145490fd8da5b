import ClassUniverse.Proofs.Universe.Signatures

/-!
# Signatures tell members apart

A signature is put together from names, with a colon, blanks, commas and parentheses between them.
Where no name is empty or has one of these marks, the names are read off again: the class ends at
the colon, the type at the next blank, the name of a method at the parenthesis and each of its
parameters at a comma.  An empty parameter would look like none.  A field has no parenthesis, so it
never shares a signature with a method.
-/

namespace ClassUniverse

open Text

namespace Signature

/-- The characters that part the names of a signature. -/
def marks : List Char := [' ', ',', ':', '(', ')']

/-- Whether a name is not empty and has no character that parts the names of a signature. -/
@[mk_iff]
structure IsPlain (name : String) : Prop where
  nonempty : name ≠ ""
  unmarked : ∀ c ∈ marks, c ∉ name.toList

-- the marks are gone through, not all characters that there are
instance (name : String) : Decidable (IsPlain name) :=
  have : Decidable (∀ c ∈ marks, c ∉ name.toList) := List.decidableBAll _ marks
  decidable_of_iff' _ (isPlain_iff name)

variable {names others : List String}

theorem splitOn_commas (plain : ∀ name ∈ names, IsPlain name) (some : names ≠ []) :
    (String.intercalate "," names).toList.splitOn ',' = names.map String.toList := by
  rw [String.toList_intercalate]
  apply List.splitOn_intercalate
  · intro piece hp
    obtain ⟨name, hn, rfl⟩ := List.mem_map.mp hp
    exact (plain name hn).unmarked ',' (by decide)
  · simpa using some

theorem commas_eq_empty_iff (plain : ∀ name ∈ names, IsPlain name) :
    String.intercalate "," names = "" ↔ names = [] := by
  constructor
  · intro empty
    by_contra some
    have pieces := splitOn_commas plain some
    rw [empty] at pieces
    obtain ⟨name, rfl, blank⟩ := List.map_eq_singleton_iff.mp pieces.symm
    exact (plain name (List.mem_singleton_self name)).nonempty (String.toList_eq_nil_iff.mp blank)
  · rintro rfl
    rfl

/-- Plain names are read off the text that has them between commas. -/
theorem commas_inj (plain : ∀ name ∈ names, IsPlain name) (plain' : ∀ name ∈ others, IsPlain name) :
    String.intercalate "," names = String.intercalate "," others ↔ names = others := by
  refine ⟨fun same => ?_, congrArg _⟩
  by_cases none : others = []
  · subst none
    exact (commas_eq_empty_iff plain).mp same
  · have some : names ≠ [] := by
      rintro rfl
      exact none ((commas_eq_empty_iff plain').mp same.symm)
    have pieces := splitOn_commas plain some
    rw [same, splitOn_commas plain' none] at pieces
    exact (List.map_inj_right fun _ _ => String.toList_inj.mp).mp pieces.symm

example : String.intercalate "," [""] = String.intercalate "," [] := rfl

end Signature

/-! ## Subsignatures -/

/-- Whether the result type, the name and the parameter types of a method are plain. -/
@[mk_iff]
structure MethodDefinition.IsPlain (d : MethodDefinition) : Prop where
  returnType : Signature.IsPlain d.returnType
  name : Signature.IsPlain d.name
  parameterTypes : ∀ p ∈ d.parameterTypes, Signature.IsPlain p

/-- Whether the type and the name of a field are plain. -/
@[mk_iff]
structure FieldDefinition.IsPlain (d : FieldDefinition) : Prop where
  typeName : Signature.IsPlain d.typeName
  name : Signature.IsPlain d.name

instance (d : MethodDefinition) : Decidable d.IsPlain :=
  decidable_of_iff' _ (MethodDefinition.isPlain_iff d)

instance (d : FieldDefinition) : Decidable d.IsPlain :=
  decidable_of_iff' _ (FieldDefinition.isPlain_iff d)

namespace MethodDefinition

variable {d d' : MethodDefinition}

theorem toList_subsignature (d : MethodDefinition) :
    d.subsignature.toList = d.returnType.toList ++ ' ' :: (d.name.toList ++
      '(' :: ((String.intercalate "," d.parameterTypes).toList ++ [')'])) := by
  simp [subsignature]

theorem subsignature_inj (h : d.IsPlain) (h' : d'.IsPlain) :
    d.subsignature = d'.subsignature ↔
      d.returnType = d'.returnType ∧ d.name = d'.name ∧ d.parameterTypes = d'.parameterTypes := by
  have blank := h.returnType.unmarked ' ' (by decide)
  have blank' := h'.returnType.unmarked ' ' (by decide)
  have paren := h.name.unmarked '(' (by decide)
  have paren' := h'.name.unmarked '(' (by decide)
  rw [← String.toList_inj, toList_subsignature, toList_subsignature, append_sep_inj blank blank',
    append_sep_inj paren paren', List.append_left_inj, String.toList_inj, String.toList_inj,
    String.toList_inj, Signature.commas_inj h.parameterTypes h'.parameterTypes]

/-- The parameters of a method stand in parentheses, and a plain field has none. -/
theorem subsignature_ne (d : MethodDefinition) {f : FieldDefinition} (h : f.IsPlain) :
    d.subsignature ≠ f.subsignature := by
  intro same
  have paren : '(' ∈ f.subsignature.toList := by
    rw [← same, toList_subsignature]
    simp
  have inType := h.typeName.unmarked '(' (by decide)
  have inName := h.name.unmarked '(' (by decide)
  simp [FieldDefinition.subsignature, inType, inName] at paren

end MethodDefinition

/-! ## Signatures -/

/-- Whether the class and all names of a method are plain. -/
@[mk_iff]
structure Method.IsPlain (m : Method) : Prop where
  declaringClass : Signature.IsPlain m.declaringClass
  definition : m.definition.IsPlain

/-- Whether the class and all names of a field are plain. -/
@[mk_iff]
structure Field.IsPlain (f : Field) : Prop where
  declaringClass : Signature.IsPlain f.declaringClass
  definition : f.definition.IsPlain

instance (m : Method) : Decidable m.IsPlain := decidable_of_iff' _ (Method.isPlain_iff m)

instance (f : Field) : Decidable f.IsPlain := decidable_of_iff' _ (Field.isPlain_iff f)

/-- Where all names are plain, two methods have one signature exactly if they have the class, the
result type, the name and the parameter types in common, and one subsignature exactly if they have
the last three; and no method has the signature of a field. -/
theorem signatures_tell_apart {m n : Method} (hm : m.IsPlain) (hn : n.IsPlain) :
    (m.signature = n.signature ↔
      m.declaringClass = n.declaringClass ∧ m.definition.returnType = n.definition.returnType ∧
        m.definition.name = n.definition.name ∧
        m.definition.parameterTypes = n.definition.parameterTypes) ∧
    (m.subsignature = n.subsignature ↔
      m.definition.returnType = n.definition.returnType ∧
        m.definition.name = n.definition.name ∧
        m.definition.parameterTypes = n.definition.parameterTypes) ∧
    ∀ f : Field, f.IsPlain → m.signature ≠ f.signature := by
  have colon := hm.declaringClass.unmarked ':' (by decide)
  have subsignatures := MethodDefinition.subsignature_inj hm.definition hn.definition
  refine ⟨?_, subsignatures, fun f hf same => ?_⟩
  · have colon' := hn.declaringClass.unmarked ':' (by decide)
    exact (Signature.render_inj colon colon').trans (and_congr_right' subsignatures)
  · have colon' := hf.declaringClass.unmarked ':' (by decide)
    have inside := ((Signature.render_inj colon colon').mp same).2
    exact m.definition.subsignature_ne hf.definition inside

/-- Two methods that differ in their parameters alone, another method like the first one, and a
field of their name. -/
theorem signatures_tell_apart_overloads :
    let stop : Method :=
      ⟨0, "a.Pool", { name := "stop", parameterTypes := [], returnType := "int" }⟩
    let stopAll : Method :=
      ⟨1, "a.Pool", { name := "stop", parameterTypes := ["a.Task[]", "int"], returnType := "int" }⟩
    let again : Method :=
      ⟨2, "a.Pool", { name := "stop", parameterTypes := [], returnType := "int", hasBody := false }⟩
    let field : Field := ⟨0, "a.Pool", { name := "stop", typeName := "int" }⟩
    (stop.IsPlain ∧ stopAll.IsPlain ∧ again.IsPlain ∧ field.IsPlain) ∧
      stop.signature ≠ stopAll.signature ∧ stop.subsignature ≠ stopAll.subsignature ∧
      stop.signature = again.signature ∧ stop.subsignature = again.subsignature ∧
      stop.signature ≠ field.signature := by
  intro stop stopAll again field
  have plain : stop.IsPlain := by decide +kernel
  have plainAll : stopAll.IsPlain := by decide +kernel
  have plainAgain : again.IsPlain := by decide +kernel
  have plainField : field.IsPlain := by decide +kernel
  obtain ⟨signature, subsignature, apart⟩ := signatures_tell_apart plain plainAll
  obtain ⟨signature', subsignature', -⟩ := signatures_tell_apart plain plainAgain
  have differ : stop.definition.parameterTypes ≠ stopAll.definition.parameterTypes := by decide
  refine ⟨⟨plain, plainAll, plainAgain, plainField⟩, ?_, ?_, ?_, ?_, apart field plainField⟩
  · exact fun same => differ (signature.mp same).2.2.2
  · exact fun same => differ (subsignature.mp same).2.2
  · exact signature'.mpr ⟨rfl, rfl, rfl, rfl⟩
  · exact subsignature'.mpr ⟨rfl, rfl, rfl⟩

end ClassUniverse
