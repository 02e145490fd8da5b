import ClassUniverse.Proofs.ClassFile.Pool

/-!
# Class files are read as they are meant

The reader of class files gives the definition of every valid image from its bytes: no index is off
by one and no width wrong, or some name would be another's.
-/

namespace ClassUniverse.ClassFile

open Text

theorem mapM_map_of_some {α β γ : Type} {f : β → Option γ} {g : α → β} {h : α → γ} {xs : List α}
    (hsome : ∀ x ∈ xs, f (g x) = some (h x)) : (xs.map g).mapM f = some (xs.map h) := by
  induction xs with
  | nil => rfl
  | cons x xs ih =>
      have hx := hsome x List.mem_cons_self
      have hxs := ih fun y hy => hsome y (List.mem_cons_of_mem x hy)
      rw [List.map_cons, List.mapM_cons, hx, hxs]
      rfl

namespace Image

/-! ## What indices lead to -/

variable {pool : List Entry}

theorem text?_table (pool : List Entry) (index : Nat) :
    ((table pool).text? index).map String.ofList = textAt? pool index := by
  rw [ConstantTable.text?, constant?_table, textAt?]
  cases (numbered 1 pool).lookup index with
  | none => rfl
  | some e =>
      cases e with
      | utf8 t => simp [Entry.constant, t.decodeLossy_chars, PlainText.text]
      | _ => rfl

theorem text?_of_hasText {index : UInt16} {s : List Char} (h : HasText pool index s) :
    (table pool).text? index.toNat = some s := by
  rw [HasText, ← text?_table, Option.map_eq_some_iff] at h
  obtain ⟨t, ht, hsame⟩ := h
  rw [ht, String.ofList_injective hsame]

/-- The pool spells the names of its classes. -/
def SpellsClasses (pool : List Entry) : Prop :=
  ∀ r ∈ classRefs pool, HasText pool r.index r.value.spelling

theorem text?_of_classRef (spells : SpellsClasses pool) {r : Ref Mention}
    (h : .classRef r ∈ pool) : (table pool).text? r.index.toNat = some r.value.spelling :=
  text?_of_hasText (spells r (List.mem_filterMap.2 ⟨_, h, rfl⟩))

theorem exists_of_mentionAt? {index : Nat} {m : Mention} (h : mentionAt? pool index = some m) :
    ∃ r : Ref Mention, (index, .classRef r) ∈ numbered 1 pool ∧ r.value = m := by
  rw [mentionAt?] at h
  split at h
  · next r hlookup => exact ⟨r, mem_of_lookup hlookup, Option.some.inj h⟩
  · nomatch h

theorem className?_of_hasClass (spells : SpellsClasses pool) {r : Ref ClassName}
    (h : HasClass pool r) :
    (table pool).className? r.index.toNat = some r.value.dotted.toList := by
  obtain ⟨m, hmem, hvalue⟩ := exists_of_mentionAt? h
  have htext := text?_of_classRef spells (mem_of_mem_numbered hmem)
  simp only [ConstantTable.className?, constant?_table, lookup_of_mem hmem, Option.map_some,
    Entry.constant, htext, hvalue, ClassName.dotted, String.toList_ofList]
  rfl

/-! ## Attributes and members -/

/-- What a reader keeps of an attribute: its name and, of one that names the source file, the text
that it leads to. -/
def Attribute.reading (pool : List Entry) (a : Attribute) : String × Option String :=
  (a.name.value.text, if a.name.value.text = "SourceFile" then a.target? pool else none)

theorem reading?_layout {a : Attribute} (valid : a.IsValid pool) :
    a.layout.reading? (table pool) = some (a.reading pool) := by
  have hname := text?_of_hasText valid.name
  have htext : String.ofList a.name.value.chars = a.name.value.text := rfl
  simp only [Attribute.layout, ClassFile.Attribute.reading?, hname, Option.bind_eq_bind,
    Option.bind_some, htext, Attribute.reading, Attribute.target?]
  split
  · next high low hsource hbody =>
      rw [if_pos hsource, hbody, text?_table]
      rfl
  · next hother =>
      split
      · next hsource =>
          split
          · next high low hbody => exact absurd hbody (hother high low hsource)
          · rfl
      · rfl

theorem readings_layout {attributes : List Attribute} (valid : ∀ a ∈ attributes, a.IsValid pool) :
    (attributes.map Attribute.layout).mapM (ClassFile.Attribute.reading? (table pool)) =
      some (attributes.map (Attribute.reading pool)) :=
  mapM_map_of_some fun a ha => reading?_layout (valid a ha)

theorem attributeTag?_reading (a : Attribute) : attributeTag? (a.reading pool) = a.tag? pool := by
  rw [Attribute.reading, Attribute.tag?]
  by_cases hsource : a.name.value.text = "SourceFile"
  · rw [hsource]
    cases a.target? pool <;> rfl
  · rw [if_neg hsource, if_neg hsource]
    by_cases hdeprecated : a.name.value.text = "Deprecated"
    · rw [hdeprecated]
      rfl
    · rw [if_neg hdeprecated]
      unfold attributeTag?
      split <;> simp_all

theorem field?_layout {m : Member FieldType} (valid : m.IsValid pool FieldType.descriptor) :
    m.layout.field? (table pool) = some m.field := by
  have hname := text?_of_hasText valid.name
  have htype := text?_of_hasText valid.type
  have hread := m.type.value.read?_whole
  have hattributes := readings_layout valid.attributes
  simp only [ClassFile.Member.field?, Member.layout, hname, htype, hread, hattributes,
    Option.bind_eq_bind, Option.bind_some, FieldType.sourceName_parsed]
  simp [Member.field, PlainText.text, modifiersOf]

theorem method?_layout {m : Member MethodType} (valid : m.IsValid pool MethodType.descriptor) :
    m.layout.method? (table pool) = some m.method := by
  have hname := text?_of_hasText valid.name
  have htype := text?_of_hasText valid.type
  have hattributes := readings_layout valid.attributes
  simp only [ClassFile.Member.method?, Member.layout, hname, htype, MethodType.read?_descriptor,
    hattributes, Option.bind_eq_bind, Option.bind_some, MethodType.sourceName_parameters,
    MethodType.sourceName_result, List.any_map]
  simp [Member.method, PlainText.text, modifiersOf, Function.comp_def, Attribute.reading]

/-! ## Mentions -/

theorem mentioned?_of_ne {s : List Char} (h : s.head? ≠ some '[') :
    Layout.mentioned? s = some (String.ofList s) := by
  unfold Layout.mentioned?
  split
  · exact absurd rfl h
  · rfl

theorem mentioned?_spelling (m : Mention) :
    Layout.mentioned? (exchange '/' '.' m.spelling) = m.className?.map ClassName.dotted := by
  cases m with
  | named name =>
      have hhead : (exchange '/' '.' name.path).head? ≠ some '[' := by
        intro h
        have hmem := List.mem_of_mem_head? h
        rw [← String.toList_ofList (l := exchange '/' '.' name.path)] at hmem
        simpa using name.bracket_not_mem_dotted '[' hmem
      exact mentioned?_of_ne hhead
  | array element =>
      have hback := exchange_exchange (FieldType.array element).dot_not_mem_descriptor
      show (TypeDescriptor.read? (exchange '.' '/' (exchange '/' '.'
        (FieldType.array element).descriptor))).bind
          (fun read => referenceTypeName? read.1.sourceName) = _
      rw [hback, FieldType.read?_whole, Option.bind_some, FieldType.sourceName_parsed,
        FieldType.referenceTypeName?_sourceName]
      rfl

theorem mem_declared (c : Image) {index : Nat} (h : 0 < index) :
    index ∈ c.layout.declared ↔ index ∈ c.declared := by
  simp only [Layout.declared, layout, declared, supertypes, List.map_cons, List.map_append,
    List.mem_cons, List.mem_append]
  cases hsuper : c.superclass with
  | none => simp [Nat.ne_of_gt h]
  | some r => simp

/-- The class that a reader finds at a place of the table, unless the index is declared. -/
def found? (c : Image) (k : Option Constant) (index : Nat) : Option String :=
  if !c.layout.declared.contains index then
    (match k with
      | some (.classRef name) => ((table c.pool).text? name).map (exchange '/' '.')
      | _ => none).bind Layout.mentioned?
  else none

theorem found?_constant {c : Image} (valid : c.IsValid) {index : Nat} {e : Entry}
    (h : (index, e) ∈ numbered 1 c.pool) :
    c.found? (some e.constant) index = (c.addition? index e).map ClassName.dotted := by
  cases e with
  | classRef r =>
      have hdeclared := mem_declared c (le_of_mem_numbered h)
      have htext := text?_of_classRef valid.pool (mem_of_mem_numbered h)
      by_cases hmem : index ∈ c.declared
      · simp [found?, addition?, hdeclared, hmem]
      · simp [found?, addition?, hdeclared, hmem, Entry.constant, htext, mentioned?_spelling]
  | _ => simp [found?, addition?, Entry.constant]

theorem mentions_layout {c : Image} (valid : c.IsValid) :
    c.layout.mentions (table c.pool) = c.additions.map ClassName.dotted := by
  rw [Layout.mentions, List.filterMap_filter, additions, List.map_filterMap]
  calc _
      _ = (numbered 1 c.pool).filterMap fun entry => c.found? (some entry.2.constant) entry.1 :=
        filterMap_range_table (fun index => by simp [found?]) c.pool
      _ = _ := List.filterMap_congr fun entry hentry => found?_constant valid hentry

/-! ## The definition -/

theorem index_ne_zero {r : Ref ClassName} (h : HasClass pool r) : r.index.toNat ≠ 0 := by
  obtain ⟨m, hmem, -⟩ := exists_of_mentionAt? h
  exact Nat.ne_of_gt (le_of_mem_numbered hmem)

/-- The reader goes on with the superclass, or with none at index zero. -/
theorem bind_superclass {c : Image} (valid : c.IsValid) {β : Type}
    (k : Option String → Option β) :
    (if c.layout.superclass = 0 then (pure none : Option (Option String)).bind k
      else (((table c.pool).className? c.layout.superclass).map fun name =>
        some (String.ofList name)).bind k) = k (c.superclass.map fun r => r.value.dotted) := by
  cases hsuper : c.superclass with
  | none => simp [layout, hsuper]
  | some r =>
      have hclass : HasClass c.pool r := valid.supertypes r (by simp [supertypes, hsuper])
      have hname := className?_of_hasClass valid.pool hclass
      simp [layout, hsuper, index_ne_zero hclass, hname]

theorem definition?_layout {c : Image} (valid : c.IsValid) :
    c.layout.definition? = some c.definition := by
  have hname := className?_of_hasClass valid.pool valid.thisClass
  have hinterfaces : c.layout.interfaces.mapM (table c.pool).className? =
      some (c.interfaces.map fun r => r.value.dotted.toList) :=
    mapM_map_of_some fun r hr =>
      className?_of_hasClass valid.pool (valid.supertypes r (by simp [supertypes, hr]))
  have hfields : c.layout.fields.mapM (ClassFile.Member.field? (table c.pool)) =
      some (c.fields.map Member.field) :=
    mapM_map_of_some fun m hm => field?_layout (valid.fields m hm)
  have hmethods : c.layout.methods.mapM (ClassFile.Member.method? (table c.pool)) =
      some (c.methods.map Member.method) :=
    mapM_map_of_some fun m hm => method?_layout (valid.methods m hm)
  have hattributes : c.layout.attributes.mapM (ClassFile.Attribute.reading? (table c.pool)) =
      some (c.attributes.map (Attribute.reading c.pool)) :=
    readings_layout valid.attributes
  have htable : ConstantTable.ofConstants c.layout.constants = table c.pool := rfl
  have hthis : (table c.pool).className? c.layout.thisClass =
      some c.thisClass.value.dotted.toList := hname
  simp only [Layout.definition?, htable, hthis, hinterfaces, hfields, hmethods, hattributes,
    mentions_layout valid, Option.bind_eq_bind, Option.bind_some]
  rw [bind_superclass valid]
  simp [definition, layout, modifiersOf, Function.comp_def, firstOccurrences_eq_eraseDups,
    attributeTag?_reading]

/-- A reader of class files that is given the bytes of a valid image gives what the image says of
its class, whatever the name that it was asked for. -/
theorem parse_bytes {c : Image} (valid : c.IsValid) (name : String) :
    parse name c.bytes = .ok c.definition := by
  have hread : ClassFile.definition? c.bytes = some c.definition := by
    rw [ClassFile.definition?, (reads_layout valid).run, Option.bind_eq_bind, Option.bind_some]
    exact definition?_layout valid
  rw [parse, hread]

/-! ## One image

A wide constant comes first, a name goes beyond ASCII, and a class constant is an array. -/

def taskName : ClassName := ⟨"p/Task".toList, by decide, by decide, by decide⟩

def objectName : ClassName := ⟨"java/lang/Object".toList, by decide, by decide, by decide⟩

def itemArray : FieldType :=
  .array (.object ⟨"p/Item".toList, by decide, by decide, by decide⟩)

def runType : MethodType := ⟨[itemArray, .primitive .long], none⟩

def task : Image where
  minor := 0
  major := 52
  pool :=
    [.long 7,
      .utf8 ⟨taskName.path, by decide, by decide⟩, .classRef ⟨3, .named taskName⟩,
      .utf8 ⟨objectName.path, by decide, by decide⟩, .classRef ⟨5, .named objectName⟩,
      .utf8 ⟨itemArray.array.descriptor, by decide, by decide⟩, .classRef ⟨7, .array itemArray⟩,
      .utf8 ⟨"größe".toList, by decide, by decide⟩,
      .utf8 ⟨"run".toList, by decide, by decide⟩,
      .utf8 ⟨runType.descriptor, by decide, by decide⟩,
      .utf8 ⟨"Code".toList, by decide, by decide⟩,
      .utf8 ⟨"SourceFile".toList, by decide, by decide⟩,
      .utf8 ⟨"Task.java".toList, by decide, by decide⟩]
  access := 0x21
  thisClass := ⟨4, taskName⟩
  superclass := some ⟨6, objectName⟩
  interfaces := []
  fields := [⟨2, ⟨9, ⟨"größe".toList, by decide, by decide⟩⟩, ⟨7, itemArray.array⟩, []⟩]
  methods :=
    [⟨1, ⟨10, ⟨"run".toList, by decide, by decide⟩⟩, ⟨11, runType⟩,
      [⟨⟨12, ⟨"Code".toList, by decide, by decide⟩⟩, [0]⟩]⟩]
  attributes := [⟨⟨13, ⟨"SourceFile".toList, by decide, by decide⟩⟩, [0, 14]⟩]

theorem parse_bytes_task :
    task.IsValid ∧ parse "p.Task" task.bytes = .ok {
      name := "p.Task"
      modifiers := ⟨0x21⟩
      superclass := some "java.lang.Object"
      fields := [{ name := "größe", typeName := "p.Item[][]", modifiers := ⟨2⟩ }]
      methods :=
        [{ name := "run", parameterTypes := ["p.Item[]", "long"], returnType := "void",
           modifiers := ⟨1⟩, hasBody := true }]
      bodyReferences := ["p.Item"]
      tags := [.sourceFile "Task.java"] } := by
  have valid : task.IsValid := by decide +kernel
  refine ⟨valid, (parse_bytes valid "p.Task").trans (congrArg Except.ok ?_)⟩
  decide +kernel

end Image

end ClassUniverse.ClassFile
