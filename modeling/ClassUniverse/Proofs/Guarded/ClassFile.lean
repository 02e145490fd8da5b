import ClassUniverse.Proofs.Guarded.Constants

/-!
# Reading a class file at places

A class file is read by a cursor that looks each index up as soon as it has read it, and cuts
descriptors at places.  The cursor never faults, and gives the definition that the layout of the
file gives when all indices are looked up in the end.
-/

namespace ClassUniverse.ClassFile

open Text Guarded

variable {table : ConstantTable}

/-! ## Attributes -/

namespace Attribute

/-- The text that the two bytes of an attribute lead to when it names the source file. -/
def sourceFile (table : ConstantTable) (name : String) (body : List UInt8) :
    Guarded (Option String) :=
  if name = "SourceFile" ∧ body.length = 2 then do
    let high ← item body 0
    let low ← item body 1
    return (table.text? (high.toNat * 256 + low.toNat)).map String.ofList
  else return none

def cursor (table : ConstantTable) : Cursor (String × Option String) := do
  let index ← Cursor.u16
  let text ← Cursor.guarded (ofOption (table.text? index))
  let length ← Cursor.u32
  let body ← Cursor.take length
  let value ← Cursor.guarded (sourceFile table (String.ofList text) body)
  return (String.ofList text, value)

def cursors (table : ConstantTable) : Cursor (List (String × Option String)) := do
  let count ← Cursor.u16
  Cursor.guarded (room (count * 64))
  Cursor.times (cursor table) count

/-- The text that an attribute leads to, by the shape of its bytes. -/
def target? (table : ConstantTable) (name : String) (body : List UInt8) : Option String :=
  match name, body with
  | "SourceFile", [high, low] => (table.text? (high.toNat * 256 + low.toNat)).map String.ofList
  | _, _ => none

theorem target?_of_other {name : String} {body : List UInt8}
    (other : ∀ high low, name = "SourceFile" → body = [high, low] → False) :
    target? table name body = none := by
  unfold target?
  split
  · exact absurd rfl (other _ _ rfl)
  · rfl

theorem sourceFile_eq (table : ConstantTable) (name : String) (body : List UInt8) :
    sourceFile table name body = pure (target? table name body) := by
  unfold sourceFile
  split
  · rename_i h
    obtain ⟨rfl, two⟩ := h
    obtain ⟨high, low, rfl⟩ := List.length_eq_two.mp two
    rfl
  · rename_i h
    rw [target?_of_other]
    rintro high low rfl rfl
    exact h ⟨rfl, rfl⟩

theorem reading?_eq (a : Attribute) : a.reading? table = (table.text? a.name).map fun text =>
    (String.ofList text, target? table (String.ofList text) a.body) := by
  rw [reading?]
  cases table.text? a.name with
  | none => rfl
  | some text =>
      simp only [Option.bind_eq_bind, Option.bind_some, Option.map_some]
      split
      · rename_i named pair
        rw [named, pair]
        rfl
      · rename_i other
        rw [target?_of_other other]
        rfl

theorem follows_cursor (table : ConstantTable) :
    Follows (cursor table) (read >>= fun a => Reader.ofOption (a.reading? table)) := by
  have eager : (read >>= fun a => Reader.ofOption (a.reading? table)) = (do
      let index ← Reader.u16
      let text ← Reader.ofOption (table.text? index)
      let length ← Reader.u32
      let body ← Reader.bytes length
      return (String.ofList text, target? table (String.ofList text) body)) := by
    simp only [read, reading?_eq, Reader.ofOption_map, bind_assoc, pure_bind,
      Reader.ofOption_comm _ Reader.u32, Reader.ofOption_comm _ (Reader.bytes _)]
  rw [eager]
  refine Follows.u16.bind fun index _ => ?_
  refine (Follows.guarded rfl).bind fun text _ => ?_
  refine Follows.u32.bind fun length given => ?_
  refine (Follows.take (Reader.lt_of_gives_u32 given)).bind fun body _ => ?_
  exact Follows.skip (sourceFile_eq table _ body) (Follows.pure _)

theorem follows_cursors (table : ConstantTable) : Follows (cursors table)
    (Reader.counted read >>= fun attributes =>
      Reader.ofOption (attributes.mapM (reading? table))) := by
  rw [← Reader.counted_ofOption]
  refine Follows.u16.bind fun count given => ?_
  have small := Reader.lt_of_gives_u16 given
  exact Follows.skip (room_eq (by omega)) ((follows_cursor table).times count)

end Attribute

/-! ## Members -/

namespace Member

def fieldCursor (table : ConstantTable) : Cursor FieldDefinition := do
  let access ← Cursor.u16
  let index ← Cursor.u16
  let name ← Cursor.guarded (ofOption (table.text? index))
  let index ← Cursor.u16
  let descriptor ← Cursor.guarded (ofOption (table.text? index))
  let (type, _) ← Cursor.guarded (TypeDescriptor.cut descriptor)
  let _ ← Attribute.cursors table
  return {
    name := String.ofList name
    typeName := type
    modifiers := modifiersOf access }

def methodCursor (table : ConstantTable) : Cursor MethodDefinition := do
  let access ← Cursor.u16
  let index ← Cursor.u16
  let name ← Cursor.guarded (ofOption (table.text? index))
  let index ← Cursor.u16
  let descriptor ← Cursor.guarded (ofOption (table.text? index))
  let (parameters, result) ← Cursor.guarded (MethodDescriptor.cut descriptor)
  let attributes ← Attribute.cursors table
  return {
    name := String.ofList name
    parameterTypes := parameters
    returnType := result
    modifiers := modifiersOf access
    hasBody := attributes.any fun (name, _) => name == "Code" }

/-- The attributes of a member are looked up at once when they are read. -/
abbrev readings (table : ConstantTable) : Reader (List (String × Option String)) :=
  Reader.counted Attribute.read >>= fun attributes =>
    Reader.ofOption (attributes.mapM (Attribute.reading? table))

/-- A member of any kind is followed when its descriptor is cut as it is read. -/
theorem follows_member {α β γ : Type} {cut : List Char → Guarded γ} {read? : List Char → Option α}
    {form : α → γ} (short : table.IsShort)
    (cut_eq : ∀ {s}, IsCuttable s → cut s = ofOption ((read? s).map form))
    (finish : Nat → List Char → γ → List (String × Option String) → β) :
    Follows
      (do
        let access ← Cursor.u16
        let index ← Cursor.u16
        let name ← Cursor.guarded (ofOption (table.text? index))
        let index ← Cursor.u16
        let descriptor ← Cursor.guarded (ofOption (table.text? index))
        let types ← Cursor.guarded (cut descriptor)
        let attributes ← Attribute.cursors table
        return finish access name types attributes)
      (do
        let access ← Reader.u16
        let index ← Reader.u16
        let name ← Reader.ofOption (table.text? index)
        let index ← Reader.u16
        let descriptor ← Reader.ofOption (table.text? index)
        let types ← Reader.ofOption (read? descriptor)
        let attributes ← readings table
        return finish access name (form types) attributes) := by
  refine Follows.u16.bind fun access _ => ?_
  refine Follows.u16.bind fun index _ => ?_
  refine Follows.lookUp fun name _ => ?_
  refine Follows.u16.bind fun index' _ => ?_
  refine Follows.lookUp fun descriptor found => ?_
  have cuttable := short.texts index' descriptor found
  refine Follows.look (cut_eq cuttable) fun types _ => ?_
  exact (Attribute.follows_cursors table).bind fun _ _ => Follows.pure _

theorem follows_fieldCursor (short : table.IsShort) :
    Follows (fieldCursor table) (read >>= fun m => Reader.ofOption (m.field? table)) := by
  have eager : (read >>= fun m => Reader.ofOption (m.field? table)) = (do
      let access ← Reader.u16
      let index ← Reader.u16
      let name ← Reader.ofOption (table.text? index)
      let index ← Reader.u16
      let descriptor ← Reader.ofOption (table.text? index)
      let type ← Reader.ofOption (TypeDescriptor.read? descriptor)
      let _ ← readings table
      return {
        name := String.ofList name
        typeName := type.1.sourceName
        modifiers := modifiersOf access }) := by
    simp only [read, field?, readings, Option.bind_eq_bind, Option.pure_def, Reader.ofOption_bind,
      Reader.ofOption_some, bind_assoc, pure_bind, Reader.ofOption_comm _ Reader.u16,
      Reader.ofOption_comm _ (Reader.counted Attribute.read)]
  rw [eager]
  have followed := follows_member short TypeDescriptor.cut_eq fun access name types _ =>
    ({ name := String.ofList name
       typeName := types.1
       modifiers := modifiersOf access } : FieldDefinition)
  exact followed

theorem follows_methodCursor (short : table.IsShort) :
    Follows (methodCursor table) (read >>= fun m => Reader.ofOption (m.method? table)) := by
  have eager : (read >>= fun m => Reader.ofOption (m.method? table)) = (do
      let access ← Reader.u16
      let index ← Reader.u16
      let name ← Reader.ofOption (table.text? index)
      let index ← Reader.u16
      let descriptor ← Reader.ofOption (table.text? index)
      let types ← Reader.ofOption (MethodDescriptor.read? descriptor)
      let attributes ← readings table
      return {
        name := String.ofList name
        parameterTypes := types.parameters.map TypeDescriptor.sourceName
        returnType := types.result.sourceName
        modifiers := modifiersOf access
        hasBody := attributes.any fun (name, _) => name == "Code" }) := by
    simp only [read, method?, readings, Option.bind_eq_bind, Option.pure_def, Reader.ofOption_bind,
      Reader.ofOption_some, bind_assoc, pure_bind, Reader.ofOption_comm _ Reader.u16,
      Reader.ofOption_comm _ (Reader.counted Attribute.read)]
  rw [eager]
  have followed := follows_member short MethodDescriptor.cut_eq fun access name types attributes =>
    ({ name := String.ofList name
       parameterTypes := types.1
       returnType := types.2
       modifiers := modifiersOf access
       hasBody := attributes.any fun (name, _) => name == "Code" } : MethodDefinition)
  exact followed

end Member

/-! ## Classes that the constants mention -/

/-- The class that the name of a class constant mentions. -/
def mention (name : List Char) : Guarded (Option String) :=
  if name.head? = some '[' then do
    let found ← attempt (TypeDescriptor.cut (exchange '.' '/' name))
    return found.bind fun (type, _) => referenceTypeName? type
  else return some (String.ofList name)

/-- The classes that are mentioned from an index on, apart from the declared ones and the class
itself, each at its first mention.  An index is cut to 16 bits. -/
def mentionsFrom (table : ConstantTable) (declared : List Nat) (own : String) :
    (remaining index : Nat) → List String → Guarded (List String)
  | 0, _, found => pure found
  | remaining + 1, index, found => do
      let place := index % 2 ^ 16
      if declared.contains place then mentionsFrom table declared own remaining (index + 1) found
      else
        match table.className? place with
        | none => mentionsFrom table declared own remaining (index + 1) found
        | some name => do
            let mentioned ← mention name
            let found := match mentioned with
              | some c => if c != own then appendNew found c else found
              | none => found
            mentionsFrom table declared own remaining (index + 1) found

theorem mention_eq {name : List Char} (h : IsCuttable (exchange '.' '/' name)) :
    mention name = pure (Layout.mentioned? name) := by
  unfold mention Layout.mentioned?
  cases name with
  | nil => rfl
  | cons c name =>
      by_cases array : c = '['
      · subst array
        rw [List.head?_cons, if_pos rfl, TypeDescriptor.cut_eq h, attempt_ofOption, pure_bind]
        dsimp only
        cases TypeDescriptor.read? (exchange '.' '/' ('[' :: name)) <;> rfl
      · rw [List.head?_cons, if_neg fun same => array (Option.some.inj same)]
        split
        · rename_i same
          exact absurd (List.cons.inj same).1 array
        · rfl

theorem mentionsFrom_eq (short : table.IsShort) (declared : List Nat) (own : String)
    {remaining index : Nat} (inside : index + remaining ≤ table.size) (found : List String) :
    mentionsFrom table declared own remaining index found =
      pure ((((((List.range' index remaining).filter fun i => !declared.contains i).filterMap
        fun i => (table.className? i).bind Layout.mentioned?).filter (· != own)).foldl
          appendNew found)) := by
  induction remaining generalizing index found with
  | zero => rfl
  | succ remaining ih =>
      have beyond : index + 1 + remaining ≤ table.size := by omega
      have later := ih beyond
      have size := short.size
      have place : index % 2 ^ 16 = index := Nat.mod_eq_of_lt (by omega)
      rw [mentionsFrom, place, List.range'_succ]
      by_cases known : index ∈ declared
      · simp [known, later]
      cases named : table.className? index with
      | none => simp [known, named, later]
      | some name =>
          have mentioned := mention_eq (short.className named)
          cases same : Layout.mentioned? name with
          | none => simp [known, named, mentioned, same, later]
          | some c =>
              by_cases other : c = own
              · simp [known, named, mentioned, same, other, later]
              · simp [known, named, mentioned, same, other, later]

/-! ## Definitions -/

/-- The name of a superclass, which index zero stands for none. -/
def superclassAt? (table : ConstantTable) (index : Nat) : Option (Option String) :=
  if index = 0 then some none
  else (table.className? index).map fun name => some (String.ofList name)

/-- An interface with its index. -/
def interfaceAt? (table : ConstantTable) (index : Nat) : Option (Nat × List Char) :=
  (table.className? index).map fun name => (index, name)

/-- Reads the definition in a class file. -/
def cursor : Cursor ClassDefinition := do
  let found ← Cursor.u32
  if found ≠ magic then Cursor.guarded (ofOption none)
  let _ ← Cursor.take 4
  let table ← ConstantTable.cursor
  let access ← Cursor.u16
  let thisClass ← Cursor.u16
  let name ← Cursor.guarded (ofOption (table.className? thisClass))
  let index ← Cursor.u16
  let superclass ← Cursor.guarded (ofOption (superclassAt? table index))
  let interfaces ← Cursor.counted do
    let index ← Cursor.u16
    Cursor.guarded (ofOption (interfaceAt? table index))
  let fields ← Cursor.counted (Member.fieldCursor table)
  let methods ← Cursor.counted (Member.methodCursor table)
  let attributes ← Attribute.cursors table
  let own := String.ofList name
  let mentions ← Cursor.guarded (mentionsFrom table (thisClass :: index :: interfaces.map Prod.fst)
    own table.size 0 [])
  return {
    name := own
    modifiers := modifiersOf access
    superclass := superclass
    interfaces := interfaces.map fun (_, name) => String.ofList name
    fields := fields
    methods := methods
    bodyReferences := mentions
    tags := attributes.filterMap attributeTag? }

theorem mapM_interfaceAt? (table : ConstantTable) (indices : List Nat) :
    indices.mapM (interfaceAt? table) =
      (indices.mapM table.className?).map fun names => indices.zip names := by
  induction indices with
  | nil => rfl
  | cons index indices ih =>
      rw [List.mapM_cons, List.mapM_cons, ih, interfaceAt?]
      cases table.className? index with
      | none => rfl
      | some name => cases indices.mapM table.className? <;> rfl

theorem length_of_mapM {indices : List Nat} {names : List (List Char)}
    (h : indices.mapM table.className? = some names) : names.length = indices.length := by
  induction indices generalizing names with
  | nil =>
      rw [← Option.some.inj h]
      rfl
  | cons index indices ih =>
      rw [List.mapM_cons] at h
      obtain ⟨name, -, h⟩ := Option.bind_eq_some_iff.mp h
      obtain ⟨others, later, h⟩ := Option.bind_eq_some_iff.mp h
      rw [← Option.some.inj h, List.length_cons, List.length_cons, ih later]

/-- The look-ups of a definition in their order. -/
theorem definition?_eq (l : Layout) : l.definition? =
    let table := ConstantTable.ofConstants l.constants
    (table.className? l.thisClass).bind fun name =>
    (superclassAt? table l.superclass).bind fun superclass =>
    (l.interfaces.mapM (interfaceAt? table)).bind fun interfaces =>
    (l.fields.mapM (Member.field? table)).bind fun fields =>
    (l.methods.mapM (Member.method? table)).bind fun methods =>
    (l.attributes.mapM (Attribute.reading? table)).bind fun attributes =>
    some {
      name := String.ofList name
      modifiers := modifiersOf l.access
      superclass := superclass
      interfaces := interfaces.map fun (_, name) => String.ofList name
      fields := fields
      methods := methods
      bodyReferences := firstOccurrences (((((List.range table.size).filter fun i =>
        !(l.thisClass :: l.superclass :: interfaces.map Prod.fst).contains i).filterMap
          fun i => (table.className? i).bind Layout.mentioned?).filter (· != String.ofList name)))
      tags := attributes.filterMap attributeTag? } := by
  have pairs {table : ConstantTable} {names : List (List Char)}
      (h : l.interfaces.mapM table.className? = some names) :
      (l.interfaces.zip names).map Prod.fst = l.interfaces ∧
        (l.interfaces.zip names).map (fun pair => String.ofList pair.2) =
          names.map String.ofList := by
    have same := length_of_mapM h
    have names' := congrArg (List.map String.ofList) (List.map_snd_zip same.le)
    rw [List.map_map] at names'
    exact ⟨List.map_fst_zip same.ge, names'⟩
  have later {β : Type} {table : ConstantTable} {f : List (Nat × List Char) → Option β}
      {g : List (List Char) → Option β}
      (same : ∀ names, l.interfaces.mapM table.className? = some names →
        g names = f (l.interfaces.zip names)) :
      (l.interfaces.mapM table.className?).bind g =
        (l.interfaces.mapM (interfaceAt? table)).bind f := by
    rw [mapM_interfaceAt?]
    cases h : l.interfaces.mapM table.className? with
    | none => rfl
    | some names => exact same names h
  simp only [Layout.definition?, Option.bind_eq_bind, Option.pure_def, superclassAt?]
  cases (ConstantTable.ofConstants l.constants).className? l.thisClass with
  | none => rfl
  | some name =>
      simp only [Option.bind_some]
      split
      · refine later fun names h => ?_
        obtain ⟨indices, spelled⟩ := pairs h
        rw [indices, spelled]
        rfl
      · refine Option.bind_congr fun superclass _ => later fun names h => ?_
        obtain ⟨indices, spelled⟩ := pairs h
        rw [indices, spelled]
        rfl

/-- A definition can be read with its look-ups between. -/
theorem read_definition? : (Layout.read >>= fun l => Reader.ofOption l.definition?) = (do
      let found ← Reader.u32
      if found ≠ magic then failure
      let _ ← Reader.bytes 4
      let table ← ConstantTable.read
      let access ← Reader.u16
      let thisClass ← Reader.u16
      let name ← Reader.ofOption (table.className? thisClass)
      let index ← Reader.u16
      let superclass ← Reader.ofOption (superclassAt? table index)
      let interfaces ← Reader.counted (Reader.u16 >>= fun index =>
        Reader.ofOption (interfaceAt? table index))
      let fields ← Reader.counted (Member.read >>= fun m => Reader.ofOption (m.field? table))
      let methods ← Reader.counted (Member.read >>= fun m => Reader.ofOption (m.method? table))
      let attributes ← Member.readings table
      return {
        name := String.ofList name
        modifiers := modifiersOf access
        superclass := superclass
        interfaces := interfaces.map fun (_, name) => String.ofList name
        fields := fields
        methods := methods
        bodyReferences := firstOccurrences (((((List.range table.size).filter fun i =>
          !(thisClass :: index :: interfaces.map Prod.fst).contains i).filterMap
            fun i => (table.className? i).bind Layout.mentioned?).filter
              (· != String.ofList name)))
        tags := attributes.filterMap attributeTag? }) := by
  unfold Layout.read
  rw [bind_assoc]
  refine bind_congr fun found => ?_
  split
  · rfl
  · simp only [definition?_eq, ConstantTable.read, Member.readings, Reader.counted_ofOption,
      Reader.ofOption_bind, Reader.ofOption_some, bind_assoc, pure_bind,
      Reader.ofOption_comm _ Reader.u16, Reader.ofOption_comm _ (Reader.counted Reader.u16),
      Reader.ofOption_comm _ (Reader.counted Member.read),
      Reader.ofOption_comm _ (Reader.counted Attribute.read)]

theorem follows_cursor :
    Follows cursor (Layout.read >>= fun l => Reader.ofOption l.definition?) := by
  rw [read_definition?]
  refine Follows.u32.bind fun found _ => ?_
  split
  · exact Follows.failure.bind fun _ given => absurd given Reader.not_gives_failure
  refine (Follows.take (by decide)).bind fun _ _ => ?_
  refine ConstantTable.follows_cursor.bind fun table given => ?_
  have short := ConstantTable.isShort_of_gives given
  refine Follows.u16.bind fun access _ => ?_
  refine Follows.u16.bind fun thisClass _ => ?_
  refine Follows.lookUp fun name _ => ?_
  refine Follows.u16.bind fun index _ => ?_
  refine Follows.lookUp fun superclass _ => ?_
  refine (Follows.u16.bind fun index _ => Follows.guarded rfl).counted.bind fun interfaces _ => ?_
  refine (Member.follows_fieldCursor short).counted.bind fun fields _ => ?_
  refine (Member.follows_methodCursor short).counted.bind fun methods _ => ?_
  refine (Attribute.follows_cursors table).bind fun attributes _ => ?_
  have mentioned := mentionsFrom_eq short (thisClass :: index :: interfaces.map Prod.fst)
    (String.ofList name) (Nat.zero_add table.size).le []
  exact Follows.skip mentioned (List.range_eq_range' ▸ Follows.pure _)

theorem definition?_eq_read (bytes : List UInt8) : definition? bytes =
    ((Layout.read >>= fun l => Reader.ofOption l.definition?) bytes).map Prod.fst := by
  change ((Layout.read bytes).bind fun found => found.1.definition?) =
    ((Layout.read bytes).bind fun found =>
      found.1.definition?.map fun definition => (definition, found.2)).map Prod.fst
  cases Layout.read bytes with
  | none => rfl
  | some found =>
      rw [Option.bind_some, Option.bind_some, Option.map_map]
      cases found.1.definition? <;> rfl

/-- Reads the class file of a class at places. -/
def guardedParse (name : String) (bytes : List UInt8) : Guarded (Except Error ClassDefinition) := do
  match ← attempt (cursor bytes 0) with
  | some (definition, _) => return .ok definition
  | none => return .error (.configuration (.malformedClassFile name))

/-- No class file makes the cursor fault, and it gives the definition or the error of the parser. -/
theorem guardedParse_eq (name : String) {bytes : List UInt8} (few : bytes.length < 2 ^ 63) :
    guardedParse name bytes = pure (parse name bytes) := by
  obtain ⟨o, read, same, -⟩ := follows_cursor bytes 0 few (Nat.zero_le _)
  rw [List.drop_zero] at same
  rw [guardedParse, read, attempt_ofOption, pure_bind, parse, definition?_eq_read, same]
  cases o <;> rfl

theorem parse_cases (name : String) (bytes : List UInt8) :
    (∃ definition, parse name bytes = .ok definition) ∨
      parse name bytes = .error (.configuration (.malformedClassFile name)) := by
  rw [parse]
  cases definition? bytes with
  | some definition => exact .inl ⟨definition, rfl⟩
  | none => exact .inr rfl

end ClassUniverse.ClassFile
