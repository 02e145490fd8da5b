import ClassUniverse.Proofs.Name.Quoting
import ClassUniverse.Proofs.Universe.MemberKinds

/-!
# Signatures and the members that they name

A text is a signature exactly if it is `<C: S>` with something in both places and no colon in the
first.  Signatures are made from the names of classes as they are and read with the quotes taken
away, so a class is found under its signatures if its name has no colon and no segment that looks
quoted.  What a signature of such a class finds is the first member of that class with the
subsignature, whatever members the other classes have.
-/

namespace ClassUniverse

open Text

namespace Signature

variable {text : String} {s : Signature} {signature inner cls member : List Char}

theorem inner?_eq_some_iff : inner? signature = some inner ↔ signature = '<' :: inner ++ ['>'] := by
  cases signature with
  | nil => simp [inner?]
  | cons c rest =>
      by_cases hc : c = '<'
      · subst hc
        simp only [inner?, List.cons_append, List.cons.injEq, true_and]
        constructor
        · intro h
          split at h
          · rename_i last
            obtain ⟨before, rfl⟩ := List.getLast?_eq_some_iff.mp (beq_iff_eq.mp last)
            rw [List.dropLast_concat] at h
            rw [Option.some.inj h]
          · cases h
        · rintro rfl
          simp
      · have other : inner? (c :: rest) = none := by
          unfold inner?
          split
          · rename_i h
            exact absurd (List.cons.inj h).1 hc
          · rfl
        simp [other, hc]

theorem parts?_eq_some_iff :
    parts? signature = some (cls, member) ↔
      signature = '<' :: (cls ++ ':' :: ' ' :: member) ++ ['>'] ∧
        ':' ∉ cls ∧ cls ≠ [] ∧ member ≠ [] := by
  unfold parts?
  constructor
  · intro h
    cases hi : inner? signature with
    | none => simp [hi] at h
    | some inner =>
        rw [hi] at h
        simp only at h
        split at h
        · rename_i before after cut
          obtain ⟨rfl, colonless⟩ := splitFirst_eq_some_iff.mp cut
          split at h
          · cases h
          · rename_i nonempty
            obtain ⟨rfl, rfl⟩ := Prod.mk.inj (Option.some.inj h)
            refine ⟨inner?_eq_some_iff.mp hi, colonless, ?_⟩
            simpa using nonempty
        · cases h
  · rintro ⟨rfl, colonless, hc, hm⟩
    rw [inner?_eq_some_iff.mpr rfl]
    simp only
    rw [splitFirst_eq_some_iff.mpr ⟨rfl, colonless⟩]
    simp [hc, hm]

theorem toList_render (className member : String) :
    (render className member).toList =
      '<' :: (className.toList ++ ':' :: ' ' :: member.toList) ++ ['>'] := by
  simp [render]

/-- The signatures are the texts `<C: S>` with something in both places and no colon in the first,
which stands for the class that is written so. -/
theorem parse_eq_ok_iff :
    parse text = .ok s ↔ ∃ cls, text = render cls s.member ∧ cls ≠ "" ∧ ':' ∉ cls.toList ∧
      s.member ≠ "" ∧ s.className = Name.unquote cls := by
  obtain ⟨className, member⟩ := s
  unfold parse
  constructor
  · intro h
    split at h
    · rename_i cls member parts
      obtain ⟨written, colonless, hc, hm⟩ := parts?_eq_some_iff.mp parts
      obtain ⟨rfl, rfl⟩ := Signature.mk.inj (Except.ok.inj h)
      refine ⟨String.ofList cls, ?_, by simpa using hc, by simpa using colonless, ?_, rfl⟩
      · rw [← String.toList_inj, toList_render, written]
        simp
      · simpa using hm
    · cases h
  · rintro ⟨cls, rfl, hc, colonless, hm, rfl⟩
    have parts : parts? (render cls member).toList = some (cls.toList, member.toList) :=
      parts?_eq_some_iff.mpr
        ⟨toList_render cls member, colonless, by simpa using hc, by simpa using hm⟩
    rw [parts]
    simp

/-- A text that is no signature is reported as it is. -/
theorem parse_eq_error (h : ∀ s, parse text ≠ .ok s) :
    parse text = .error (.malformedSignature text) := by
  unfold parse at h ⊢
  split
  · rename_i parts
    simp [parts] at h
  · rfl

end Signature

/-- Whether a class is found under the signatures of its members: its name has no colon, and no
segment of it would lose quotes. -/
@[mk_iff]
structure Name.IsSignable (name : String) : Prop where
  nonempty : name ≠ ""
  colonless : ':' ∉ name.toList
  unquoted : ∀ segment ∈ splitOn '.' name.toList, Name.looksQuoted segment = false

instance (name : String) : Decidable (Name.IsSignable name) :=
  decidable_of_iff' _ (Name.isSignable_iff name)

theorem Name.IsSignable.unquote_eq {name : String} (h : IsSignable name) : unquote name = name := by
  rw [← String.toList_inj, toList_unquote]
  unfold unquoteSegments
  refine (joinWith_mapPieces_eq_self_iff dot_not_mem_unquoteSegment _).mpr fun segment hm => ?_
  exact unquoteSegment_of_unquoted (h.unquoted segment hm)

namespace Signature

variable {name cls member other : String}

theorem render_inj (colonless : ':' ∉ name.toList) (colonless' : ':' ∉ cls.toList) :
    render name member = render cls other ↔ name = cls ∧ member = other := by
  rw [← String.toList_inj, toList_render, toList_render, List.append_left_inj, List.cons.injEq,
    append_sep_inj colonless colonless']
  simp [String.toList_inj]

theorem parse_render_eq_ok_iff (h : Name.IsSignable name) {s : Signature} :
    parse (render name member) = .ok s ↔ member ≠ "" ∧ s = ⟨name, member⟩ := by
  rw [parse_eq_ok_iff]
  constructor
  · rintro ⟨cls, same, -, colonless, nonempty, read⟩
    obtain ⟨rfl, rfl⟩ := (render_inj h.colonless colonless).mp same
    rw [h.unquote_eq] at read
    exact ⟨nonempty, by rw [← read]⟩
  · rintro ⟨nonempty, rfl⟩
    exact ⟨name, rfl, h.nonempty, h.colonless, nonempty, h.unquote_eq.symm⟩

end Signature

namespace MemberKind

variable (k : MemberKind)

def subsignature : (k : MemberKind) → k.Member → String
  | methods => Method.subsignature
  | fields => Field.subsignature

def declaringClass : (k : MemberKind) → k.Member → String
  | methods => Method.declaringClass
  | fields => Field.declaringClass

def signature : (k : MemberKind) → k.Member → String
  | methods => Method.signature
  | fields => Field.signature

theorem signature_eq (m : k.Member) :
    k.signature m = Signature.render (k.declaringClass m) (k.subsignature m) := by
  cases k <;> rfl

/-- A name stands behind a blank. -/
theorem subsignature_ne_empty (m : k.Member) : k.subsignature m ≠ "" := by
  intro h
  have blank := congrArg (' ' ∈ String.toList ·) h
  cases k <;>
    simp [subsignature, Method.subsignature, MethodDefinition.subsignature, Field.subsignature,
      FieldDefinition.subsignature] at blank

/-- The first member with a subsignature. -/
def IsFirst (members : List k.Member) (subsignature : String) (m : k.Member) : Prop :=
  ∃ before after, members = before ++ m :: after ∧ k.subsignature m = subsignature ∧
    ∀ other ∈ before, k.subsignature other ≠ subsignature

variable {k} {members : List k.Member} {subsignature : String} {m : k.Member}

theorem find?_eq_some_iff_isFirst :
    (members.find? fun m => k.subsignature m == subsignature) = some m ↔
      k.IsFirst members subsignature m := by
  rw [List.find?_eq_some_iff_append]
  simp only [IsFirst, beq_iff_eq, Bool.not_eq_true', beq_eq_false_iff_ne]
  constructor
  · rintro ⟨same, before, after, split, others⟩
    exact ⟨before, after, split, same, others⟩
  · rintro ⟨before, after, split, same, others⟩
    exact ⟨same, before, after, split, others⟩

theorem IsFirst.subsignature_eq (h : k.IsFirst members subsignature m) :
    k.subsignature m = subsignature := by
  obtain ⟨_, _, -, same, -⟩ := h
  exact same

theorem IsFirst.mem (h : k.IsFirst members subsignature m) : m ∈ members := by
  obtain ⟨before, after, rfl, -, -⟩ := h
  exact List.mem_append_right before List.mem_cons_self

theorem exists_isFirst (hm : m ∈ members) :
    ∃ first, k.IsFirst members (k.subsignature m) first := by
  have some : (members.find? fun other => k.subsignature other == k.subsignature m).isSome = true :=
    List.find?_isSome.mpr ⟨m, hm, beq_self_eq_true _⟩
  obtain ⟨first, found⟩ := Option.isSome_iff_exists.mp some
  exact ⟨first, find?_eq_some_iff_isFirst.mp found⟩

end MemberKind

namespace Universe

variable {u : Universe} {k : MemberKind} {name text : String} {id : ClassId}

/-- The member of a kind that a signature names; fails when it is unknown. -/
def member (u : Universe) : (k : MemberKind) → String → Except Error k.Member
  | .methods => u.method
  | .fields => u.field

theorem method_eq_ok_iff {s : Signature} (h : Signature.parse text = .ok s) {m : Method} :
    u.method text = .ok m ↔
      ((u.find? s.className).bind fun id => (u.record id).method? s.member) = some m := by
  have known : u.method? text =
      .ok ((u.find? s.className).bind fun id => (u.record id).method? s.member) := by
    unfold method?
    rw [h]
    rfl
  unfold method
  rw [known]
  cases (u.find? s.className).bind fun id => (u.record id).method? s.member with
  | none => exact ⟨nofun, nofun⟩
  | some found =>
      exact ⟨fun same => congrArg some (Except.ok.inj same),
        fun same => congrArg Except.ok (Option.some.inj same)⟩

theorem field_eq_ok_iff {s : Signature} (h : Signature.parse text = .ok s) {f : Field} :
    u.field text = .ok f ↔
      ((u.find? s.className).bind fun id => (u.record id).field? s.member) = some f := by
  have known : u.field? text =
      .ok ((u.find? s.className).bind fun id => (u.record id).field? s.member) := by
    unfold field?
    rw [h]
    rfl
  unfold field
  rw [known]
  cases (u.find? s.className).bind fun id => (u.record id).field? s.member with
  | none => exact ⟨nofun, nofun⟩
  | some found =>
      exact ⟨fun same => congrArg some (Except.ok.inj same),
        fun same => congrArg Except.ok (Option.some.inj same)⟩

theorem member_eq_ok_iff {s : Signature} (h : Signature.parse text = .ok s) {m : k.Member} :
    u.member k text = .ok m ↔ ∃ id, u.find? s.className = some id ∧
      k.IsFirst (u.members k id) s.member m := by
  simp only [← MemberKind.find?_eq_some_iff_isFirst, ← Option.bind_eq_some_iff]
  cases k with
  | methods => exact method_eq_ok_iff h
  | fields => exact field_eq_ok_iff h

theorem parse_of_member_eq_ok {m : k.Member} (h : u.member k text = .ok m) :
    ∃ s, Signature.parse text = .ok s := by
  cases hp : Signature.parse text with
  | ok s => exact ⟨s, rfl⟩
  | error e =>
      cases k with
      | methods =>
          change u.method text = .ok m at h
          rw [method, method?, hp] at h
          cases h
      | fields =>
          change u.field text = .ok m at h
          rw [field, field?, hp] at h
          cases h

/-- A signature of a class finds the first member of that class with the subsignature. -/
theorem member_render_eq_ok_iff (found : u.find? name = some id) (h : Name.IsSignable name)
    {subsignature : String} {m : k.Member} :
    u.member k (Signature.render name subsignature) = .ok m ↔
      k.IsFirst (u.members k id) subsignature m := by
  constructor
  · intro given
    obtain ⟨s, hs⟩ := parse_of_member_eq_ok given
    obtain ⟨-, rfl⟩ := (Signature.parse_render_eq_ok_iff h).mp hs
    obtain ⟨id', found', first⟩ := (member_eq_ok_iff hs).mp given
    rw [found] at found'
    exact Option.some.inj found' ▸ first
  · intro first
    have nonempty : subsignature ≠ "" := first.subsignature_eq ▸ k.subsignature_ne_empty m
    have hs := (Signature.parse_render_eq_ok_iff h).mpr ⟨nonempty, rfl⟩
    exact (member_eq_ok_iff hs).mpr ⟨id, found, first⟩

end Universe

/-- Signatures are the texts `<C: S>` with something in both places and no colon in the first, and
name the class that is written `C` and its member `S`.  Where the name of a registered class is
written as it is, the signature of a member that it declares finds the first of its members with
the subsignature, and no signature of it finds what is a member of another class only. -/
theorem signatures_find_own_members :
    (∀ text s, Signature.parse text = .ok s ↔
      ∃ cls, text = Signature.render cls s.member ∧ cls ≠ "" ∧ ':' ∉ cls.toList ∧
        s.member ≠ "" ∧ s.className = Name.unquote cls) ∧
    (∀ text, (∀ s, Signature.parse text ≠ .ok s) →
      Signature.parse text = .error (.malformedSignature text)) ∧
    ∀ (u : Universe) (k : MemberKind) (name : String) (id : ClassId),
      u.find? name = some id → Name.IsSignable name →
        (∀ m ∈ u.members k id, k.declaringClass m = name →
          ∃ first, u.member k (k.signature m) = .ok first ∧
            k.IsFirst (u.members k id) (k.subsignature m) first) ∧
        ∀ other id', u.find? other = some id' → ∀ m ∈ u.members k id', m ∉ u.members k id →
          ∀ subsignature, u.member k (Signature.render name subsignature) ≠ .ok m := by
  refine ⟨fun _ _ => Signature.parse_eq_ok_iff, fun _ => Signature.parse_eq_error, ?_⟩
  intro u k name id found signable
  refine ⟨fun m hm declared => ?_, fun other id' _ m _ foreign subsignature given => ?_⟩
  · obtain ⟨first, isFirst⟩ := MemberKind.exists_isFirst hm
    rw [k.signature_eq, declared]
    exact ⟨first, (Universe.member_render_eq_ok_iff found signable).mpr isFirst, isFirst⟩
  · exact foreign ((Universe.member_render_eq_ok_iff found signable).mp given).mem

def Universe.emptyInitializer : MethodDefinition :=
  { name := "<init>", parameterTypes := [], returnType := "void" }

/-- A class that declares one subsignature twice, with an odd quote in its name, and another class
that declares it. -/
def Universe.declaring : Universe :=
  let u := run [.phantom "a.'B", .phantom "c"] (.empty false true)
  let catalog := u.catalog.declareMethod ⟨0⟩ emptyInitializer
  let catalog := catalog.declareMethod ⟨0⟩ emptyInitializer
  { u with catalog := catalog.declareMethod ⟨1⟩ emptyInitializer }

theorem signatures_find_own_members_declaring :
    let u := Universe.declaring
    let second : Method := ⟨1, "a.'B", Universe.emptyInitializer⟩
    let foreign : Method := ⟨2, "c", Universe.emptyInitializer⟩
    u.find? "a.'B" = some ⟨0⟩ ∧ Name.IsSignable "a.'B" ∧
      second ∈ u.members .methods ⟨0⟩ ∧ second.declaringClass = "a.'B" ∧
      (∃ first, u.method second.signature = .ok first ∧
        MemberKind.IsFirst .methods (u.members .methods ⟨0⟩) second.subsignature first) ∧
      u.find? "c" = some ⟨1⟩ ∧ foreign ∈ u.members .methods ⟨1⟩ ∧
      foreign ∉ u.members .methods ⟨0⟩ ∧
      u.method (Signature.render "a.'B" foreign.subsignature) ≠ .ok foreign := by
  intro u second foreign
  have found : u.find? "a.'B" = some ⟨0⟩ := by decide +kernel
  have signable : Name.IsSignable "a.'B" := by decide +kernel
  have listed : second ∈ (u.record ⟨0⟩).methods := by decide +kernel
  have elsewhere : u.find? "c" = some ⟨1⟩ := by decide +kernel
  have foreignListed : foreign ∈ (u.record ⟨1⟩).methods := by decide +kernel
  have unlisted : foreign ∉ (u.record ⟨0⟩).methods := by decide +kernel
  have own := signatures_find_own_members.2.2 u .methods "a.'B" ⟨0⟩ found signable
  exact ⟨found, signable, listed, rfl, own.1 second listed rfl, elsewhere, foreignListed, unlisted,
    own.2 "c" ⟨1⟩ elsewhere foreign foreignListed unlisted _⟩

end ClassUniverse
