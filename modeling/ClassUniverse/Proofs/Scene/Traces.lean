import ClassUniverse.Proofs.Resolution.Declared
import ClassUniverse.Proofs.Universe.Signatures
import ClassUniverse.Scene.ReflectionTrace

/-!
# What a reflection trace names

A line can be read if it has three fields, its kind is known and, where the kind asks for a member,
its target is a signature.  A trace is read if every line is, and then it names the classes that its
lines name.
-/

namespace ClassUniverse

open Text

/-- A list is gone through without failure exactly if no entry fails. -/
theorem mapM_eq_ok_iff {α β ε : Type} {f : α → Except ε β} {as : List α} {bs : List β} :
    as.mapM f = .ok bs ↔ List.Forall₂ (fun a b => f a = .ok b) as bs := by
  induction as generalizing bs with
  | nil => cases bs <;> simp [pure, Except.pure]
  | cons a as ih =>
      rw [List.mapM_cons]
      cases first : f a with
      | error e => cases bs <;> simp [bind, Except.bind, first]
      | ok b =>
          cases rest : as.mapM f with
          | error e => cases bs <;> simp [bind, Except.bind, ← ih, first, rest]
          | ok bs' =>
              cases bs <;> simp [bind, Except.bind, pure, Except.pure, ← ih, first, rest]

theorem exists_of_mapM_eq_ok {α β ε : Type} {f : α → Except ε β} {as : List α} {bs : List β}
    (h : as.mapM f = .ok bs) :
    (∀ a ∈ as, ∃ b ∈ bs, f a = .ok b) ∧ ∀ b ∈ bs, ∃ a ∈ as, f a = .ok b :=
  have each := mapM_eq_ok_iff.mp h
  ⟨fun _ hm => exists_related each hm, fun _ hm => exists_related each.flip hm⟩

theorem exists_of_mapM_eq_error {α β ε : Type} {f : α → Except ε β} {as : List α} {e : ε}
    (h : as.mapM f = .error e) : ∃ a ∈ as, f a = .error e := by
  induction as with
  | nil => cases h
  | cons a as ih =>
      rw [List.mapM_cons] at h
      cases first : f a with
      | error e' =>
          rw [first] at h
          cases h
          exact ⟨a, List.mem_cons_self, first⟩
      | ok b =>
          cases rest : as.mapM f with
          | error e' =>
              rw [first, rest] at h
              cases h
              obtain ⟨a', hm, failed⟩ := ih rest
              exact ⟨a', List.mem_cons_of_mem _ hm, failed⟩
          | ok bs =>
              rw [first, rest] at h
              cases h

namespace ReflectionTrace

variable {line kind : String} {names : List String} {text : List Char} {e : Error}

/-- Whether a kind of use names a class by itself. -/
def IsOfClass (kind : String) : Prop := kind = "Class.forName" ∨ kind = "Class.newInstance"

/-- Whether a kind of use names a member with its class. -/
def IsOfMember (kind : String) : Prop :=
  kind = "Method.invoke" ∨ kind = "Constructor.newInstance" ∨
    "Field.set".toList <+: kind.toList ∨ "Field.get".toList <+: kind.toList

/-- The classes that a line names, where it can be read: the one before the last dot of the third
field, or the whole field if it has no dot, and that of the second field. -/
inductive Names (line : String) : List String → Prop
  | ofClass {kind target source : String} {rest : List String}
      (fields : pieces ';' line = kind :: target :: source :: rest) (known : IsOfClass kind) :
      Names line [(beforeLastDot? source).getD source, target]
  | ofMember {kind target source : String} {rest : List String} {s : Signature}
      (fields : pieces ';' line = kind :: target :: source :: rest) (known : IsOfMember kind)
      (signature : Signature.parse target = .ok s) :
      Names line [(beforeLastDot? source).getD source, s.className]

theorem target?_eq_className_iff : target? kind = some .className ↔ IsOfClass kind := by
  unfold target? IsOfClass
  split
  · simp [*]
  · split
    · simp [*]
    · split <;> simp [*]

theorem not_isOfClass_of_isOfMember (h : IsOfMember kind) : ¬ IsOfClass kind := by
  rintro (rfl | rfl) <;> revert h <;> unfold IsOfMember <;> decide

theorem target?_eq_member_iff : target? kind = some .member ↔ IsOfMember kind := by
  constructor
  · intro h
    unfold target? at h
    split at h
    · cases h
    · split at h
      · rename_i known
        exact known.elim .inl fun known => .inr (.inl known)
      · split at h
        · rename_i known
          simp only [List.isPrefixOf_iff_prefix] at known
          exact .inr (.inr known)
        · cases h
  · intro known
    have other : ¬ (kind = "Class.forName" ∨ kind = "Class.newInstance") :=
      not_isOfClass_of_isOfMember known
    unfold target?
    rw [if_neg other]
    split
    · rfl
    · rename_i plain
      rw [not_or] at plain
      rcases known with known | known | known
      · exact absurd known plain.1
      · exact absurd known plain.2
      · simp only [List.isPrefixOf_iff_prefix]
        exact if_pos known

theorem classesOfLine_eq_ok_iff : classesOfLine line = .ok names ↔ Names line names := by
  unfold classesOfLine
  constructor
  · intro h
    split at h
    · rename_i kind target source rest fields
      split at h
      · rename_i known
        cases h
        exact .ofClass fields (target?_eq_className_iff.mp known)
      · rename_i known
        cases signature : Signature.parse target with
        | error e =>
            rw [signature] at h
            cases h
        | ok s =>
            rw [signature] at h
            cases h
            exact .ofMember fields (target?_eq_member_iff.mp known) signature
      · cases h
    · cases h
  · intro h
    cases h with
    | ofClass fields known =>
        rw [fields]
        dsimp only
        rw [target?_eq_className_iff.mpr known]
        rfl
    | ofMember fields known signature =>
        rw [fields]
        dsimp only
        rw [target?_eq_member_iff.mpr known]
        dsimp only
        rw [signature]
        rfl

/-- The lines of a trace without the blanks around them; blank lines are left out. -/
def lines (text : List Char) : List String :=
  ((splitOn '\n' text).map fun line => String.ofList (trim line)).filter fun line => !line.isEmpty

theorem classes_eq (text : List Char) : classes text = (lines text).mapM classesOfLine >>=
    fun named => pure (firstOccurrences named.flatten) := rfl

/-- A trace that is read names the classes that its lines name, all of which can be read. -/
theorem names_of_classes_eq_ok (read : classes text = .ok names) :
    (∀ line ∈ lines text, ∃ named, Names line named) ∧
      ∀ name, name ∈ names ↔ ∃ line ∈ lines text, ∃ named, Names line named ∧ name ∈ named := by
  rw [classes_eq] at read
  cases through : (lines text).mapM classesOfLine with
  | error e =>
      rw [through] at read
      cases read
  | ok named =>
      rw [through] at read
      cases read
      obtain ⟨forward, backward⟩ := exists_of_mapM_eq_ok through
      simp only [classesOfLine_eq_ok_iff] at forward backward
      refine ⟨fun line hm => (forward line hm).imp fun _ both => both.2, fun name => ?_⟩
      rw [mem_firstOccurrences, List.mem_flatten]
      constructor
      · rintro ⟨some, hs, hn⟩
        obtain ⟨line, hm, names⟩ := backward some hs
        exact ⟨line, hm, some, names, hn⟩
      · rintro ⟨line, hm, some, names, hn⟩
        obtain ⟨some', hs, names'⟩ := forward line hm
        have same : some' = some := Except.ok.inj
          ((classesOfLine_eq_ok_iff.mpr names').symm.trans (classesOfLine_eq_ok_iff.mpr names))
        exact ⟨some', hs, same ▸ hn⟩

/-- A trace with a line that cannot be read is not read. -/
theorem exists_error_of_unreadable (hm : line ∈ lines text)
    (unreadable : ∀ named, ¬ Names line named) : ∃ e, classes text = .error e := by
  cases read : classes text with
  | error e => exact ⟨e, rfl⟩
  | ok names =>
      obtain ⟨named, h⟩ := (names_of_classes_eq_ok read).1 line hm
      exact absurd h (unreadable named)

theorem ne_of_classes_eq_error (failed : classes text = .error e) : e ≠ .noBasicClassesLoaded := by
  rw [classes_eq] at failed
  cases through : (lines text).mapM classesOfLine with
  | ok named =>
      rw [through] at failed
      cases failed
  | error e' =>
      rw [through] at failed
      cases failed
      obtain ⟨line, -, refused⟩ := exists_of_mapM_eq_error through
      unfold classesOfLine at refused
      split at refused
      · rename_i kind target source rest fields
        split at refused
        · cases refused
        · cases signature : Signature.parse target with
          | ok s =>
              rw [signature] at refused
              cases refused
          | error e'' =>
              have plain : Signature.parse target = .error (.malformedSignature target) :=
                Signature.parse_eq_error fun s => by
                  rw [signature]
                  nofun
              rw [plain] at refused
              cases refused
              nofun
        · cases refused
          nofun
      · cases refused
        nofun

end ReflectionTrace

end ClassUniverse
