import ClassUniverse.ClassIndex
import ClassUniverse.Proofs.Resolution.Requests

/-!
# The class that was asked for

A request is answered by the class registered under the name asked for, in every state, exactly if
the supply has no definition of another name under it.  Definitions in memory are kept under their
own names.  A class path goes by the place of a class file and not by the name in it, so it answers
rightly exactly for the names whose class files define them.
-/

namespace ClassUniverse

open Universe

namespace Supply

/-- Whether in every state of every run each request for a name that succeeds is answered by the
class that is registered under the name, has the name, and is a phantom or at the level asked for. -/
def Answers (s : Supply) (name : String) : Prop :=
  ∀ (recycles allowPhantoms : Bool) (calls : List Call) (q : Request) (id : ClassId) (v : Universe),
    q.name? = some name →
    q.perform s (run calls (.empty recycles allowPhantoms)) = .ok (some id) v →
      v.Serves name q.level id ∧ (v.record id).name = name

variable {s : Supply} {name : String} {d : ClassDefinition}

theorem answers_of_isTrueTo (h : s.IsTrueTo name) : s.Answers name := by
  intro recycles allowPhantoms calls q id v asked answered
  have wf := isWellFormed_run (isWellFormed_empty recycles allowPhantoms) calls
  have asks : q ≠ .close := by
    rintro rfl
    exact nomatch asked
  obtain ⟨moves, served⟩ := (perform_keeps wf asks).ok answered
  have served := served id rfl name asked h
  exact ⟨served, ((moves.isWellFormed wf).stands served.found).named⟩

/-- The definition that is found first is published at the lowest level, whatever its name. -/
theorem resolve_dangling_empty (given : s.lookup name = .ok (some d)) :
    ∃ u : Universe, resolve s .regular name .dangling (.empty false false) =
        .ok u.next (u.register d .nothing) ∧ u.IsWellFormed ∧ u.find? d.name = none := by
  have new : ∀ id, ¬ (Universe.empty false false).Serves name .dangling id := fun id h =>
    nomatch h.found
  have wf : ({ Universe.empty false false with hasAsked := true } : Universe).IsWellFormed :=
    (isWellFormed_empty false false).of_eq rfl rfl rfl
  refine ⟨{ Universe.empty false false with hasAsked := true }, ?_, wf, rfl⟩
  have demanded : demand s name (.empty false false) =
      .ok (.inr d) { Universe.empty false false with hasAsked := true } := by
    simp only [demand, bind_apply, ask_apply, given, pure_apply]
  have prepared : prepare s .regular [] name .dangling (.empty false false) =
      .ok (.inr d) { Universe.empty false false with hasAsked := true } := by
    rw [prepare_of_not_serves new, seek_apply, demanded]
    rfl
  simp only [resolve, resolveBy, bind_apply, get_apply, prepared, if_true]
  exact publish_of_new (a := .nothing) rfl

theorem answers_iff (s : Supply) (name : String) : s.Answers name ↔ s.IsTrueTo name := by
  refine ⟨fun h d given => ?_, answers_of_isTrueTo⟩
  obtain ⟨u, resolved, wf, new⟩ := resolve_dangling_empty given
  have performed : (Request.resolve .regular name .dangling).perform s (.empty false false) =
      .ok (some u.next) (u.register d .nothing) := by
    simp only [Request.perform, bind_apply, resolved, pure_apply]
  have answered := h false false [] _ u.next _ rfl performed
  exact (wf.register (a := .nothing) new).1.name_eq (serves_register u d .nothing).found
    answered.1.found

end Supply

/-! ## Class paths -/

theorem CoreClass.name_of_definition {name : String} {d : ClassDefinition}
    (h : CoreClass.definition name = .ok d) : d.name = name := by
  unfold CoreClass.definition CoreClass.definition? at h
  cases found : CoreClass.table.find? fun c => c.name == name with
  | none => simp [found] at h
  | some c =>
      have named := List.find?_some found
      simp only [found, Option.map_some, Except.ok.injEq] at h
      subst h
      simpa using named

namespace PathSource

/-- Whether the class file that a class path lists for a name, where there is one that can be read,
defines a class of that name. -/
def IsRightAbout (p : PathSource) (t : FileTree) (name : String) : Prop :=
  ∀ location bytes d, (p.indexNow t).get? name = some location →
    location.read t = .ok (some bytes) →
    ClassFile.definition? bytes = some d → d.name = name

theorem definition_eq_ok_iff {t : FileTree} {name : String} {location : ClassLocation}
    {d : ClassDefinition} : location.definition t name = .ok d ↔
      (∃ bytes, location.read t = .ok (some bytes) ∧ ClassFile.definition? bytes = some d) ∨
        (location.read t = .ok none ∧ CoreClass.definition name = .ok d) := by
  unfold ClassLocation.definition ClassFile.parse
  cases location.read t with
  | error e => simp [bind, Except.bind]
  | ok content =>
      cases content with
      | none => simp [bind, Except.bind]
      | some bytes =>
          cases hd : ClassFile.definition? bytes <;> simp [bind, Except.bind, hd]

theorem lookup_supply_eq_ok_iff {p : PathSource} {t : FileTree} {name : String}
    {d : ClassDefinition} : (p.supply t).lookup name = .ok (some d) ↔
      ∃ location, (p.indexNow t).get? name = some location ∧
        location.definition t name = .ok d := by
  simp only [supply, lookup]
  cases (p.indexNow t).get? name with
  | none => simp
  | some location =>
      cases hd : location.definition t name <;> simp [Except.map, hd]

theorem isTrueTo_iff (p : PathSource) (t : FileTree) (name : String) :
    (p.supply t).IsTrueTo name ↔ p.IsRightAbout t name := by
  constructor
  · intro h location bytes d listed read defined
    exact h d (lookup_supply_eq_ok_iff.mpr ⟨location, listed,
      definition_eq_ok_iff.mpr (.inl ⟨bytes, read, defined⟩)⟩)
  · intro h d given
    obtain ⟨location, listed, defined⟩ := lookup_supply_eq_ok_iff.mp given
    rcases definition_eq_ok_iff.mp defined with ⟨bytes, read, defined⟩ | ⟨-, core⟩
    · exact h location bytes d listed read defined
    · exact CoreClass.name_of_definition core

end PathSource

/-- Definitions in memory are always answered rightly, and those on a class path exactly where the
class file listed for the name defines it. -/
theorem answers_of_sources (m : MemorySource) (p : PathSource) (t : FileTree) (name : String) :
    m.supply.Answers name ∧ ((p.supply t).Answers name ↔ p.IsRightAbout t name) :=
  ⟨(Supply.answers_iff _ _).mpr (m.isNamed_supply name),
    (Supply.answers_iff _ _).trans (p.isTrueTo_iff t name)⟩

/-- A class path of one directory. -/
def misplaced : PathSource := { path := ⟨["d"]⟩, javaHome := none }

/-- A class file that defines `B` in the place of `A`. -/
def misplacedTree : FileTree :=
  .directory [("d", .directory [("A.class", .file
    [0xca, 0xfe, 0xba, 0xbe, 0, 0, 0, 52, 0, 3, 1, 0, 1, 66, 7, 0, 1, 0, 33, 0, 2, 0, 0, 0, 0, 0, 0,
      0, 0, 0, 0])])]

theorem not_answers_misplaced : ¬ (misplaced.supply misplacedTree).Answers "A" := by
  intro h
  have isTrue := (Supply.answers_iff _ _).mp h
  have looked : ((misplaced.supply misplacedTree).lookup "A").toOption.join.map (·.name) =
      some "B" := by decide +kernel
  cases given : (misplaced.supply misplacedTree).lookup "A" with
  | error e =>
      rw [given] at looked
      cases looked
  | ok found =>
      cases found with
      | none =>
          rw [given] at looked
          cases looked
      | some d =>
          rw [given] at looked
          have named : d.name = "B" := Option.some.inj looked
          rw [isTrue d given] at named
          exact absurd named (by decide)

end ClassUniverse
