import ClassUniverse.ClassIndex
import ClassUniverse.Proofs.Resolution.Declared
import ClassUniverse.Proofs.Resolution.Needs

/-!
# Classes with and without a definition

A universe that has been filled by resolution alone has classes for the names that its supply
defines and phantoms for the others.  When resolution tells that a name was not found, the supply
has no definition of it, so a class that is loaded if possible is either loaded or not defined.
-/

namespace ClassUniverse

namespace Supply

/-- Whether a supply has a definition of a name. -/
def defines (s : Supply) (name : String) : Bool :=
  match s.lookup name with
  | .ok (some _) => true
  | _ => false

variable {s : Supply} {name : String}

theorem defines_iff : s.defines name = true ↔ ∃ d, s.lookup name = .ok (some d) := by
  unfold defines
  cases s.lookup name with
  | error e => simp
  | ok found => cases found <;> simp

theorem defines_of_given {d : ClassDefinition} (given : s.lookup name = .ok (some d)) :
    s.defines name = true := defines_iff.mpr ⟨d, given⟩

theorem not_defines_of_absent (absent : s.lookup name = .ok none) : s.defines name = false := by
  unfold defines
  rw [absent]

end Supply

namespace Universe

/-! ## What resolution fills a universe with -/

/-- Whether the registered phantoms are the registered names without a definition. -/
structure IsSupplied (u : Universe) (s : Supply) : Prop where
  wellFormed : u.IsWellFormed
  kind : ∀ {name id}, u.find? name = some id → (u.record id).isPhantom = !s.defines name

theorem isSupplied_empty (recycles allowPhantoms : Bool) (s : Supply) :
    (empty recycles allowPhantoms).IsSupplied s where
  wellFormed := isWellFormed_empty _ _
  kind found := nomatch found

variable {s : Supply} {u v : Universe} {name : String} {id : ClassId} {level : Level}
  {d : ClassDefinition} {a : Addition}

theorem IsSupplied.of_touches {one : ClassId} (h : u.IsSupplied s) (wf : v.IsWellFormed)
    (touches : u.Touches v one) (found : v.find? name = some one)
    (self : (v.record one).isPhantom = !s.defines name) : v.IsSupplied s where
  wellFormed := wf
  kind {other id} found' := by
    by_cases hid : id = one
    · subst hid
      rw [wf.name_eq found' found]
      exact self
    · obtain ⟨old, same⟩ := touches.untouched h.wellFormed found' hid
      rw [same]
      exact h.kind old

theorem IsSupplied.letGo (h : u.IsSupplied s) (held : List ClassId) (members : List Nat) :
    (u.letGo held members).IsSupplied s where
  wellFormed := h.wellFormed.letGo held members
  kind := h.kind

theorem IsSupplied.close (h : u.IsSupplied s) : { u with isClosed := true }.IsSupplied s where
  wellFormed := h.wellFormed.of_eq rfl rfl rfl
  kind := h.kind

end Universe

open Universe

variable {s : Supply} {floor level : Level} {u v : Universe} {name : String} {id : ClassId}
  {mode : Mode} {path : List String} {d : ClassDefinition} {why : Error → Prop}

theorem Move.isSupplied (named : s.IsNamed) (h : u.IsSupplied s) (m : Move s floor u v) :
    v.IsSupplied s := by
  have wf := (m.keeps h.wellFormed).1
  cases m with
  | ask => exact ⟨wf, h.kind⟩
  | @demote name id absent found allowed below =>
      refine h.of_touches wf (touches_moved u id _) ((find?_moved u id _ name).trans found) ?_
      rw [record_moved_self (h.wellFormed.stands found).made, Supply.not_defines_of_absent absent]
      exact Bool.or_true _
  | @phantom name absent new allowed =>
      refine h.of_touches wf (touches_haunted u name) (serves_haunted u name .dangling).found ?_
      unfold Universe.haunted
      rw [record_enter_self isMade_next, record_next, Supply.not_defines_of_absent absent]
      rfl
  | @register name d a given above new ready =>
      have own : s.lookup d.name = .ok (some d) := (named name d given).symm ▸ given
      refine h.of_touches wf (touches_register u d a) (serves_register u d a).found ?_
      rw [isPhantom_register, Supply.defines_of_given own]
      rfl
  | @lift name d id a given above found below ready =>
      have same : ((u.lift d id a).record id).StandsAs (u.record id) :=
        h.wellFormed.standsLike_lift.record (h.wellFormed.stands found).made
      refine h.of_touches wf (touches_lift u d id a) (by rw [find?_lift, found]) ?_
      rw [same.isPhantom]
      exact h.kind found

theorem Moves.isSupplied (named : s.IsNamed) (h : u.IsSupplied s) (m : Moves s floor u v) :
    v.IsSupplied s := by
  induction m with
  | refl => exact h
  | tail _ step ih => exact step.isSupplied named ih

/-- Whether a call is a request to a resolver over a supply, or lets go of what nobody holds. -/
inductive Call.IsOver (s : Supply) : Call → Prop
  | request (q : Request) : IsOver s (.request s q)
  | letGo (held : List ClassId) (members : List Nat) : IsOver s (.letGo held members)

theorem Call.IsOver.isSupplied {c : Call} (asked : c.IsOver s) (named : s.IsNamed)
    (h : u.IsSupplied s) : (c.run u).IsSupplied s := by
  cases asked with
  | request q =>
      cases run_request h.wellFormed s q with
      | inl moves => exact moves.isSupplied named h
      | inr closed =>
          change (q.run s u).IsSupplied s
          rw [closed]
          exact h.close
  | letGo held members => exact h.letGo held members

theorem isSupplied_run (named : s.IsNamed) (h : u.IsSupplied s) (calls : List Call)
    (asked : ∀ c ∈ calls, c.IsOver s) : (run calls u).IsSupplied s := by
  induction calls generalizing u with
  | nil => exact h
  | cons c calls ih =>
      exact ih ((asked c List.mem_cons_self).isSupplied named h) fun c hc =>
        asked c (List.mem_cons_of_mem _ hc)

/-! ## Why resolution fails -/

namespace Supply

/-- Whether errors of some sort are those of a supply and those that resolution adds to them. -/
structure Explains (s : Supply) (why : Error → Prop) : Prop where
  asking : ∀ {name e}, s.lookup name = .error e → why e
  missing : ∀ {name}, s.lookup name = .ok none → why (.classNotFound name)
  cyclic : ∀ name, why (.cyclicHierarchy name)
  finished : ∀ name level, why (.resolutionFinished name level)

end Supply

namespace Universe

theorem substitutePhantom_explained (explains : s.Explains why) (wf : u.IsWellFormed)
    (absent : s.lookup name = .ok none) : FailsBy (substitutePhantom name) u why := by
  have outcome := substitutePhantom_apply wf name
  cases allowed : u.allowPhantoms with
  | false =>
      rw [allowed] at outcome
      exact .of_error outcome (explains.missing absent)
  | true =>
      rw [allowed, if_pos rfl] at outcome
      cases found : u.find? name with
      | some id =>
          rw [found] at outcome
          exact .of_ok outcome
      | none =>
          rw [found] at outcome
          exact .of_ok outcome

theorem demand_explained (explains : s.Explains why) (wf : u.IsWellFormed) :
    FailsBy (demand s name) u why := by
  have asked := ask_apply s name u
  cases given : s.lookup name with
  | error e =>
      rw [given] at asked
      exact (FailsBy.of_error asked (explains.asking given)).bind fun _ v hv =>
        absurd (asked.symm.trans hv) nofun
  | ok answer =>
      rw [given] at asked
      refine (FailsBy.of_ok asked).bind fun found v hv => ?_
      obtain ⟨rfl, rfl⟩ := EStateM.Result.ok.inj (asked.symm.trans hv)
      cases answer with
      | some d => exact .of_ok rfl
      | none =>
          have wf' : { u with hasAsked := true }.IsWellFormed := wf.of_eq rfl rfl rfl
          exact (substitutePhantom_explained explains wf' given).bind fun _ _ _ => .of_ok rfl

theorem prepare_explained (explains : s.Explains why) (wf : u.IsWellFormed) :
    FailsBy (prepare s mode path name level) u why := by
  by_cases served : ∃ id, u.Serves name level id
  · obtain ⟨id, served⟩ := served
    exact .of_ok (prepare_of_serves served)
  · intro e v failed
    rw [prepare_of_not_serves (not_exists.mp served), seek_apply] at failed
    split at failed
    · cases failed
      exact explains.cyclic name
    · split at failed
      · cases failed
        exact explains.finished name level
      · exact demand_explained explains wf e v failed

theorem resolveAlong_explained (explains : s.Explains why) (named : s.IsNamed) (length : Nat)
    (wf : u.IsWellFormed) : FailsBy (resolveAlong s mode length path name) u why := by
  induction length generalizing path name u with
  | zero => exact .of_error rfl (explains.cyclic name)
  | succ length ih =>
      rw [resolveAlong]
      refine (prepare_explained explains wf).bind fun found v prepared => ?_
      have prepares : Keeps (Moves s .dangling) (prepare s mode path name .hierarchy) u
          fun found v => v.Prepared s name .hierarchy found := prepare_keeps wf
      obtain ⟨mv, given⟩ := prepares.ok prepared
      have wv := mv.isWellFormed wf
      cases found with
      | inl id => exact .of_ok rfl
      | inr d =>
          have resolves : Resolves s .dangling (resolveAlong s mode length (path ++ [name])) :=
            resolves_resolveAlong (by decide) length
          refine (linkSupertypes_failsBy wv resolves fun parent _ w mw =>
            ih (mw.isWellFormed wv)).bind fun _ w linked => ?_
          obtain ⟨id, served⟩ := ((linkSupertypes_keeps wv given (by decide) resolves).ok linked).2
          rw [named name d given] at served
          exact .of_ok (expect_of_serves served)

theorem resolve_explained (explains : s.Explains why) (named : s.IsNamed) (wf : u.IsWellFormed) :
    FailsBy (resolve s mode name level) u why :=
  resolve_failsBy_of named wf (prepare_explained explains wf)
    (fun _ _ _ _ _ _ mv => resolveAlong_explained explains named _ (mv.isWellFormed wf))
    (fun _ _ _ _ _ _ mv => resolveAlong_explained explains named _ (mv.isWellFormed wf))
    fun _ _ _ _ _ _ mv => resolveAlong_explained explains named _ (mv.isWellFormed wf)

end Universe

/-! ## Classes that are loaded if possible -/

namespace Supply

/-- Whether an error says of no name that has a definition that it was not found, and does not
speak of basic classes, which a supply does not know. -/
def Bears (s : Supply) (e : Error) : Prop :=
  e ≠ .noBasicClassesLoaded ∧ ∀ name, e = .classNotFound name → s.defines name = false

/-- Whether a supply that does not answer does not say that a name was not found that it defines.
-/
def IsHonest (s : Supply) : Prop := ∀ name e, s.lookup name = .error e → s.Bears e

theorem IsHonest.explains (h : s.IsHonest) : s.Explains s.Bears where
  asking failed := h _ _ failed
  missing absent :=
    ⟨nofun, fun _ same => Error.classNotFound.inj same ▸ not_defines_of_absent absent⟩
  cyclic _ := ⟨nofun, nofun⟩
  finished _ _ := ⟨nofun, nofun⟩

end Supply

namespace Universe

/-- A name that is loaded if possible is loaded, or it has no definition. -/
theorem tryLoad_answers (named : s.IsNamed) (honest : s.IsHonest) (h : u.IsSupplied s) :
    Keeps (Moves s .dangling) (tryLoad s name level) u fun answer v =>
      match answer with
      | some id => v.Serves name level id
      | none => s.defines name = false := by
  have kept : Keeps (Moves s .dangling) (tryLoad s name level) u fun answer v =>
      ∀ id ∈ answer, s.IsTrueTo name → v.Serves name level id :=
    tryLoad_keeps h.wellFormed (by decide) (Nat.zero_le _)
  have fails : FailsBy (resolve s .regular name level) u s.Bears :=
    resolve_explained honest.explains named h.wellFormed
  unfold Keeps at kept ⊢
  cases outcome : tryLoad s name level u with
  | error e v =>
      rw [outcome] at kept
      exact kept
  | ok answer v =>
      rw [outcome] at kept
      refine ⟨kept.1, ?_⟩
      cases answer with
      | some id => exact kept.2 id rfl (named name)
      | none =>
          unfold tryLoad at outcome
          split at outcome
          · cases outcome
          · rename_i missing w failed
            split at outcome
            · rename_i same
              exact (fails _ _ failed).2 name (congrArg Error.classNotFound same)
            · cases outcome
          · cases outcome

theorem tryLoad_failsBy (named : s.IsNamed) (honest : s.IsHonest) (wf : u.IsWellFormed) :
    FailsBy (tryLoad s name level) u s.Bears := by
  have fails : FailsBy (resolve s .regular name level) u s.Bears :=
    resolve_explained honest.explains named wf
  intro e v failed
  unfold tryLoad at failed
  split at failed
  · cases failed
  · rename_i missing w refused
    split at failed
    · cases failed
    · cases failed
      exact fails _ _ refused
  · rename_i refused
    cases failed
    exact fails _ _ refused

end Universe

/-! ## Supplies that are honest -/

theorem MemorySource.isHonest_supply (m : MemorySource) : m.supply.IsHonest :=
  fun _ _ failed => nomatch failed

/-- An error that comes from a file or from an archive. -/
inductive Error.IsOfFile : Error → Prop
  | file (problem : FileProblem) : IsOfFile (.file problem)
  | archive (path : String) (problem : ArchiveProblem) : IsOfFile (.archive path problem)

/-- A computation fails with errors of some sort if its parts do. -/
theorem error_of_bind {α β : Type} {P : Error → Prop} {x : Except Error α}
    {f : α → Except Error β} (hx : ∀ e, x = .error e → P e)
    (hf : ∀ a e, f a = .error e → P e) (e : Error) (failed : (x >>= f) = .error e) : P e := by
  cases x with
  | error e' =>
      cases failed
      exact hx _ rfl
  | ok a => exact hf a e failed

theorem error_of_mapError {α ε : Type} {P : Error → Prop} {x : Except ε α} {f : ε → Error}
    (hf : ∀ e, P (f e)) (e : Error) (failed : x.mapError f = .error e) : P e := by
  cases x with
  | error e' =>
      cases failed
      exact hf e'
  | ok a => cases failed

namespace Archive

variable {t : FileTree} {path name : String} {e : Error}

theorem isOfFile_of_image (failed : image t path = .error e) : e.IsOfFile := by
  unfold image at failed
  split at failed
  · cases failed
    exact .file _
  · cases failed
    exact .file _
  · exact error_of_mapError Error.IsOfFile.file e failed

theorem isOfFile_of_open? (failed : open? t path = .error e) : e.IsOfFile :=
  error_of_bind (fun _ => isOfFile_of_image)
    (fun _ => error_of_mapError (Error.IsOfFile.archive path)) e failed

theorem isOfFile_of_openModule? (failed : openModule? t path = .error e) : e.IsOfFile := by
  refine error_of_bind (fun _ => isOfFile_of_image) (fun bytes e failed => ?_) e failed
  split at failed
  · cases failed
    exact .archive _ _
  · exact error_of_mapError (Error.IsOfFile.archive path) e failed

theorem isOfFile_of_read {z : Zip} (failed : read z path name = .error e) : e.IsOfFile := by
  unfold read at failed
  split at failed <;> cases failed
  · exact .archive _ _
  · exact .file _

end Archive

namespace ClassLocation

variable {t : FileTree} {l : ClassLocation} {name : String} {e : Error}

theorem isOfFile_of_read (failed : l.read t = .error e) : e.IsOfFile := by
  cases l with
  | archive path entry =>
      refine error_of_bind (fun _ => Archive.isOfFile_of_open?) (fun z => ?_) e failed
      exact error_of_bind (fun _ => Archive.isOfFile_of_read) fun _ _ h => nomatch h
  | module path entry =>
      refine error_of_bind (fun _ => Archive.isOfFile_of_openModule?) (fun z => ?_) e failed
      exact error_of_bind (fun _ => Archive.isOfFile_of_read) fun _ _ h => nomatch h
  | file path =>
      simp only [read] at failed
      split at failed <;> cases failed
      exact .file _
  | coreTable => cases failed

/-- A class that is listed is at most reported as missing under its own name. -/
theorem error_of_definition (failed : l.definition t name = .error e) :
    e.IsOfFile ∨ e = .configuration (.malformedClassFile name) ∨ e = .classNotFound name := by
  refine error_of_bind (P := fun e => e.IsOfFile ∨
    e = .configuration (.malformedClassFile name) ∨ e = .classNotFound name)
    (fun _ h => .inl (isOfFile_of_read h)) (fun content e failed => ?_) e failed
  cases content with
  | some bytes =>
      dsimp only at failed
      unfold ClassFile.parse at failed
      split at failed <;> cases failed
      exact .inr (.inl rfl)
  | none =>
      dsimp only at failed
      unfold CoreClass.definition at failed
      split at failed <;> cases failed
      exact .inr (.inr rfl)

end ClassLocation

theorem PathSource.isHonest_supply (p : PathSource) (t : FileTree) : (p.supply t).IsHonest := by
  intro name e failed
  have undefined : (p.supply t).defines name = false := by
    unfold Supply.defines
    rw [failed]
  have failed' : lookup (p.indexNow t) t name = .error e := failed
  unfold lookup at failed'
  split at failed'
  · cases failed'
  · rename_i location _
    cases located : location.definition t name with
    | ok d =>
        rw [located] at failed'
        cases failed'
    | error e' =>
        rw [located] at failed'
        cases failed'
        rcases ClassLocation.error_of_definition located with ofFile | rfl | rfl
        · cases ofFile <;> exact ⟨nofun, nofun⟩
        · exact ⟨nofun, nofun⟩
        · exact ⟨nofun, fun other same => Error.classNotFound.inj same ▸ undefined⟩

end ClassUniverse
