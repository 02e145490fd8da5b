import ClassUniverse.Proofs.Hierarchy.Loops
import ClassUniverse.Proofs.Resolution.Links
import ClassUniverse.Proofs.Resolution.Requests

/-!
# Links lead nowhere back

Resolution links a class to its supertypes only after these count as linked, and it links no class
that counts as linked.  So a link never leads to a class that is still to be linked, new links start
where no link ends, and no descriptor is above itself, whatever is added, removed and resolved again
under the same name.
-/

namespace ClassUniverse

open Relation (TransGen)

namespace Universe

variable {s : Supply} {floor : Level} {u v : Universe} {id target : ClassId} {d : ClassDefinition}
  {a : Addition}

/-- A descriptor that is not linked any more: it is a phantom or at `hierarchy` at least. -/
structure IsFirm (u : Universe) (id : ClassId) : Prop where
  made : u.catalog.IsMade id
  loaded : u.isLoaded id .hierarchy = true

/-- Whether links lead to firm descriptors and nowhere back. -/
structure IsGrounded (u : Universe) : Prop where
  firm : ∀ {id target}, u.Names id target → u.IsFirm target
  acyclic : ∀ id, ¬ TransGen u.Names id id

theorem isGrounded_empty (recycles allowPhantoms : Bool) :
    (empty recycles allowPhantoms).IsGrounded := by
  have nothing {id target : ClassId} : ¬ (empty recycles allowPhantoms).Names id target := by
    intro named
    cases named
  constructor
  · exact fun named => absurd named nothing
  · intro id cycle
    obtain ⟨_, _, last⟩ := TransGen.tail'_iff.mp cycle
    exact nothing last

theorem Serves.isFirm {name : String} (h : u.Serves name .hierarchy id) (wf : u.IsWellFormed) :
    u.IsFirm id :=
  ⟨(wf.stands h.found).made, h.loaded⟩

theorem IsFirm.of_record (h : u.IsFirm id) (made : v.catalog.IsMade id)
    (phantom : (u.record id).isPhantom = true → (v.record id).isPhantom = true)
    (level : (u.record id).level ≤ (v.record id).level) : v.IsFirm id where
  made := made
  loaded := by
    have loaded := isLoaded_iff.mp h.loaded
    exact isLoaded_iff.mpr (loaded.imp phantom fun high => Level.le_trans high level)

theorem IsFirm.grows (h : u.IsFirm id) (grows : u.Grows v) : v.IsFirm id :=
  ⟨grows.made h.made, grows.isLoaded h.made h.loaded⟩

namespace IsGrounded

/-- No new link closes a cycle: each starts at a descriptor that is not firm, where no link ends. -/
theorem of_links (h : u.IsGrounded) (firm : ∀ {id}, u.IsFirm id → v.IsFirm id)
    (links : ∀ {id target}, v.Names id target →
      u.Names id target ∨ ¬ u.IsFirm id ∧ u.IsFirm target) : v.IsGrounded := by
  have ends {id target : ClassId} (named : v.Names id target) : u.IsFirm target := by
    cases links named with
    | inl old => exact h.firm old
    | inr new => exact new.2
  have old {id target : ClassId} (start : u.IsFirm id) (named : v.Names id target) :
      u.Names id target := by
    cases links named with
    | inl old => exact old
    | inr new => exact absurd start new.1
  have lifted {id target : ClassId} (start : u.IsFirm id) (path : TransGen v.Names id target) :
      TransGen u.Names id target := by
    induction path with
    | single named => exact .single (old start named)
    | tail before named ih =>
        obtain ⟨_, _, last⟩ := TransGen.tail'_iff.mp before
        exact ih.tail (old (ends last) named)
  constructor
  · exact fun named => firm (ends named)
  · intro id cycle
    obtain ⟨_, _, last⟩ := TransGen.tail'_iff.mp cycle
    exact h.acyclic id (lifted (ends last) cycle)

theorem of_targets (h : u.IsGrounded) (firm : ∀ {id}, u.IsFirm id → v.IsFirm id)
    (same : ∀ id, (v.record id).targets ⊆ (u.record id).targets) : v.IsGrounded :=
  h.of_links firm fun named => .inl (same _ named)

/-- A change of one descriptor that keeps its links and lowers nothing. -/
theorem modify (h : u.IsGrounded) (one : ClassId) {f : ClassRecord → ClassRecord}
    (catalog : v.catalog = u.catalog.modify one f) (targets : ∀ r, (f r).targets = r.targets)
    (phantom : ∀ r, r.isPhantom = true → (f r).isPhantom = true)
    (level : ∀ r, r.level ≤ (f r).level) : v.IsGrounded := by
  apply h.of_targets
  · intro id firm
    have made : v.catalog.IsMade id := by
      rw [catalog]
      exact Catalog.isMade_modify.mpr firm.made
    have record : v.record id = if id = one then f (u.record id) else u.record id := by
      unfold Universe.record
      rw [catalog]
      split
      next same =>
        subst same
        exact Catalog.get_modify_self firm.made f
      next other => exact Catalog.get_modify_of_ne u.catalog other f
    apply firm.of_record made
    all_goals rw [record]
    · split
      · exact phantom _
      · exact fun hp => hp
    · split
      · exact level _
      · exact Nat.le_refl _
  · intro id
    unfold Universe.record
    rw [catalog, targets_modify u.catalog one id targets]
    exact List.Subset.refl _

end IsGrounded

/-! ## Moves -/

theorem Ready.isFirm (wf : u.IsWellFormed) (ready : u.Ready d a) (h : target ∈ a.targets) :
    u.IsFirm target := by
  cases a with
  | nothing | members | bodies => cases h
  | supertypes superclass interfaces =>
      have interfaces := forall_mem_of_forall₂ (P := u.IsFirm)
        (ready.interfaces.imp fun _ _ served => served.isFirm wf)
      rcases List.mem_append.mp h with above | named
      · have first := ready.superclass
        generalize d.superclass = parent at first
        cases first with
        | none => cases above
        | some served =>
            rw [Option.toList_some, List.mem_singleton] at above
            rw [above]
            exact served.isFirm wf
      · exact interfaces target named

/-- An addition that links a class finds it below `hierarchy`. -/
theorem not_isFirm_of_below (below : u.isLoaded id a.level = false) (h : target ∈ a.targets) :
    ¬ u.IsFirm id := by
  cases a with
  | nothing | members | bodies => cases h
  | supertypes superclass interfaces =>
      intro firm
      rw [show Addition.level (.supertypes superclass interfaces) = .hierarchy from rfl,
        firm.loaded] at below
      cases below

theorem not_isFirm_next : ¬ u.IsFirm u.next := fun firm => absurd firm.made (Nat.lt_irrefl _)

theorem record_register_of_ne (h : id ≠ u.next) : (u.register d a).record id = u.record id :=
  (record_enter_of_ne h).trans ((record_lift_of_ne h).trans (Catalog.get_make_of_ne _ _ h))

end Universe

open Universe

variable {s : Supply} {floor : Level} {u v : Universe}

/-- A move leaves links that lead to firm descriptors and nowhere back. -/
theorem Move.isGrounded (wf : u.IsWellFormed) (named : s.IsNamed) (h : u.IsGrounded)
    (m : Move s floor u v) : v.IsGrounded := by
  have firm {id : ClassId} (old : u.IsFirm id) : v.IsFirm id := old.grows (m.keeps wf).2
  cases m with
  | ask => exact h.of_targets firm fun _ => List.Subset.refl _
  | demote absent found allowed =>
      apply h.of_targets firm
      intro other
      rw [targets_moved]
      exact List.Subset.refl _
  | phantom absent new allowed => exact h.of_targets firm (targets_haunted u _)
  | register a given above new ready =>
      apply h.of_links firm
      intro id target link
      by_cases hid : id = u.next
      · subst hid
        cases List.mem_append.mp (targets_register u _ a u.next link) with
        | inl old => exact .inl old
        | inr new => exact .inr ⟨not_isFirm_next, (ready named).isFirm wf new⟩
      · left
        rwa [Names, record_register_of_ne hid] at link
  | @lift name d one a given above found below ready =>
      apply h.of_links firm
      intro id target link
      by_cases hid : id = one
      · subst hid
        cases List.mem_append.mp (targets_lift u d a (wf.stands found).made id link) with
        | inl old => exact .inl old
        | inr new => exact .inr ⟨not_isFirm_of_below below new, (ready named).isFirm wf new⟩
      · left
        rwa [Names, record_lift_of_ne hid] at link

theorem Moves.isGrounded (wf : u.IsWellFormed) (named : s.IsNamed) (h : u.IsGrounded)
    (m : Moves s floor u v) : v.IsGrounded := by
  induction m with
  | refl => exact h
  | tail moves step ih => exact step.isGrounded (Moves.isWellFormed wf moves) named ih

/-! ## Calls -/

namespace Call

/-- Whether a call leaves links to resolution and keeps each definition under its own name: a
descriptor comes without links, and a change of one keeps its links and does not lower it. -/
def IsLinkless : Call → Prop
  | make r _ => r.targets = []
  | edit _ change _ => ∀ r, (change r).targets = r.targets ∧ r.level ≤ (change r).level
  | request s _ => s.IsNamed
  | _ => True

theorem isGrounded_run (wf : u.IsWellFormed) (h : u.IsGrounded) {c : Call}
    (linkless : c.IsLinkless) : (c.run u).IsGrounded := by
  have assigned (p : Option Partition) (r : ClassRecord) (phantom : r.isPhantom = true) :
      (r.assign p).isPhantom = true := by
    simp [ClassRecord.assign, phantom]
  have level (r : ClassRecord) : r.level ≤ r.level := Nat.le_refl _
  have does := does_run wf c
  generalize c.run u = v at does ⊢
  cases does with
  | nothing => exact h
  | make r fresh =>
      apply h.of_targets fun old => old.grows (.withNew u r)
      intro id
      have both := targets_withNew u r id
      rwa [show r.targets = [] from linkless, List.append_nil] at both
  | edit id change stands =>
      have phantom (r : ClassRecord) (hp : r.isPhantom = true) : (change r).isPhantom = true := by
        rw [(stands r).isPhantom, hp]
      exact h.modify id rfl (fun r => (linkless r).1) phantom fun r => (linkless r).2
  | enter id => exact h.modify id rfl (fun _ => rfl) (assigned _) level
  | leave id => exact h.modify id rfl (fun _ => rfl) (assigned none) level
  | move id p => exact h.modify id rfl (fun _ => rfl) (assigned (some p)) level
  | haunt name absent =>
      exact h.of_targets (fun old => old.grows (wf.haunted absent).2) (targets_haunted u name)
  | resolve s q moves => exact Moves.isGrounded wf linkless h moves
  | close | letGo =>
      exact ⟨fun named => ⟨(h.firm named).made, (h.firm named).loaded⟩, h.acyclic⟩

end Call

/-! ## Runs -/

theorem isGrounded_run (wf : u.IsWellFormed) (h : u.IsGrounded) {calls : List Call}
    (linkless : ∀ c ∈ calls, c.IsLinkless) : (run calls u).IsGrounded := by
  induction calls generalizing u with
  | nil => exact h
  | cons c calls ih =>
      have first := c.isGrounded_run wf h (linkless c List.mem_cons_self)
      exact ih (c.isWellFormed_run wf) first fun c hc => linkless c (List.mem_cons_of_mem _ hc)

/-- A live superclass is among the named ones. -/
theorem names_of_extends {id parent : ClassId} (link : u.catalog.Extends id parent) :
    u.Names id parent := by
  have stored : (u.record id).superclass = some parent := by
    have filtered : ((u.record id).superclass).filter u.catalog.isLive = some parent := link
    rw [Option.filter_eq_some_iff] at filtered
    exact filtered.1
  unfold Names ClassRecord.targets
  rw [stored]
  exact List.mem_append_left _ (List.mem_singleton_self _)

theorem Universe.IsGrounded.loopsEnd (h : u.IsGrounded) (wf : u.IsWellFormed) : u.LoopsEnd := by
  apply Universe.loopsEnd wf
  · exact fun link => (h.firm (names_of_extends link)).made
  · exact fun id cycle => h.acyclic id (TransGen.mono (fun _ _ => names_of_extends) id id cycle)

/-- In every state of a run no descriptor is above itself, by links to classes that are registered
or were removed, and every loop over links ends. -/
theorem acyclic_run (recycles allowPhantoms : Bool) (calls : List Call)
    (linkless : ∀ c ∈ calls, c.IsLinkless) :
    (∀ id, ¬ TransGen (run calls (.empty recycles allowPhantoms)).Names id id) ∧
      (run calls (.empty recycles allowPhantoms)).LoopsEnd := by
  have wf := isWellFormed_run (isWellFormed_empty recycles allowPhantoms) calls
  have grounded := isGrounded_run (isWellFormed_empty recycles allowPhantoms)
    (isGrounded_empty recycles allowPhantoms) linkless
  exact ⟨grounded.acyclic, grounded.loopsEnd wf⟩

/-- Two classes that are each other's superclass. -/
def mutualSource : MemorySource :=
  (MemorySource.empty.add { name := "a.Base", superclass := some "a.Task" }).add
    { name := "a.Task", superclass := some "a.Base" }

/-- One of them is added by hand, the other one is resolved, and then the first one makes way for a
resolved one. -/
def mutualCalls : List Call :=
  [.make { name := "a.Base", level := .hierarchy } ⟨rfl, rfl⟩,
    .add ⟨0⟩,
    .request mutualSource.supply (.resolve .regular "a.Task" .hierarchy),
    .remove ⟨0⟩,
    .request mutualSource.supply (.resolve .regular "a.Base" .bodies)]

theorem acyclic_run_mutualCalls :
    ((run mutualCalls (.empty false false)).Names ⟨2⟩ ⟨1⟩ ∧
      (run mutualCalls (.empty false false)).Names ⟨1⟩ ⟨0⟩) ∧
    (∀ id, ¬ TransGen (run mutualCalls (.empty false false)).Names id id) ∧
      (run mutualCalls (.empty false false)).LoopsEnd := by
  have linked : ⟨1⟩ ∈ ((run mutualCalls (.empty false false)).record ⟨2⟩).targets ∧
      ⟨0⟩ ∈ ((run mutualCalls (.empty false false)).record ⟨1⟩).targets := by
    decide +kernel
  have named := mutualSource.isNamed_supply
  exact ⟨linked, acyclic_run false false mutualCalls
    (by simp [mutualCalls, Call.IsLinkless, named, ClassRecord.targets])⟩

end ClassUniverse
