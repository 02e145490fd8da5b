import ClassUniverse.Proofs.Universe.MemberKinds

/-!
# The numbers of members

A member gets a number as it becomes one of a registered class, and loses it as a class that has it
is removed.  Nothing else gives or takes numbers, whichever way members are numbered.  So a member
that resolution has replaced by others keeps its number, also when its class goes, and a member of
two registered classes has none once one of them has gone.  Where neither happens the numbered
members are those of the registered classes.
-/

namespace ClassUniverse

/-- What somebody does who makes members and calls a universe. -/
inductive MemberUse
  | makeMembers (count : Nat)
  | call (c : Call)

namespace MemberUse

open Universe

/-- The universe after members have been made, or after a call. -/
def step : MemberUse → Universe → Universe
  | makeMembers count, u =>
      { u with catalog := { u.catalog with membersMade := u.catalog.membersMade + count } }
  | call c, u => c.run u

/-- The universe after some uses, one after the other. -/
def run (uses : List MemberUse) (u : Universe) : Universe := uses.foldl (fun u c => c.step u) u

/-- What is taken for granted: descriptors are given members that have been made and exist, the
members of a registered class are not edited, what a descriptor holds is not let go, and what has
been let go does not come back. -/
def Allows (u : Universe) : MemberUse → Prop
  | makeMembers _ => True
  | call (.make r _) => ∀ k, ∀ m ∈ MemberKind.listed k r, u.Has k m
  | call (.edit id change _) =>
      ∀ k, (∀ m ∈ MemberKind.listed k (change (u.record id)), u.Has k m) ∧
        (u.isManaged id = true → MemberKind.listed k (change (u.record id)) = u.members k id)
  | call (.letGo held members) =>
      u.catalog.releasedMembers ⊆ members ∧ (∀ serial ∈ members, serial < u.catalog.membersMade) ∧
        ∀ k id, (u.letGo held members).catalog.isLive id = true →
          ∀ m ∈ u.members k id, MemberKind.serial k m ∉ members
  | call _ => True

/-- Whether all uses of a run are allowed. -/
def AllowsAll : Universe → List MemberUse → Prop
  | _, [] => True
  | u, c :: uses => c.Allows u ∧ AllowsAll (c.step u) uses

/-- Whether a use removes a registered class that has a member. -/
def Dismisses (k : MemberKind) (m : k.Member) (u : Universe) : MemberUse → Prop
  | call (.remove id) => u.isManaged id = true ∧ m ∈ u.members k id
  | _ => False

/-- Whether a use leaves the members of the classes that stay registered alone: such a class loses
none, and has none in common with a class that is removed. -/
def Spares (k : MemberKind) (u : Universe) (c : MemberUse) : Prop :=
  ∀ name id m, u.find? name = some id → (c.step u).find? name = some id → m ∈ u.members k id →
    m ∈ (c.step u).members k id ∧ ¬ c.Dismisses k m u

/-- Whether all uses of a run leave the members of classes alone. -/
def SparesAll (k : MemberKind) : Universe → List MemberUse → Prop
  | _, [] => True
  | u, c :: uses => c.Spares k u ∧ SparesAll k (c.step u) uses

/-- Whether a member counts after a run, where it is told whether it does before: it does since it
has become one of a registered class, until a class that has it is removed. -/
def Counts (k : MemberKind) (m : k.Member) : Prop → Universe → List MemberUse → Prop
  | before, _, [] => before
  | before, u, c :: uses =>
      Counts k m (before ∧ ¬ c.Dismisses k m u ∨ u.Gains (c.step u) k m) (c.step u) uses

end MemberUse

namespace Universe

/-- The member that is found under a number. -/
def memberAt? (u : Universe) (k : MemberKind) (number : Nat) : Option k.Member :=
  (u.numbering k).get? (k.isLive u.catalog) number

/-- The number of a member. -/
def numberOf? (u : Universe) (k : MemberKind) (m : k.Member) : Option Nat := (u.numbering k).idOf? m

/-- Whether a member is found under its number, if it has one: a numbering that recycles finds the
members that exist. -/
def finds (u : Universe) (k : MemberKind) (m : k.Member) : Bool :=
  (u.numbering k).finds (k.isLive u.catalog) m

/-- A member has a number and is found under it. -/
def IsNumbered (u : Universe) (k : MemberKind) (m : k.Member) : Prop :=
  ∃ number, u.memberAt? k number = some m

/-- Registered classes have no members of a kind below `signatures`, and share none. -/
structure IsTidy (u : Universe) (k : MemberKind) : Prop where
  bare : ∀ {name id}, u.find? name = some id → u.isLoaded id .signatures = false →
    u.members k id = []
  apart : ∀ {name other id id'} {m : k.Member}, u.find? name = some id →
    u.find? other = some id' → m ∈ u.members k id → m ∈ u.members k id' → id = id'

variable {u v : Universe} {k : MemberKind} {m : k.Member} {name : String} {id : ClassId}

instance (u : Universe) (k : MemberKind) (m : k.Member) : Decidable (u.Declares k m) :=
  decidable_of_iff (∃ id ∈ u.registry.ids, m ∈ u.members k id) <| by
    simp only [Declares, Registry.mem_ids_iff, Universe.find?, ← exists_and_right]
    exact exists_comm

instance (u : Universe) (k : MemberKind) : Decidable (u.IsTidy k) :=
  decidable_of_iff (∀ id ∈ u.registry.ids,
      (u.isLoaded id .signatures = false → u.members k id = []) ∧
        ∀ id' ∈ u.registry.ids, ∀ m ∈ u.members k id, m ∈ u.members k id' → id = id') <| by
    simp only [Registry.mem_ids_iff]
    constructor
    · intro h
      refine ⟨fun found => (h _ ⟨_, found⟩).1, fun found found' hm hm' => ?_⟩
      exact (h _ ⟨_, found⟩).2 _ ⟨_, found'⟩ _ hm hm'
    · rintro h id ⟨name, found⟩
      refine ⟨h.bare found, ?_⟩
      rintro id' ⟨other, found'⟩ m hm hm'
      exact h.apart found found' hm hm'

theorem HoldsMembers.memberAt?_eq_some_iff (h : u.HoldsMembers) {number : Nat} :
    u.memberAt? k number = some m ↔ u.numberOf? k m = some number ∧ u.finds k m = true :=
  Numbering.get?_eq_some_iff_finds (h.numbering k)

theorem HoldsMembers.isNumbered_iff (h : u.HoldsMembers) :
    u.IsNumbered k m ↔ (∃ number, u.numberOf? k m = some number) ∧ u.finds k m = true := by
  unfold IsNumbered
  simp only [h.memberAt?_eq_some_iff, exists_and_right]

theorem HoldsMembers.finds_of_declares (h : u.HoldsMembers) (wf : u.IsWellFormed)
    (declares : u.Declares k m) : u.finds k m = true :=
  Numbering.finds_of_live (h.live_of_declares wf declares)

theorem touches_enter (u : Universe) (id : ClassId) : u.Touches (u.enter id).2 id where
  others hne _ := record_enter_of_ne hne
  known hf hne := known_enter hf hne

namespace HoldsMembers

theorem without (h : u.HoldsMembers) (id : ClassId) : (u.without id).HoldsMembers :=
  h.of_members (fun k other => members_without u k id other) (fun live => live) rfl rfl fun k => by
    change (k.numbering (u.numbers.removeClass u.catalog id)).IsWellFormed
    rw [k.numbering_removeClass]
    exact Numbering.isWellFormed_removeAll (h.numbering k) _

/-- The members of a descriptor are changed. -/
theorem change (h : u.HoldsMembers) {f : ClassRecord → ClassRecord}
    (has : ∀ k, ∀ m ∈ MemberKind.listed k (f (u.record id)), u.Has k m) :
    (u.change id f).HoldsMembers where
  made {k other m} hm := by
    rcases mem_members_change hm with old | new
    · exact h.made old
    · exact (has k m new).1
  live {k other m} live hm := by
    rcases mem_members_change hm with old | new
    · exact h.live live old
    · exact (has k m new).2
  released := h.released
  numbering := h.numbering

end HoldsMembers

/-! ## Changes that remove no class -/

theorem find_of_without {other : String} {one : ClassId}
    (found : (u.without id).find? other = some one) : u.find? other = some one := by
  rw [find?_without] at found
  split at found
  · cases found
  · exact found

/-- A change that removes no class.  A class that has been brought to `signatures` has its members
still, numbers are given to the members that come, and what has been let go does not come back. -/
structure Brings (u v : Universe) : Prop where
  find : ∀ {name id}, u.find? name = some id → v.find? name = some id
  members : ∀ {k name id}, u.find? name = some id → v.members k id = u.members k id ∨
    u.isLoaded id .signatures = false
  released : u.catalog.releasedMembers ⊆ v.catalog.releasedMembers
  holds : v.HoldsMembers
  adds : ∀ k, (u.numbering k).Adds (k.isLive v.catalog) (v.numbering k) (u.Gains v k)

theorem Renews.brings (h : ∀ k, u.Renews v k) (holds : v.HoldsMembers) : u.Brings v where
  find := (h .methods).grows.find
  members {k _ _} _ := ((h k).members _).imp_right And.left
  released := (h .methods).released ▸ List.Subset.refl _
  holds := holds
  adds k := by
    rw [k.isLive_congr (h k).released]
    exact (h k).adds

namespace HoldsMembers

/-- A change that touches neither registered classes nor numbers. -/
theorem brings_of_still (h : u.HoldsMembers) (holds : v.HoldsMembers)
    (find : ∀ name, v.find? name = u.find? name)
    (same : ∀ k {name id}, u.find? name = some id → v.members k id = u.members k id)
    (released : u.catalog.releasedMembers ⊆ v.catalog.releasedMembers)
    (numbering : ∀ k, v.numbering k = u.numbering k) : u.Brings v where
  find found := (find _).trans found
  members {k _ _} found := .inl (same k found)
  released := released
  holds := holds
  adds k := by
    have known {name : String} {id : ClassId} (found : v.find? name = some id) :
        u.find? name = some id := (find name).symm.trans found
    rw [numbering]
    refine (Numbering.Adds.refl (h.numbering k)).congr fun m => ⟨False.elim, ?_⟩
    exact not_gains known fun found => same k (known found)

theorem brings_enter (h : u.HoldsMembers) (wf : u.IsWellFormed)
    (out : (u.record id).inScene = false) (absent : u.find? (u.record id).name = none) :
    u.Brings (u.enter id).2 where
  find {name other} found := by
    rw [find?_enter, if_neg, found]
    rintro rfl
    rw [absent] at found
    cases found
  members {k _ _} _ := .inl (members_enter u k id _)
  released := List.Subset.refl _
  holds := h.enter id
  adds k := by
    have found : (u.enter id).2.find? (u.record id).name = some id := by
      rw [find?_enter, if_pos rfl]
    refine (adds_enter u id (h.numbering k)).congr fun m => ?_
    rw [gains_iff_of_touches wf (touches_enter u id) found fun m hm before => ?_, members_enter]
    exact wf.ne_of_not_inScene out before.1 rfl

/-- Members have been made. -/
theorem more (h : u.HoldsMembers) (count : Nat) :
    HoldsMembers { u with catalog :=
      { u.catalog with membersMade := u.catalog.membersMade + count } } where
  made hm := Nat.lt_of_lt_of_le (h.made hm) (Nat.le_add_right _ count)
  live := h.live
  released hs := Nat.lt_of_lt_of_le (h.released hs) (Nat.le_add_right _ count)
  numbering := h.numbering

/-- What no descriptor holds has been let go. -/
theorem letGo (h : u.HoldsMembers) {held : List ClassId} {members : List Nat}
    (made : ∀ serial ∈ members, serial < u.catalog.membersMade)
    (kept : ∀ k id, (u.letGo held members).catalog.isLive id = true →
      ∀ m ∈ u.members k id, MemberKind.serial k m ∉ members) :
    (u.letGo held members).HoldsMembers where
  made := h.made
  live {k id m} live hm := by
    have unreleased : k.serial m ∉ members := kept k id live m hm
    change (!members.contains (k.serial m)) = true
    simpa using unreleased
  released hs := made _ hs
  numbering := h.numbering

end HoldsMembers

end Universe

namespace MemberUse

open Universe

variable {u : Universe} {c : MemberUse} {k : MemberKind} {m : k.Member} {name : String}
  {id : ClassId}

/-! ## One use -/

theorem isWellFormed_step (wf : u.IsWellFormed) (c : MemberUse) : (c.step u).IsWellFormed := by
  cases c with
  | makeMembers count =>
      refine wf.of_standsLike (wf.standsLike_change u.next (fun made => ?_) (fun _ _ => rfl)
        rfl rfl rfl rfl)
      exact .refl _
  | call c => exact c.isWellFormed_run wf

/-- A use removes a registered class, or it removes none and gives numbers to the members that
come. -/
theorem step_cases (wf : u.IsWellFormed) (h : u.HoldsMembers) (allowed : c.Allows u) :
    (∃ id, c = .call (.remove id) ∧ u.isManaged id = true ∧ c.step u = u.without id) ∨
      (∀ k m, ¬ c.Dismisses k m u) ∧ u.Brings (c.step u) := by
  have same : u.catalog.releasedMembers ⊆ u.catalog.releasedMembers := List.Subset.refl _
  cases c with
  | makeMembers count =>
      refine .inr ⟨fun _ _ => id, ?_⟩
      exact h.brings_of_still (h.more count) (fun _ => rfl) (fun _ _ _ _ => rfl) same fun _ => rfl
  | call c =>
      have does := c.does_run wf
      simp only [step]
      generalize c.run u = v at does ⊢
      cases does with
      | nothing refused =>
          refine .inr ⟨fun k m dismisses => ?_, ?_⟩
          · cases c with
            | remove id =>
                have managed := dismisses.1
                rw [refused id rfl] at managed
                cases managed
            | _ => exact dismisses
          · exact h.brings_of_still h (fun _ => rfl) (fun _ _ _ _ => rfl) same fun _ => rfl
      | make r fresh =>
          have holds : (u.withNew r).HoldsMembers := h.withNew allowed
          refine .inr ⟨fun _ _ => id, ?_⟩
          refine h.brings_of_still holds (fun _ => rfl) (fun k name id found => ?_) same fun _ => rfl
          exact members_withNew (wf.stands found).made
      | edit id change stands =>
          have holds : (u.change id change).HoldsMembers := h.change fun k => (allowed k).1
          refine .inr ⟨fun _ _ => False.elim, ?_⟩
          refine h.brings_of_still holds (fun _ => rfl) (fun k name other found => ?_) same
            fun _ => rfl
          by_cases hid : other = id
          · subst hid
            have managed := wf.isManaged_iff.mpr ⟨name, found⟩
            rw [members_change_self (wf.stands found).made, (allowed k).2 managed]
          · exact members_change_of_ne hid
      | letGo held members =>
          obtain ⟨gone, made, kept⟩ := allowed
          refine .inr ⟨fun _ _ => id, ?_⟩
          exact h.brings_of_still (h.letGo made kept) (fun _ => rfl) (fun _ _ _ _ => rfl) gone
            fun _ => rfl
      | enter id made live out absent =>
          exact .inr ⟨fun _ _ => False.elim, h.brings_enter wf out absent⟩
      | leave id managed => exact .inl ⟨id, rfl, managed, rfl⟩
      | move id p =>
          have brings := Renews.brings (fun _ => .moved h id p) (h.moved id p)
          exact .inr ⟨fun _ _ => False.elim, brings⟩
      | haunt name absent =>
          have brings := Renews.brings (fun _ => .haunted h wf absent) (h.haunted name)
          exact .inr ⟨fun _ _ => id, brings⟩
      | resolve s q moves =>
          obtain ⟨renews, holds⟩ := moves.renews wf h
          exact .inr ⟨fun _ _ => id, Renews.brings renews holds⟩
      | close s q =>
          have holds : HoldsMembers { u with isClosed := true } :=
            h.of_members (fun _ _ => rfl) (fun live => live) rfl rfl h.numbering
          refine .inr ⟨fun _ _ => id, ?_⟩
          exact h.brings_of_still holds (fun _ => rfl) (fun _ _ _ _ => rfl) same fun _ => rfl

theorem holdsMembers_step (wf : u.IsWellFormed) (h : u.HoldsMembers) (allowed : c.Allows u) :
    (c.step u).HoldsMembers := by
  rcases step_cases wf h allowed with ⟨id, -, -, removed⟩ | ⟨-, brings⟩
  · exact removed ▸ h.without id
  · exact brings.holds

theorem numbering_without (u : Universe) (k : MemberKind) (id : ClassId) :
    (u.without id).numbering k = (u.numbering k).removeAll (u.members k id) :=
  k.numbering_removeClass u.numbers u.catalog id

/-- A member that is found has been found before. -/
theorem finds_of_step (wf : u.IsWellFormed) (h : u.HoldsMembers) (allowed : c.Allows u)
    (found : (c.step u).finds k m = true) : u.finds k m = true := by
  unfold Universe.finds at found ⊢
  rcases step_cases wf h allowed with ⟨id, -, -, removed⟩ | ⟨-, brings⟩
  · rw [removed, numbering_without, Numbering.finds_removeAll] at found
    exact found
  · rw [(brings.adds k).finds] at found
    refine Numbering.finds_mono (fun live => ?_) found
    simp only [MemberKind.isLive, Catalog.isLiveMember, Bool.not_eq_true', List.contains_eq_mem,
      decide_eq_false_iff_not] at live ⊢
    exact fun old => live (brings.released old)

/-- A member has a number after a use if it had one and no class that has it has been removed, or if
it has become one of a registered class. -/
theorem numbered_step (wf : u.IsWellFormed) (h : u.HoldsMembers) (allowed : c.Allows u)
    (found : (c.step u).finds k m = true) :
    (∃ number, (c.step u).numberOf? k m = some number) ↔
      (∃ number, u.numberOf? k m = some number) ∧ ¬ c.Dismisses k m u ∨
        u.Gains (c.step u) k m := by
  rcases step_cases wf h allowed with ⟨id, rfl, managed, removed⟩ | ⟨stays, brings⟩
  · have lost : ¬ u.Gains (u.without id) k m :=
      not_gains (fun found => find_of_without found) fun _ => members_without u k id _
    have number : (u.without id).numberOf? k m =
        if m ∈ u.members k id then none else u.numberOf? k m := by
      unfold numberOf?
      rw [numbering_without, Numbering.idOf?_removeAll (h.numbering k)]
    rw [removed, number]
    by_cases hm : m ∈ u.members k id <;> simp [Dismisses, managed, hm, lost]
  · rw [and_iff_left (stays k m)]
    exact (brings.adds k).numbered_iff found

/-- A member that has a number before and after a use has the same number. -/
theorem numberOf?_step {number : Nat} (wf : u.IsWellFormed) (h : u.HoldsMembers)
    (allowed : c.Allows u) (found : (c.step u).finds k m = true)
    (before : u.numberOf? k m = some number)
    (still : ∃ number, (c.step u).numberOf? k m = some number) :
    (c.step u).numberOf? k m = some number := by
  rcases step_cases wf h allowed with ⟨id, -, -, removed⟩ | ⟨-, brings⟩
  · obtain ⟨later, still⟩ := still
    unfold numberOf? at still ⊢
    rw [removed, numbering_without, Numbering.idOf?_removeAll (h.numbering k)] at still ⊢
    split at still
    · cases still
    · rwa [if_neg ‹_›]
  · have adds := brings.adds k
    exact adds.kept ((adds.finds m).symm.trans found) before

/-- A class stays registered unless it is removed. -/
theorem find?_step (wf : u.IsWellFormed) (h : u.HoldsMembers) (allowed : c.Allows u)
    (found : u.find? name = some id) (hm : m ∈ u.members k id) (stays : ¬ c.Dismisses k m u) :
    (c.step u).find? name = some id := by
  rcases step_cases wf h allowed with ⟨other, rfl, managed, removed⟩ | ⟨-, brings⟩
  · rw [removed, find?_without, if_neg, found]
    intro named
    have same : u.find? name = some other := named ▸ beq_iff_eq.mp managed
    cases found.symm.trans same
    exact stays ⟨managed, hm⟩
  · exact brings.find found

/-- Where the members of classes are left alone, a member is one of a registered class after a use
if it was one and no class that has it has been removed, or if it has become one. -/
theorem declares_step (wf : u.IsWellFormed) (h : u.HoldsMembers) (allowed : c.Allows u)
    (spares : c.Spares k u) :
    (c.step u).Declares k m ↔
      u.Declares k m ∧ ¬ c.Dismisses k m u ∨ u.Gains (c.step u) k m := by
  constructor
  · rintro ⟨name, id, found, hm⟩
    by_cases before : u.find? name = some id ∧ m ∈ u.members k id
    · exact .inl ⟨⟨name, id, before⟩, (spares name id m before.1 found before.2).2⟩
    · exact .inr ⟨name, id, found, hm, before⟩
  · rintro (⟨⟨name, id, found, hm⟩, stays⟩ | ⟨name, id, found, hm, -⟩)
    · have still := find?_step wf h allowed found hm stays
      exact ⟨name, id, still, (spares name id m found still hm).1⟩
    · exact ⟨name, id, found, hm⟩

/-- A member keeps its number as long as it has one. -/
theorem memberAt?_step {number : Nat} (wf : u.IsWellFormed) (h : u.HoldsMembers)
    (allowed : c.Allows u) (before : u.memberAt? k number = some m)
    (still : (c.step u).IsNumbered k m) : (c.step u).memberAt? k number = some m := by
  have h' := holdsMembers_step wf h allowed
  obtain ⟨had, -⟩ := h.memberAt?_eq_some_iff.mp before
  obtain ⟨has, found⟩ := h'.isNumbered_iff.mp still
  exact h'.memberAt?_eq_some_iff.mpr ⟨numberOf?_step wf h allowed found had has, found⟩

/-! ## Runs -/

variable {uses : List MemberUse}

theorem isWellFormed_run (wf : u.IsWellFormed) (uses : List MemberUse) :
    (run uses u).IsWellFormed := by
  induction uses generalizing u with
  | nil => exact wf
  | cons c uses ih => exact ih (isWellFormed_step wf c)

theorem holdsMembers_run (wf : u.IsWellFormed) (h : u.HoldsMembers) (allowed : AllowsAll u uses) :
    (run uses u).HoldsMembers := by
  induction uses generalizing u with
  | nil => exact h
  | cons c uses ih => exact ih (isWellFormed_step wf c) (holdsMembers_step wf h allowed.1) allowed.2

theorem finds_of_run (wf : u.IsWellFormed) (h : u.HoldsMembers) (allowed : AllowsAll u uses)
    (found : (run uses u).finds k m = true) : u.finds k m = true := by
  induction uses generalizing u with
  | nil => exact found
  | cons c uses ih =>
      have later := ih (isWellFormed_step wf c) (holdsMembers_step wf h allowed.1) allowed.2 found
      exact finds_of_step wf h allowed.1 later

/-- After a run those members have numbers that count. -/
theorem numbered_run (wf : u.IsWellFormed) (h : u.HoldsMembers) (allowed : AllowsAll u uses)
    (found : (run uses u).finds k m = true) :
    (∃ number, (run uses u).numberOf? k m = some number) ↔
      Counts k m (∃ number, u.numberOf? k m = some number) u uses := by
  induction uses generalizing u with
  | nil => rfl
  | cons c uses ih =>
      have wf' := isWellFormed_step wf c
      have h' := holdsMembers_step wf h allowed.1
      have found' := finds_of_run wf' h' allowed.2 found
      unfold Counts
      rw [← numbered_step wf h allowed.1 found']
      exact ih wf' h' allowed.2 found

/-- After a run that leaves the members of classes alone those members are members of registered
classes that count. -/
theorem declares_run (wf : u.IsWellFormed) (h : u.HoldsMembers) (allowed : AllowsAll u uses)
    (spares : SparesAll k u uses) :
    (run uses u).Declares k m ↔ Counts k m (u.Declares k m) u uses := by
  induction uses generalizing u with
  | nil => rfl
  | cons c uses ih =>
      unfold Counts
      rw [← declares_step wf h allowed.1 spares.1]
      exact ih (isWellFormed_step wf c) (holdsMembers_step wf h allowed.1) allowed.2 spares.2

/-- A member that has a number all along keeps it. -/
theorem memberAt?_run {number : Nat} (wf : u.IsWellFormed) (h : u.HoldsMembers)
    (allowed : AllowsAll u uses)
    (still : ∀ i ≤ uses.length, (run (uses.take i) u).IsNumbered k m)
    (before : u.memberAt? k number = some m) : (run uses u).memberAt? k number = some m := by
  induction uses generalizing u with
  | nil => exact before
  | cons c uses ih =>
      have next : (c.step u).IsNumbered k m := still 1 (Nat.le_add_left _ _)
      refine ih (isWellFormed_step wf c) (holdsMembers_step wf h allowed.1) allowed.2
        (fun i hi => ?_) (memberAt?_step wf h allowed.1 before next)
      exact still (i + 1) (Nat.succ_le_succ hi)

/-- In a run that leaves the members of classes alone a member keeps its number as long as its class
is registered. -/
theorem memberAt?_run_of_spares {number : Nat} (wf : u.IsWellFormed) (h : u.HoldsMembers)
    (allowed : AllowsAll u uses) (spares : SparesAll k u uses)
    (registered : ∀ i ≤ uses.length, (run (uses.take i) u).find? name = some id)
    (hm : m ∈ u.members k id) (before : u.memberAt? k number = some m) :
    (run uses u).memberAt? k number = some m := by
  induction uses generalizing u with
  | nil => exact before
  | cons c uses ih =>
      have wf' := isWellFormed_step wf c
      have h' := holdsMembers_step wf h allowed.1
      have still : (c.step u).find? name = some id := registered 1 (Nat.le_add_left _ _)
      obtain ⟨hm', stays⟩ := spares.1 name id m (registered 0 (Nat.zero_le _)) still hm
      have found := h'.finds_of_declares wf' ⟨name, id, still, hm'⟩
      have numbered := (numbered_step wf h allowed.1 found).mpr
        (.inl ⟨(h.isNumbered_iff.mp ⟨number, before⟩).1, stays⟩)
      have next : (c.step u).memberAt? k number = some m :=
        memberAt?_step wf h allowed.1 before (h'.isNumbered_iff.mpr ⟨numbered, found⟩)
      refine ih wf' h' allowed.2 spares.2 (fun i hi => ?_) hm' next
      exact registered (i + 1) (Nat.succ_le_succ hi)

/-! ## Tidy universes -/

/-- Where no other class has the member, it is not dismissed as long as its class stays. -/
theorem not_dismisses (wf : u.IsWellFormed) (tidy : u.IsTidy k) (found : u.find? name = some id)
    (hm : m ∈ u.members k id) (still : (c.step u).find? name = some id) :
    ¬ c.Dismisses k m u := by
  intro dismisses
  cases c with
  | makeMembers count => exact dismisses
  | call c =>
      cases c with
      | remove other =>
          obtain ⟨managed, hm'⟩ := dismisses
          cases tidy.apart (beq_iff_eq.mp managed) found hm' hm
          simp only [step, Call.run] at still
          rw [after_removeClass, if_pos managed, find?_without,
            if_pos (wf.stands found).named.symm] at still
          cases still
      | _ => exact dismisses

theorem spares_of_isTidy (wf : u.IsWellFormed) (h : u.HoldsMembers) (allowed : c.Allows u)
    (tidy : u.IsTidy k) : c.Spares k u := by
  intro name id m found still hm
  refine ⟨?_, not_dismisses wf tidy found hm still⟩
  rcases step_cases wf h allowed with ⟨other, -, -, removed⟩ | ⟨-, brings⟩
  · rwa [removed, members_without]
  · rcases brings.members found with same | low
    · exact same ▸ hm
    · rw [tidy.bare found low] at hm
      cases hm

/-- Runs through tidy universes leave the members of classes alone. -/
theorem sparesAll_of_isTidy (wf : u.IsWellFormed) (h : u.HoldsMembers) (allowed : AllowsAll u uses)
    (tidy : ∀ i ≤ uses.length, (run (uses.take i) u).IsTidy k) : SparesAll k u uses := by
  induction uses generalizing u with
  | nil => exact trivial
  | cons c uses ih =>
      refine ⟨spares_of_isTidy wf h allowed.1 (tidy 0 (Nat.zero_le _)), ?_⟩
      refine ih (isWellFormed_step wf c) (holdsMembers_step wf h allowed.1) allowed.2 fun i hi => ?_
      exact tidy (i + 1) (Nat.succ_le_succ hi)

/-! ## The numbers of members -/

theorem numberOf?_empty (recycles allowPhantoms : Bool) :
    (Universe.empty recycles allowPhantoms).numberOf? k m = none := by
  cases k <;> exact Numbering.idOf?_empty recycles m

/-- After a run from the universe without classes each numbered member has one number and no two
have the same.  The numbered members are those that count and are found, and each keeps its number
as long as it has one.  If the run has left the members of classes alone, then the numbered members
are those of the registered classes, and as long as this goes on each of them keeps its number while
its class is registered. -/
theorem memberNumbers_run (recycles allowPhantoms : Bool) {uses : List MemberUse}
    (allowed : AllowsAll (.empty recycles allowPhantoms) uses) (k : MemberKind) :
    let u := run uses (.empty recycles allowPhantoms)
    (∀ number m, u.memberAt? k number = some m ↔
      u.numberOf? k m = some number ∧ u.finds k m = true) ∧
    (∀ m, u.IsNumbered k m ↔
      Counts k m False (.empty recycles allowPhantoms) uses ∧ u.finds k m = true) ∧
    (∀ more number m, AllowsAll u more →
      (∀ i ≤ more.length, (run (more.take i) u).IsNumbered k m) →
      u.memberAt? k number = some m → (run more u).memberAt? k number = some m) ∧
    (SparesAll k (.empty recycles allowPhantoms) uses →
      (∀ m, u.IsNumbered k m ↔ u.Declares k m) ∧
      ∀ more name id, AllowsAll u more → SparesAll k u more →
        (∀ i ≤ more.length, (run (more.take i) u).find? name = some id) →
        ∀ m ∈ u.members k id, ∃ number, u.memberAt? k number = some m ∧
          (run more u).memberAt? k number = some m) := by
  have wf₀ := isWellFormed_empty recycles allowPhantoms
  have h₀ := holdsMembers_empty recycles allowPhantoms
  intro u
  have wf : u.IsWellFormed := isWellFormed_run wf₀ uses
  have h : u.HoldsMembers := holdsMembers_run wf₀ h₀ allowed
  have counted (m : k.Member) : u.IsNumbered k m ↔
      Counts k m False (.empty recycles allowPhantoms) uses ∧ u.finds k m = true := by
    have none :
        ¬ ∃ number, (Universe.empty recycles allowPhantoms).numberOf? k m = some number := by
      simp [numberOf?_empty]
    rw [h.isNumbered_iff, ← eq_false none]
    exact and_congr_left (numbered_run wf₀ h₀ allowed)
  refine ⟨fun number m => h.memberAt?_eq_some_iff, counted, fun more number m allowed' still =>
    memberAt?_run wf h allowed' still, fun spares => ?_⟩
  have declared (m : k.Member) : u.IsNumbered k m ↔ u.Declares k m := by
    have none : ¬ (Universe.empty recycles allowPhantoms).Declares k m := by
      rintro ⟨name, id, found, -⟩
      cases found
    have declares : u.Declares k m ↔ _ := declares_run wf₀ h₀ allowed spares
    rw [counted, ← eq_false none, ← declares]
    exact and_iff_left_of_imp (h.finds_of_declares wf)
  refine ⟨declared, fun more name id allowed' spares' registered m hm => ?_⟩
  obtain ⟨number, before⟩ := (declared m).mpr ⟨name, id, registered 0 (Nat.zero_le _), hm⟩
  exact ⟨number, before, memberAt?_run_of_spares wf h allowed' spares' registered hm before⟩

/-! ## Members that have been replaced -/

def oldMethod : MemberKind.methods.Member :=
  Method.mk 0 "a.A" { name := "old", parameterTypes := [], returnType := "void" }

def newSource : MemorySource :=
  MemorySource.empty.add
    { name := "a.A", methods := [{ name := "run", parameterTypes := [], returnType := "void" }] }

/-- A descriptor with a method is made and registered. -/
def registration : List MemberUse :=
  [.makeMembers 1, .call (.make { name := "a.A", methods := [oldMethod] } ⟨rfl, rfl⟩),
    .call (.add ⟨0⟩)]

/-- The class is brought to `signatures` and removed. -/
def replacement : List MemberUse :=
  [.call (.request newSource.supply (.resolve .regular "a.A" .signatures)), .call (.remove ⟨0⟩)]

theorem allowsAll_replacement (recycles : Bool) :
    AllowsAll (.empty recycles false) (registration ++ replacement) := by
  refine ⟨trivial, fun k m hm => ?_, trivial, trivial, trivial, trivial⟩
  cases k with
  | methods =>
      cases List.mem_singleton.mp hm
      exact ⟨Nat.zero_lt_one, rfl⟩
  | fields => cases hm

/-- The replaced method counts after all, and where nothing is replaced the numbered methods are
those of the registered classes. -/
theorem memberNumbers_run_replacement :
    (AllowsAll (.empty true false) (registration ++ replacement) ∧
      Counts .methods oldMethod False (.empty true false) (registration ++ replacement)) ∧
    SparesAll .methods (.empty true false) replacement ∧
      ∀ m, (run replacement (.empty true false)).IsNumbered .methods m ↔
        (run replacement (.empty true false)).Declares .methods m := by
  have allowed := allowsAll_replacement true
  obtain ⟨-, counts, -⟩ := memberNumbers_run true false allowed .methods
  have numbered : (run (registration ++ replacement) (.empty true false)).IsNumbered .methods
      oldMethod := ⟨1, by decide +kernel⟩
  have tidy : ∀ i ≤ replacement.length,
      (run (replacement.take i) (.empty true false)).IsTidy .methods := by
    decide +kernel
  have allowed' : AllowsAll (.empty true false) replacement := ⟨trivial, trivial, trivial⟩
  have spares := sparesAll_of_isTidy (isWellFormed_empty true false)
    (holdsMembers_empty true false) allowed' tidy
  obtain ⟨-, -, -, declared⟩ := memberNumbers_run true false allowed' .methods
  exact ⟨⟨allowed, ((counts oldMethod).mp numbered).1⟩, spares, (declared spares).1⟩

/-- The numbered members need not be those of the registered classes: the replaced method has a
number beside the one that has come, and keeps it when the class is removed. -/
theorem not_isNumbered_iff_declares :
    AllowsAll (.empty false false) (registration ++ replacement) ∧
      (run (registration ++ replacement.take 1) (.empty false false)).IsNumbered .methods
        oldMethod ∧
      ¬ (run (registration ++ replacement.take 1) (.empty false false)).Declares .methods
        oldMethod ∧
      (run (registration ++ replacement) (.empty false false)).registry.ids = [] ∧
      (run (registration ++ replacement) (.empty false false)).IsNumbered .methods oldMethod := by
  refine ⟨allowsAll_replacement false, ⟨1, ?_⟩, ?_, ?_, ⟨1, ?_⟩⟩
  all_goals decide +kernel

end MemberUse

end ClassUniverse
