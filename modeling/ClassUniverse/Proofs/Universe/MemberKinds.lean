import ClassUniverse.Proofs.Numbering.Batches
import ClassUniverse.Proofs.Universe.Members
import ClassUniverse.Proofs.Universe.Runs

/-!
# The members of registered classes

Classes have methods and fields, and each kind of members is numbered on its own.  A registered
class gets members when it is registered and when resolution brings it to `signatures`; resolution
then puts them in the place of the members that the class had.  Either way the members that a class
gets are given numbers, and no other members are.
-/

namespace ClassUniverse

/-- The two kinds of members. -/
inductive MemberKind
  | methods
  | fields
  deriving DecidableEq, Repr

namespace MemberKind

/-- The members of a kind. -/
def Member : MemberKind → Type
  | methods => Method
  | fields => Field

instance (k : MemberKind) : DecidableEq k.Member :=
  match k with
  | methods => inferInstanceAs (DecidableEq Method)
  | fields => inferInstanceAs (DecidableEq Field)

def serial : (k : MemberKind) → k.Member → Nat
  | methods => Method.serial
  | fields => Field.serial

/-- The members of a kind that a class has. -/
def listed : (k : MemberKind) → ClassRecord → List k.Member
  | methods => ClassRecord.methods
  | fields => ClassRecord.fields

/-- The numbering of a kind. -/
def numbering : (k : MemberKind) → Numberings → Numbering k.Member
  | methods => Numberings.methods
  | fields => Numberings.fields

/-- Whether a member exists. -/
def isLive (k : MemberKind) (c : Catalog) (m : k.Member) : Bool := c.isLiveMember (k.serial m)

variable (k : MemberKind)

theorem isLive_congr {c c' : Catalog} (released : c'.releasedMembers = c.releasedMembers) :
    k.isLive c' = k.isLive c := by
  unfold isLive Catalog.isLiveMember
  rw [released]

theorem numbering_addMembers (n : Numberings) (c : Catalog) (id : ClassId) :
    k.numbering (n.addMembers c id) =
      (k.numbering n).addAll (k.isLive c) (k.listed (c.get id)) := by
  cases k <;> rfl

theorem numbering_addClass (n : Numberings) (c : Catalog) (id : ClassId) :
    k.numbering (n.addClass c id).2 =
      (k.numbering n).addAll (k.isLive c) (k.listed (c.get id)) := by
  cases k <;> rfl

theorem numbering_removeClass (n : Numberings) (c : Catalog) (id : ClassId) :
    k.numbering (n.removeClass c id) = (k.numbering n).removeAll (k.listed (c.get id)) := by
  cases k <;> rfl

theorem listed_congr {r r' : ClassRecord} (methods : r'.methods = r.methods)
    (fields : r'.fields = r.fields) : k.listed r' = k.listed r := by
  cases k
  · exact methods
  · exact fields

theorem listed_raise (r : ClassRecord) (level : Level) :
    k.listed (r.raise level) = k.listed r := by
  unfold ClassRecord.raise
  split
  · exact k.listed_congr rfl rfl
  · rfl

/-- Only the addition of members changes the members of a class. -/
theorem listed_onRecord {a : Addition} (other : a ≠ .members) (d : ClassDefinition) (serial : Nat)
    (r : ClassRecord) : k.listed (a.onRecord d serial r) = k.listed r := by
  cases a with
  | members => exact absurd rfl other
  | nothing | supertypes _ _ | bodies => exact k.listed_congr rfl rfl

/-- The members that are added get the next serial numbers. -/
theorem serial_of_mem_onRecord {d : ClassDefinition} {serial : Nat} {r : ClassRecord}
    {k : MemberKind} {m : k.Member} (hm : m ∈ k.listed (Addition.members.onRecord d serial r)) :
    serial ≤ k.serial m ∧ k.serial m < serial + d.fields.length + d.methods.length := by
  cases k with
  | methods =>
      obtain ⟨low, given, -⟩ := Catalog.mem_numbered.mp hm
      obtain ⟨bound, -⟩ := List.getElem?_eq_some_iff.mp given
      change serial ≤ m.serial ∧ m.serial < _
      omega
  | fields =>
      obtain ⟨⟨f, number⟩, hf, rfl⟩ := List.mem_map.mp hm
      obtain ⟨low, given⟩ := List.mk_mem_zipIdx_iff_le_and_getElem?_sub.mp hf
      obtain ⟨bound, -⟩ := List.getElem?_eq_some_iff.mp given
      change serial ≤ number ∧ number < _
      omega

end MemberKind

namespace Universe

variable {u v w : Universe} {k : MemberKind} {name : String} {id one : ClassId} {m : k.Member}
  {d : ClassDefinition} {a : Addition}

/-- The members of a kind that a class has. -/
def members (u : Universe) (k : MemberKind) (id : ClassId) : List k.Member := k.listed (u.record id)

/-- The numbering of a kind of members. -/
def numbering (u : Universe) (k : MemberKind) : Numbering k.Member := k.numbering u.numbers

/-- A member of a class that is registered. -/
def Declares (u : Universe) (k : MemberKind) (m : k.Member) : Prop :=
  ∃ name id, u.find? name = some id ∧ m ∈ u.members k id

/-- A member becomes one of a registered class as one universe goes over into another. -/
def Gains (u v : Universe) (k : MemberKind) (m : k.Member) : Prop :=
  ∃ name id, v.find? name = some id ∧ m ∈ v.members k id ∧
    ¬ (u.find? name = some id ∧ m ∈ u.members k id)

/-- A member has been made, and it exists. -/
def Has (u : Universe) (k : MemberKind) (m : k.Member) : Prop :=
  k.serial m < u.catalog.membersMade ∧ k.isLive u.catalog m = true

/-- Descriptors have members that have been made, and those that exist hold theirs. -/
structure HoldsMembers (u : Universe) : Prop where
  made : ∀ {k id} {m : k.Member}, m ∈ u.members k id → k.serial m < u.catalog.membersMade
  live : ∀ {k id} {m : k.Member}, u.catalog.isLive id = true → m ∈ u.members k id →
    k.isLive u.catalog m = true
  released : ∀ {serial}, serial ∈ u.catalog.releasedMembers → serial < u.catalog.membersMade
  numbering : ∀ k, (u.numbering k).IsWellFormed

theorem holdsMembers_empty (recycles allowPhantoms : Bool) :
    (empty recycles allowPhantoms).HoldsMembers where
  made {k _ _} hm := by cases k <;> exact nomatch hm
  live {k _ _} _ hm := by cases k <;> exact nomatch hm
  released h := nomatch h
  numbering k := by cases k <;> exact Numbering.isWellFormed_empty recycles

theorem members_of_not_isMade (h : ¬ u.catalog.IsMade id) : u.members k id = [] := by
  unfold members Universe.record
  rw [Catalog.get_of_not_isMade h]
  cases k <;> rfl

/-- A class that is registered has members that exist. -/
theorem HoldsMembers.live_of_declares (h : u.HoldsMembers) (wf : u.IsWellFormed)
    (declares : u.Declares k m) : k.isLive u.catalog m = true := by
  obtain ⟨name, id, found, hm⟩ := declares
  exact h.live (wf.stands found).live hm

/-! ## Members after a change -/

theorem members_of_modify {f : ClassRecord → ClassRecord}
    (changed : v.catalog = u.catalog.modify id f) (same : ∀ r, k.listed (f r) = k.listed r)
    (other : ClassId) : v.members k other = u.members k other := by
  unfold members Universe.record
  rw [changed]
  by_cases h : other = id
  · subst h
    by_cases made : u.catalog.IsMade other
    · rw [Catalog.get_modify_self made, same]
    · rw [Catalog.get_of_not_isMade made,
        Catalog.get_of_not_isMade (Catalog.isMade_modify.not.mpr made)]
  · rw [Catalog.get_modify_of_ne _ h]

theorem members_change_self {f : ClassRecord → ClassRecord} (made : u.catalog.IsMade id) :
    (u.change id f).members k id = k.listed (f (u.record id)) :=
  congrArg k.listed (Catalog.get_modify_self made f)

theorem members_change_of_ne {f : ClassRecord → ClassRecord} {other : ClassId} (h : other ≠ id) :
    (u.change id f).members k other = u.members k other :=
  congrArg k.listed (Catalog.get_modify_of_ne _ h f)

theorem members_enter (u : Universe) (k : MemberKind) (id other : ClassId) :
    (u.enter id).2.members k other = u.members k other := by
  refine members_of_modify rfl (fun r => ?_) other
  exact k.listed_congr rfl rfl

theorem members_without (u : Universe) (k : MemberKind) (id other : ClassId) :
    (u.without id).members k other = u.members k other := by
  refine members_of_modify rfl (fun r => ?_) other
  exact k.listed_congr rfl rfl

theorem members_moved (u : Universe) (k : MemberKind) (id : ClassId) (p : Partition)
    (other : ClassId) : (u.moved id p).members k other = u.members k other := by
  refine members_of_modify rfl (fun r => ?_) other
  exact k.listed_congr rfl rfl

theorem members_withNew {r : ClassRecord} (made : u.catalog.IsMade id) :
    (u.withNew r).members k id = u.members k id :=
  congrArg k.listed (record_withNew made)

theorem members_next {r : ClassRecord} : (u.withNew r).members k u.next = k.listed r :=
  congrArg k.listed record_next

theorem members_lift_of_ne {other : ClassId} (h : other ≠ id) :
    (u.lift d id a).members k other = u.members k other :=
  congrArg k.listed (record_lift_of_ne h)

theorem members_lift_self (made : u.catalog.IsMade id) :
    (u.lift d id a).members k id =
      k.listed (a.onRecord d u.catalog.membersMade (u.record id)) := by
  unfold members
  rw [record_lift_self made, k.listed_raise]

theorem members_lift (other : a ≠ .members) (id' : ClassId) :
    (u.lift d id a).members k id' = u.members k id' := by
  by_cases h : id' = id
  · subst h
    by_cases made : u.catalog.IsMade id'
    · rw [members_lift_self made, k.listed_onRecord other]
      rfl
    · rw [members_of_not_isMade made, members_of_not_isMade]
      unfold Catalog.IsMade
      rwa [size_lift]
  · exact members_lift_of_ne h

theorem mem_members_withNew {r : ClassRecord} (hm : m ∈ (u.withNew r).members k id) :
    m ∈ u.members k id ∨ m ∈ k.listed r := by
  by_cases made : u.catalog.IsMade id
  · rw [members_withNew made] at hm
    exact .inl hm
  by_cases hid : id = u.next
  · rw [hid, members_next] at hm
    exact .inr hm
  · have unmade : ¬ (u.withNew r).catalog.IsMade id := fun later =>
      (Catalog.isMade_make.mp later).elim made hid
    rw [members_of_not_isMade unmade] at hm
    cases hm

theorem mem_members_change {f : ClassRecord → ClassRecord} {other : ClassId}
    (hm : m ∈ (u.change id f).members k other) :
    m ∈ u.members k other ∨ m ∈ k.listed (f (u.record id)) := by
  by_cases hid : other = id
  · subst hid
    by_cases made : u.catalog.IsMade other
    · rw [members_change_self made] at hm
      exact .inr hm
    · rw [members_of_not_isMade (Catalog.isMade_modify.not.mpr made)] at hm
      cases hm
  · rw [members_change_of_ne hid] at hm
    exact .inl hm

theorem members_withNew_of_bare {r : ClassRecord}
    (bare : (u.withNew r).members k u.next = []) (id : ClassId) :
    (u.withNew r).members k id = u.members k id := by
  by_cases made : u.catalog.IsMade id
  · exact members_withNew made
  · rw [members_of_not_isMade made, List.eq_nil_iff_forall_not_mem]
    intro m hm
    rcases mem_members_withNew hm with old | new
    · rw [members_of_not_isMade made] at old
      cases old
    · rw [← members_next (u := u), bare] at new
      cases new

theorem mem_members_lift {other : ClassId} (hm : m ∈ (u.lift d id a).members k other) :
    m ∈ u.members k other ∨ (u.catalog.membersMade ≤ k.serial m ∧
      k.serial m < (u.lift d id a).catalog.membersMade) := by
  by_cases given : a = .members
  · subst given
    by_cases hid : other = id
    · subst hid
      by_cases made : u.catalog.IsMade other
      · rw [members_lift_self made] at hm
        exact .inr (MemberKind.serial_of_mem_onRecord hm)
      · rw [members_of_not_isMade] at hm
        · cases hm
        · unfold Catalog.IsMade
          rwa [size_lift]
    · rw [members_lift_of_ne hid] at hm
      exact .inl hm
  · rw [members_lift given] at hm
    exact .inl hm

theorem membersMade_le_lift (u : Universe) (d : ClassDefinition) (id : ClassId) (a : Addition) :
    u.catalog.membersMade ≤ (u.lift d id a).catalog.membersMade := by
  cases a with
  | nothing | supertypes _ _ | bodies => exact Nat.le_refl _
  | members =>
      change u.catalog.membersMade ≤ u.catalog.membersMade + d.fields.length + d.methods.length
      omega

theorem releasedMembers_lift :
    (u.lift d id a).catalog.releasedMembers = u.catalog.releasedMembers := by
  cases a <;> rfl

/-! ## Numbers after a change -/

theorem adds_enter (u : Universe) (id : ClassId) (w : (u.numbering k).IsWellFormed) :
    (u.numbering k).Adds (k.isLive u.catalog) ((u.enter id).2.numbering k)
      fun m => m ∈ u.members k id := by
  have numbers : (u.enter id).2.numbering k =
      (u.numbering k).addAll (k.isLive u.catalog) ((u.enter id).2.members k id) :=
    k.numbering_addClass _ _ _
  rw [numbers, members_enter]
  exact Numbering.adds_addAll w _

theorem adds_lift (u : Universe) (d : ClassDefinition) (id : ClassId) (a : Addition)
    (w : (u.numbering k).IsWellFormed) :
    (u.numbering k).Adds (k.isLive u.catalog) ((u.lift d id a).numbering k)
      fun m => a = .members ∧ m ∈ (u.lift d id a).members k id := by
  cases a with
  | nothing | supertypes _ _ | bodies =>
      exact (Numbering.Adds.refl w).congr fun m => by simp
  | members =>
      have numbers : (u.lift d id .members).numbering k = (u.numbering k).addAll
          (k.isLive u.catalog) ((u.installed d id .members).members k id) :=
        k.numbering_addMembers _ _ _
      have raised : (u.lift d id .members).members k id =
          (u.installed d id .members).members k id :=
        members_of_modify rfl (fun r => k.listed_raise r _) id
      rw [numbers, ← raised]
      exact (Numbering.adds_addAll w _).congr fun m => (and_iff_right rfl).symm

/-! ## Members that come -/

theorem not_gains (known : ∀ {name id}, v.find? name = some id → u.find? name = some id)
    (same : ∀ {name id}, v.find? name = some id → v.members k id = u.members k id) :
    ¬ u.Gains v k m := by
  rintro ⟨name, id, found, hm, new⟩
  exact new ⟨known found, same found ▸ hm⟩

/-- Where one class is touched, which is registered afterwards and has new members, those are the
members that come. -/
theorem gains_iff_of_touches (wf : u.IsWellFormed) (touches : u.Touches v one)
    (found : v.find? name = some one)
    (new : ∀ m ∈ v.members k one, ¬ (u.find? name = some one ∧ m ∈ u.members k one)) :
    u.Gains v k m ↔ m ∈ v.members k one := by
  constructor
  · rintro ⟨other, id, found', hm, new'⟩
    by_cases hid : id = one
    · exact hid ▸ hm
    · obtain ⟨before, same⟩ := touches.untouched wf found' hid
      refine absurd ⟨before, ?_⟩ new'
      unfold members at hm ⊢
      rwa [same] at hm
  · exact fun hm => ⟨name, one, found, hm, new m hm⟩

/-! ## Members that are held -/

namespace HoldsMembers

theorem of_members (h : u.HoldsMembers) (members : ∀ k id, v.members k id = u.members k id)
    (live : ∀ {id}, v.catalog.isLive id = true → u.catalog.isLive id = true)
    (made : v.catalog.membersMade = u.catalog.membersMade)
    (released : v.catalog.releasedMembers = u.catalog.releasedMembers)
    (numbering : ∀ k, (v.numbering k).IsWellFormed) : v.HoldsMembers where
  made hm := by
    rw [members] at hm
    exact made ▸ h.made hm
  live {k id m} hl hm := by
    rw [members] at hm
    rw [k.isLive_congr released]
    exact h.live (live hl) hm
  released hs := by
    rw [released] at hs
    exact made ▸ h.released hs
  numbering := numbering

theorem enter (h : u.HoldsMembers) (id : ClassId) : (u.enter id).2.HoldsMembers :=
  h.of_members (fun k other => members_enter u k id other) (fun live => live) rfl rfl
    fun k => (adds_enter u id (h.numbering k)).isWellFormed

theorem moved (h : u.HoldsMembers) (id : ClassId) (p : Partition) : (u.moved id p).HoldsMembers :=
  h.of_members (fun k other => members_moved u k id p other) (fun live => live) rfl rfl h.numbering

theorem withNew {r : ClassRecord} (h : u.HoldsMembers)
    (has : ∀ k, ∀ m ∈ MemberKind.listed k r, u.Has k m) : (u.withNew r).HoldsMembers where
  made {k id m} hm := by
    rcases mem_members_withNew hm with old | new
    · exact h.made old
    · exact (has k m new).1
  live {k id m} live hm := by
    rcases mem_members_withNew hm with old | new
    · exact h.live live old
    · exact (has k m new).2
  released := h.released
  numbering := h.numbering

theorem lift (h : u.HoldsMembers) (d : ClassDefinition) (id : ClassId) (a : Addition) :
    (u.lift d id a).HoldsMembers where
  made {k other m} hm := by
    rcases mem_members_lift hm with old | ⟨-, new⟩
    · exact Nat.lt_of_lt_of_le (h.made old) (membersMade_le_lift u d id a)
    · exact new
  live {k other m} live hm := by
    unfold Catalog.isLive at live
    rw [released_lift] at live
    rw [k.isLive_congr releasedMembers_lift]
    rcases mem_members_lift hm with old | ⟨new, -⟩
    · exact h.live live old
    · -- what nobody holds any more has been made before
      have unreleased : k.serial m ∉ u.catalog.releasedMembers := fun gone =>
        Nat.not_lt.mpr new (h.released gone)
      simpa [MemberKind.isLive, Catalog.isLiveMember] using unreleased
  released {serial} hs := by
    rw [releasedMembers_lift] at hs
    exact Nat.lt_of_lt_of_le (h.released hs) (membersMade_le_lift u d id a)
  numbering k := (adds_lift u d id a (h.numbering k)).isWellFormed

theorem haunted (h : u.HoldsMembers) (name : String) : (u.haunted name).HoldsMembers :=
  enter (h.withNew fun k m hm => by cases k <;> exact nomatch hm) _

theorem register (h : u.HoldsMembers) (d : ClassDefinition) (a : Addition) :
    (u.register d a).HoldsMembers :=
  enter (lift (h.withNew fun k m hm => by cases k <;> exact nomatch hm) d _ a) _

end HoldsMembers

/-! ## Members under resolution -/

theorem isMade_of_isLoaded (loaded : u.isLoaded id .signatures = true) : u.catalog.IsMade id := by
  by_contra unmade
  unfold isLoaded Universe.record at loaded
  rw [Catalog.get_of_not_isMade unmade] at loaded
  exact absurd loaded (by decide)

theorem not_isMade_next : ¬ u.catalog.IsMade u.next := Nat.lt_irrefl _

theorem isLoaded_next : u.isLoaded u.next .signatures = false := by
  by_contra loaded
  exact not_isMade_next (isMade_of_isLoaded (Bool.not_eq_false _ ▸ loaded))

/-- A descriptor that is made is the only one that can have been registered. -/
theorem known_next (touches : u.Touches v u.next) {name : String} {id : ClassId}
    (found : v.find? name = some id) : u.find? name = some id ∨ ¬ u.catalog.IsMade id := by
  by_cases hid : id = u.next
  · subst hid
    exact .inr not_isMade_next
  · exact .inl (touches.known found hid)

/-- What resolution does to members of a kind.  Only descriptors that it makes are registered, a
class gets other members only as it is brought to `signatures`, and numbers are given to the members
that come. -/
structure Renews (u v : Universe) (k : MemberKind) : Prop where
  grows : u.Grows v
  known : ∀ {name id}, v.find? name = some id → u.find? name = some id ∨ ¬ u.catalog.IsMade id
  members : ∀ id, v.members k id = u.members k id ∨
    (u.isLoaded id .signatures = false ∧ v.isLoaded id .signatures = true)
  released : v.catalog.releasedMembers = u.catalog.releasedMembers
  adds : (u.numbering k).Adds (k.isLive u.catalog) (v.numbering k) (u.Gains v k)

namespace Renews

/-- A class gets other members once at most, so what comes in two parts of a resolution comes in the
whole. -/
theorem gains_iff (h : u.Renews v k) (h' : v.Renews w k) :
    u.Gains v k m ∨ v.Gains w k m ↔ u.Gains w k m := by
  have once {id : ClassId} (first : v.members k id ≠ u.members k id) :
      w.members k id = v.members k id := by
    refine (h'.members id).resolve_right fun second => ?_
    have loaded := ((h.members id).resolve_left first).2
    rw [second.1] at loaded
    cases loaded
  constructor
  · rintro (⟨name, id, found, hm, new⟩ | ⟨name, id, found, hm, new⟩)
    · refine ⟨name, id, h'.grows.find found, ?_, new⟩
      by_cases same : v.members k id = u.members k id
      · -- a descriptor that is made on the way has no members before
        rw [same] at hm
        rcases h.known found with before | unmade
        · exact absurd ⟨before, hm⟩ new
        · rw [members_of_not_isMade unmade] at hm
          cases hm
      · rwa [once same]
    · refine ⟨name, id, found, hm, fun before => new ⟨h.grows.find before.1, ?_⟩⟩
      by_cases same : v.members k id = u.members k id
      · rw [same]
        exact before.2
      · rwa [once same] at hm
  · rintro ⟨name, id, found, hm, new⟩
    by_cases between : v.find? name = some id ∧ m ∈ v.members k id
    · exact .inl ⟨name, id, between.1, between.2, new⟩
    · exact .inr ⟨name, id, found, hm, between⟩

/-- Where no class gets other members no numbers are given. -/
theorem of_members (grows : u.Grows v)
    (known : ∀ {name id}, v.find? name = some id → u.find? name = some id ∨ ¬ u.catalog.IsMade id)
    (same : ∀ id, v.members k id = u.members k id)
    (released : v.catalog.releasedMembers = u.catalog.releasedMembers)
    (adds : (u.numbering k).Adds (k.isLive u.catalog) (v.numbering k) fun _ => False) :
    u.Renews v k where
  grows := grows
  known := known
  members id := .inl (same id)
  released := released
  adds := by
    refine adds.congr fun m => ⟨False.elim, ?_⟩
    rintro ⟨name, id, found, hm, new⟩
    rw [same] at hm
    rcases known found with before | unmade
    · exact new ⟨before, hm⟩
    · rw [members_of_not_isMade unmade] at hm
      cases hm

/-- Where one class is brought to `signatures` its new members get numbers. -/
theorem of_touches (wf : u.IsWellFormed) (grows : u.Grows v)
    (known : ∀ {name id}, v.find? name = some id → u.find? name = some id ∨ ¬ u.catalog.IsMade id)
    (touches : u.Touches v one) (others : ∀ id, id ≠ one → v.members k id = u.members k id)
    (low : u.isLoaded one .signatures = false) (high : v.Serves name .signatures one)
    (new : ∀ m ∈ v.members k one, m ∉ u.members k one)
    (released : v.catalog.releasedMembers = u.catalog.releasedMembers)
    (adds : (u.numbering k).Adds (k.isLive u.catalog) (v.numbering k)
      fun m => m ∈ v.members k one) : u.Renews v k where
  grows := grows
  known := known
  members id := by
    by_cases hid : id = one
    · subst hid
      exact .inr ⟨low, high.loaded⟩
    · exact .inl (others id hid)
  released := released
  adds := adds.congr fun _ =>
    (gains_iff_of_touches wf touches high.found fun m hm before => new m hm before.2).symm

theorem refl (h : u.HoldsMembers) : u.Renews u k :=
  of_members (.refl u) .inl (fun _ => rfl) rfl (.refl (h.numbering k))

theorem haunted (h : u.HoldsMembers) (wf : u.IsWellFormed) (new : u.find? name = none) :
    u.Renews (u.haunted name) k := by
  have bare : (u.withNew (.phantom name)).members k u.next = [] := by
    rw [members_next]
    cases k <;> rfl
  refine of_members (wf.haunted new).2 (known_next (touches_haunted u name)) (fun id => ?_) rfl ?_
  · exact (members_enter _ k _ id).trans (members_withNew_of_bare bare id)
  · refine (adds_enter (u.withNew (.phantom name)) u.next (h.numbering k)).congr fun m => ?_
    rw [bare]
    exact List.mem_nil_iff m

theorem moved (h : u.HoldsMembers) (id : ClassId) (p : Partition) : u.Renews (u.moved id p) k :=
  of_members (.moved u id p) (fun found => .inl ((find?_moved u id p _).symm.trans found))
    (members_moved u k id p) rfl (.refl (h.numbering k))

theorem lift (h : u.HoldsMembers) (wf : u.IsWellFormed) (found : u.find? d.name = some id)
    (below : u.isLoaded id a.level = false) : u.Renews (u.lift d id a) k := by
  have known {name : String} {other : ClassId} (hf : (u.lift d id a).find? name = some other) :
      u.find? name = some other ∨ ¬ u.catalog.IsMade other := .inl (find?_lift.symm.trans hf)
  have adds := adds_lift u d id a (h.numbering k)
  by_cases given : a = .members
  · subst given
    refine of_touches wf .lift known (touches_lift u d id _) (fun other hid => ?_) below
      (wf.serves_lift found) (fun m hm old => ?_) releasedMembers_lift ?_
    · exact members_lift_of_ne hid
    · rw [members_lift_self (wf.stands found).made] at hm
      exact Nat.not_lt.mpr (MemberKind.serial_of_mem_onRecord hm).1 (h.made old)
    · exact adds.congr fun m => and_iff_right rfl
  · refine of_members .lift known (members_lift given) releasedMembers_lift (adds.congr fun m => ?_)
    exact iff_of_false (fun both => given both.1) not_false

theorem register (h : u.HoldsMembers) (wf : u.IsWellFormed) (new : u.find? d.name = none) :
    u.Renews (u.register d a) k := by
  have bare : (u.withNew (.ofDefinition d)).members k u.next = [] := by
    rw [members_next]
    cases k <;> rfl
  have same (id : ClassId) : (u.register d a).members k id =
      ((u.withNew (.ofDefinition d)).lift d u.next a).members k id := members_enter _ k _ id
  have grows := (wf.register new (a := a)).2
  have touches := touches_register u d a
  have lifted := adds_lift (u.withNew (.ofDefinition d)) d u.next a (h.numbering k)
  have released : ((u.withNew (.ofDefinition d)).lift d u.next a).catalog.releasedMembers =
      u.catalog.releasedMembers := releasedMembers_lift
  have entered := adds_enter ((u.withNew (.ofDefinition d)).lift d u.next a) u.next
    lifted.isWellFormed
  rw [k.isLive_congr released] at entered
  have adds := lifted.trans entered
  by_cases given : a = .members
  · subst given
    refine of_touches wf grows (known_next touches) touches (fun id hid => ?_) isLoaded_next
      (serves_register u d _) (fun m _ old => ?_) released ?_
    · rw [same, members_lift_of_ne hid, members_withNew_of_bare bare]
    · rw [members_of_not_isMade not_isMade_next] at old
      cases old
    · refine adds.congr fun m => ?_
      rw [same]
      exact ⟨fun both => both.elim And.right id, .inr⟩
  · refine of_members grows (known_next touches) (fun id => ?_) released (adds.congr fun m => ?_)
    · rw [same, members_lift given, members_withNew_of_bare bare]
    · rw [members_lift given, bare]
      exact iff_of_false (fun both => both.elim (fun hm => given hm.1) List.not_mem_nil) not_false

theorem trans (h : u.Renews v k) (h' : v.Renews w k) : u.Renews w k where
  grows := h.grows.trans h'.grows
  known found := by
    rcases h'.known found with before | unmade
    · exact h.known before
    · exact .inr fun made => unmade (h.grows.made made)
  members id := by
    rcases h'.members id with same | ⟨low, high⟩
    · rw [same]
      exact (h.members id).imp_right fun ⟨low, high⟩ =>
        ⟨low, h'.grows.isLoaded (isMade_of_isLoaded high) high⟩
    · rcases h.members id with same' | ⟨-, high'⟩
      · refine .inr ⟨?_, high⟩
        by_contra loaded
        have loaded : u.isLoaded id .signatures = true := Bool.not_eq_false _ ▸ loaded
        rw [h.grows.isLoaded (isMade_of_isLoaded loaded) loaded] at low
        cases low
      · rw [high'] at low
        cases low
  released := h'.released.trans h.released
  adds := by
    have later := h'.adds
    rw [k.isLive_congr h.released] at later
    exact (h.adds.trans later).congr fun _ => h.gains_iff h'

end Renews

end Universe

open Universe

variable {s : Supply} {floor : Level} {u v : Universe}

theorem Move.renews (wf : u.IsWellFormed) (h : u.HoldsMembers) (m : Move s floor u v) :
    (∀ k, u.Renews v k) ∧ v.HoldsMembers := by
  cases m with
  | ask =>
      refine ⟨fun k => ?_, h.of_members (fun _ _ => rfl) (fun live => live) rfl rfl h.numbering⟩
      exact .of_members (.of_eq rfl rfl rfl rfl) .inl (fun _ => rfl) rfl (.refl (h.numbering k))
  | demote absent found allowed => exact ⟨fun k => .moved h _ _, h.moved _ _⟩
  | phantom absent new allowed => exact ⟨fun k => .haunted h wf new, h.haunted _⟩
  | register a given above new ready => exact ⟨fun k => .register h wf new, h.register _ a⟩
  | lift a given above found below ready => exact ⟨fun k => .lift h wf found below, h.lift _ _ a⟩

theorem Moves.renews (wf : u.IsWellFormed) (h : u.HoldsMembers) (m : Moves s floor u v) :
    (∀ k, u.Renews v k) ∧ v.HoldsMembers := by
  induction m with
  | refl => exact ⟨fun k => .refl h, h⟩
  | tail moves step ih =>
      obtain ⟨renews, holds⟩ := step.renews (Moves.isWellFormed wf moves) ih.2
      exact ⟨fun k => (ih.1 k).trans (renews k), holds⟩

end ClassUniverse
