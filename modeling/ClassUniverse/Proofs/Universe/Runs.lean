import ClassUniverse.Proofs.Resolution.Spec

/-!
# Calls and runs

A universe is used by calls: descriptors are made and changed, classes are registered, removed and
moved between partitions, and requests go to a resolver.  A call that fails is a call all the same,
and a run goes on from what it has left.  Every universe of a run is well-formed, and no call
changes the number of a class that is registered before and after it.
-/

namespace ClassUniverse

/-! ## Requests -/

/-- What a resolver can be asked for. -/
inductive Request
  | resolve (mode : Mode) (name : String) (level : Level)
  | tryLoad (name : String) (level : Level)
  | loadWithSupport (name : String)
  | close
  deriving DecidableEq, Repr

namespace Request

/-- The class that a request ends with, if it asks for one and succeeds. -/
def perform (s : Supply) : Request → Action (Option ClassId)
  | resolve mode name level => do return some (← Universe.resolve s mode name level)
  | tryLoad name level => Universe.tryLoad s name level
  | loadWithSupport name => do return some (← Universe.loadWithSupport s name)
  | close => do Universe.close; return none

/-- The name that a request asks for. -/
def name? : Request → Option String
  | resolve _ name _ => some name
  | tryLoad name _ => some name
  | loadWithSupport name => some name
  | close => none

/-- The level that a request asks for. -/
def level : Request → Level
  | resolve _ _ level => level
  | tryLoad _ level => level
  | loadWithSupport _ => .bodies
  | close => .dangling

/-- The universe after a request. -/
def run (s : Supply) (q : Request) (u : Universe) : Universe := after (q.perform s) u

end Request

namespace Universe

variable {s : Supply} {u v : Universe} {name : String} {id : ClassId}

theorem perform_keeps (wf : u.IsWellFormed) {q : Request} (asks : q ≠ .close) :
    Keeps (Moves s .dangling) (q.perform s) u fun answer v =>
      ∀ id ∈ answer, ∀ name ∈ q.name?, s.IsTrueTo name → v.Serves name q.level id := by
  have low (level : Level) : Level.dangling ≤ level := Nat.zero_le _
  cases q with
  | resolve mode name level =>
      refine (resolve_keeps wf (low _) (low _)).bind fun id v _ served => .pure ?_
      rintro _ ⟨⟩ _ ⟨⟩ isTrue
      exact served isTrue
  | tryLoad name level =>
      refine (tryLoad_keeps wf (low _) (low _)).mono fun answer v _ served => ?_
      rintro id ha _ ⟨⟩ isTrue
      exact served id ha isTrue
  | loadWithSupport name =>
      refine (loadWithSupport_keeps wf (low _)).bind fun id v _ served => .pure ?_
      rintro _ ⟨⟩ _ ⟨⟩ isTrue
      exact served isTrue
  | close => exact absurd rfl asks

/-- A request changes a universe by moves, or closes it. -/
theorem run_request (wf : u.IsWellFormed) (s : Supply) (q : Request) :
    Moves s .dangling u (q.run s u) ∨ q.run s u = { u with isClosed := true } := by
  by_cases h : q = .close
  · subst h
    exact .inr rfl
  · exact .inl (perform_keeps wf h).after_rel

/-- Lets go of the descriptors that are neither registered nor among those that are held from
outside, and of some members. -/
def letGo (u : Universe) (held : List ClassId) (members : List Nat) : Universe :=
  { u with catalog := { u.catalog with
      released := u.catalog.ids.filter fun id =>
        !((u.registry.ids ++ held).contains id && u.catalog.isLive id)
      releasedMembers := members } }

end Universe

/-! ## Calls -/

/-- A call: a descriptor is made, is changed in what does not concern its place in the universe, is
registered, removed or moved, a phantom is asked for, a resolver gets a request, or descriptors and
members are let go. -/
inductive Call
  | make (r : ClassRecord) (fresh : r.IsFresh)
  | edit (id : ClassId) (change : ClassRecord → ClassRecord) (stands : ∀ r, (change r).StandsAs r)
  | add (id : ClassId)
  | remove (id : ClassId)
  | reclassify (id : ClassId) (p : Partition)
  | phantom (name : String)
  | request (s : Supply) (q : Request)
  | letGo (held : List ClassId) (members : List Nat)

namespace Call

/-- The universe after a call.  Only a descriptor that has been made and is still held can be given
to the registry. -/
def run : Call → Universe → Universe
  | make r _, u => after (Universe.make r) u
  | edit id change _, u => u.change id change
  | add id, u =>
      if u.catalog.IsMade id ∧ u.catalog.isLive id = true then after (Universe.addClass id) u else u
  | remove id, u => after (Universe.removeClass id) u
  | reclassify id p, u => after (Universe.reclassify id p) u
  | phantom name, u => after (Universe.getOrCreatePhantom name) u
  | request s q, u => q.run s u
  | letGo held members, u => u.letGo held members

end Call

/-- The universe after some calls, one after the other. -/
def run (calls : List Call) (u : Universe) : Universe := calls.foldl (fun u c => c.run u) u

theorem run_append (first second : List Call) (u : Universe) :
    run (first ++ second) u = run second (run first u) :=
  List.foldl_append

/-! ## What one call keeps -/

namespace Universe

variable {u v : Universe} {name : String} {id : ClassId}

theorem after_addClass (u : Universe) (id : ClassId) :
    after (addClass id) u =
      if (u.record id).inScene || u.registry.contains (u.record id).name then u
      else (u.enter id).2 := by
  unfold after
  rw [addClass_apply]
  cases (u.record id).inScene || u.registry.contains (u.record id).name <;> rfl

theorem after_removeClass (u : Universe) (id : ClassId) :
    after (removeClass id) u = if u.isManaged id then u.without id else u := by
  unfold after
  rw [removeClass_apply]
  cases u.isManaged id <;> rfl

theorem after_reclassify (u : Universe) (id : ClassId) (p : Partition) :
    after (reclassify id p) u =
      if u.isManaged id && !((u.record id).isPhantom && p != .phantom) then u.moved id p
      else u := by
  unfold after
  rw [reclassify_apply]
  cases u.isManaged id
  · rfl
  · cases (u.record id).isPhantom && p != .phantom <;> rfl

theorem after_getOrCreatePhantom (u : Universe) (name : String) :
    after (getOrCreatePhantom name) u =
      if u.find? name = none ∧ u.allowPhantoms = true then u.haunted name else u := by
  unfold after
  cases found : u.find? name with
  | some id => simp [getOrCreatePhantom, bind_apply, get_apply, found, pure_apply]
  | none =>
      cases allowed : u.allowPhantoms with
      | true => simp [getOrCreatePhantom_of_new found allowed]
      | false => simp [getOrCreatePhantom, bind_apply, get_apply, found, allowed, throw_apply]

theorem find?_eq_none_of_contains_eq_false (h : u.registry.contains name = false) :
    u.find? name = none := by
  rwa [Registry.contains_eq_isSome, Option.isSome_eq_false_iff, Option.isNone_iff_eq_none] at h

theorem isLive_letGo {held : List ClassId} {members : List Nat} :
    (u.letGo held members).catalog.isLive id = true ↔
      (u.catalog.IsMade id → (id ∈ u.registry.ids ∨ id ∈ held) ∧ u.catalog.isLive id = true) := by
  have ids : id ∈ u.catalog.ids ↔ u.catalog.IsMade id := by
    obtain ⟨serial⟩ := id
    simp [Catalog.ids, Catalog.IsMade]
  have released : id ∈ (u.letGo held members).catalog.released ↔ u.catalog.IsMade id ∧
      ¬ ((id ∈ u.registry.ids ∨ id ∈ held) ∧ u.catalog.isLive id = true) := by
    rw [← ids]
    simp only [Universe.letGo, List.mem_filter, Bool.not_eq_true', ← Bool.not_eq_true,
      Bool.and_eq_true, List.contains_iff_mem, List.mem_append]
  have live : (u.letGo held members).catalog.isLive id = true ↔
      id ∉ (u.letGo held members).catalog.released := by
    simp [Catalog.isLive]
  rw [live, released]
  tauto

theorem IsWellFormed.letGo (wf : u.IsWellFormed) (held : List ClassId) (members : List Nat) :
    (u.letGo held members).IsWellFormed := by
  refine wf.of_standsLike ⟨rfl, rfl, fun h => h, fun {name id} hf => isLive_letGo.mpr fun _ => ?_,
    fun _ => .refl _, fun {id} hm => ?_, fun {id} h => ?_⟩
  · exact ⟨.inl (Registry.mem_ids_iff.mpr ⟨name, hf⟩), (wf.stands hf).live⟩
  · change (u.record id).IsFresh
    unfold Universe.record
    rw [Catalog.get_of_not_isMade hm]
    exact default_isFresh
  · by_contra hm
    have live : (u.letGo held members).catalog.isLive id = true :=
      isLive_letGo.mpr fun made => absurd made hm
    rw [live] at h
    cases h

end Universe

namespace Call

variable {u : Universe} {name : String} {id : ClassId} {number : Nat}

/-- What a call does to a universe: nothing where it is refused, else one change that its checks let
through. -/
inductive Does (u : Universe) : Call → Universe → Prop
  | nothing {c : Call} (refused : ∀ id, c = .remove id → u.isManaged id = false) : Does u c u
  | make (r : ClassRecord) (fresh : r.IsFresh) : Does u (.make r fresh) (u.withNew r)
  | edit (id : ClassId) (change : ClassRecord → ClassRecord)
      (stands : ∀ r, (change r).StandsAs r) : Does u (.edit id change stands) (u.change id change)
  | enter (id : ClassId) (made : u.catalog.IsMade id) (live : u.catalog.isLive id = true)
      (out : (u.record id).inScene = false) (absent : u.find? (u.record id).name = none) :
      Does u (.add id) (u.enter id).2
  | leave (id : ClassId) (managed : u.isManaged id = true) : Does u (.remove id) (u.without id)
  | move (id : ClassId) (p : Partition) (managed : u.isManaged id = true)
      (allowed : (u.record id).isPhantom = true → p = .phantom) :
      Does u (.reclassify id p) (u.moved id p)
  | haunt (name : String) (absent : u.find? name = none) : Does u (.phantom name) (u.haunted name)
  | resolve (s : Supply) (q : Request) (moves : Moves s .dangling u (q.run s u)) :
      Does u (.request s q) (q.run s u)
  | close (s : Supply) (q : Request) : Does u (.request s q) { u with isClosed := true }
  | letGo (held : List ClassId) (members : List Nat) :
      Does u (.letGo held members) (u.letGo held members)

theorem does_run (wf : u.IsWellFormed) (c : Call) : c.Does u (c.run u) := by
  cases c with
  | make r fresh => exact .make r fresh
  | edit id change stands => exact .edit id change stands
  | add id =>
      simp only [run]
      split
      · rename_i held
        rw [Universe.after_addClass]
        split
        · exact .nothing nofun
        · rename_i free
          rw [Bool.not_eq_true, Bool.or_eq_false_iff] at free
          have absent := Universe.find?_eq_none_of_contains_eq_false free.2
          exact .enter id held.1 held.2 free.1 absent
      · exact .nothing nofun
  | remove id =>
      simp only [run]
      rw [Universe.after_removeClass]
      cases managed : u.isManaged id with
      | true => exact .leave id managed
      | false =>
          refine .nothing fun other same => ?_
          cases same
          exact managed
  | reclassify id p =>
      simp only [run]
      rw [Universe.after_reclassify]
      split
      · rename_i allowed
        rw [Bool.and_eq_true] at allowed
        exact .move id p allowed.1 fun phantom => by simpa [phantom] using allowed.2
      · exact .nothing nofun
  | phantom name =>
      simp only [run]
      rw [Universe.after_getOrCreatePhantom]
      split
      · rename_i absent
        exact .haunt name absent.1
      · exact .nothing nofun
  | request s q =>
      simp only [run]
      cases Universe.run_request wf s q with
      | inl moves => exact .resolve s q moves
      | inr closed =>
          rw [closed]
          exact .close s q
  | letGo held members => exact .letGo held members

theorem isWellFormed_run (wf : u.IsWellFormed) (c : Call) : (c.run u).IsWellFormed := by
  have does := does_run wf c
  generalize c.run u = v at does ⊢
  cases does with
  | nothing => exact wf
  | make r fresh => exact wf.withNew fresh
  | edit id change stands =>
      refine wf.of_standsLike (wf.standsLike_change id (fun made => ?_)
        (fun other h => Catalog.get_modify_of_ne _ h _) ?_ rfl rfl rfl)
      · have same : (u.change id change).record id = change (u.record id) :=
          Catalog.get_modify_self made change
        exact same.symm ▸ stands _
      · exact Array.size_modify
  | enter id made live out absent => exact wf.enter made live out absent
  | leave id managed =>
      obtain ⟨name, found⟩ := wf.isManaged_iff.mp managed
      exact wf.without found
  | move id p managed allowed =>
      obtain ⟨name, found⟩ := wf.isManaged_iff.mp managed
      exact wf.moved found allowed
  | haunt name absent => exact (wf.haunted absent).1
  | resolve s q moves => exact moves.isWellFormed wf
  | close => exact wf.of_eq rfl rfl rfl
  | letGo held members => exact wf.letGo held members

theorem number_run (wf : u.IsWellFormed) (c : Call) (before : u.find? name = some id)
    (still : (c.run u).find? name = some id) (h : u.numbers.classes.idOf? id = some number) :
    (c.run u).numbers.classes.idOf? id = some number := by
  have does := does_run wf c
  generalize c.run u = v at does still ⊢
  cases does with
  | nothing | make | edit | move | close | letGo => exact h
  | enter other =>
      exact Numbering.idOf?_add_of_live wf.numbering other h (wf.stands before).live
  | leave other =>
      have other_ne : id ≠ other := by
        rintro rfl
        rw [Universe.find?_without, if_pos (wf.stands before).named.symm] at still
        cases still
      exact (Numbering.idOf?_remove_of_ne wf.numbering other_ne).trans h
  | haunt other absent => exact (wf.haunted absent).2.number before h
  | resolve s q moves => exact (moves.grows wf).number before h

end Call

/-! ## What a run keeps -/

variable {u : Universe} {name : String} {id : ClassId} {number : Nat}

theorem isWellFormed_run (wf : u.IsWellFormed) (calls : List Call) :
    (run calls u).IsWellFormed := by
  induction calls generalizing u with
  | nil => exact wf
  | cons c calls ih => exact ih (c.isWellFormed_run wf)

/-- A class that is registered all along keeps its number. -/
theorem number_run (wf : u.IsWellFormed) (calls : List Call)
    (registered : ∀ k ≤ calls.length, (run (calls.take k) u).find? name = some id)
    (h : u.numbers.classes.idOf? id = some number) :
    (run calls u).numbers.classes.idOf? id = some number := by
  induction calls generalizing u with
  | nil => exact h
  | cons c calls ih =>
      have before : u.find? name = some id := registered 0 (Nat.zero_le _)
      have still : (c.run u).find? name = some id := registered 1 (Nat.le_add_left _ _)
      refine ih (c.isWellFormed_run wf) (fun k hk => ?_) (c.number_run wf before still h)
      exact registered (k + 1) (Nat.succ_le_succ hk)

end ClassUniverse
