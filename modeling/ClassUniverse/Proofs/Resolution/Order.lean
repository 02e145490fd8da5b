import ClassUniverse.Proofs.Resolution.Needs

/-!
# The order of requests

Requests that all succeed leave every class that they need at the highest level at which they need
it, and no other class.  What such a class shows follows from its definition and from that level.  So
the order of the requests decides neither whether they succeed nor what the classes show.
-/

namespace ClassUniverse

open Relation (ReflTransGen TransGen)

/-! ## Phantoms and classes without links -/

/-- A record that has neither level nor members as a phantom, and no links at the lowest level. -/
structure ClassRecord.IsBare (r : ClassRecord) : Prop where
  phantom : r.isPhantom = true → r.level = .dangling ∧ r.fields = [] ∧ r.methods = []
  dangling : r.level = .dangling → r.superclass = none ∧ r.interfaces = []

namespace Universe

/-- Whether registered phantoms are mere names, and classes at the lowest level have no links. -/
def IsBare (u : Universe) : Prop := ∀ name id, u.find? name = some id → (u.record id).IsBare

theorem isBare_empty (recycles allowPhantoms : Bool) : (empty recycles allowPhantoms).IsBare :=
  fun _ _ found => nomatch found

theorem IsBare.of_touches {u v : Universe} {one : ClassId} (h : u.IsBare) (wf : u.IsWellFormed)
    (touches : u.Touches v one)
    (self : ∀ name, v.find? name = some one → (v.record one).IsBare) : v.IsBare := by
  intro name id found
  by_cases hid : id = one
  · subst hid
    exact self name found
  · obtain ⟨found', same⟩ := touches.untouched wf found hid
    rw [same]
    exact h name id found'

end Universe

open Universe

theorem Move.isBare {s : Supply} {floor : Level} {u v : Universe} (wf : u.IsWellFormed)
    (faithful : u.IsFaithful s) (h : u.IsBare) (m : Move s floor u v) : v.IsBare := by
  cases m with
  | ask => exact h
  | @demote name id absent found allowed =>
      have phantom : (u.record id).isPhantom = true := by
        rw [← Bool.not_eq_false]
        intro real
        obtain ⟨d, given, -⟩ := faithful.shows found real
        rw [absent] at given
        cases given
      refine h.of_touches wf (touches_moved u id _) fun other _ => ?_
      rw [record_moved_self (wf.stands found).made]
      exact ⟨fun _ => (h name id found).phantom phantom, (h name id found).dangling⟩
  | @phantom name absent new allowed =>
      refine h.of_touches wf (touches_haunted u name) fun other _ => ?_
      unfold Universe.haunted
      rw [record_enter_self isMade_next, record_next]
      exact ⟨fun _ => ⟨rfl, rfl, rfl⟩, fun _ => ⟨rfl, rfl⟩⟩
  | @register name d a given above new ready =>
      refine h.of_touches wf (touches_register u d a) fun other _ => ⟨fun phantom => ?_, fun low => ?_⟩
      · rw [isPhantom_register] at phantom
        cases phantom
      · rw [level_register] at low
        rw [record_register_next]
        cases a with
        | nothing => exact ⟨rfl, rfl⟩
        | supertypes | members | bodies => cases low
  | @lift name d id a given above found below ready =>
      refine h.of_touches wf (touches_lift u d id a) fun other _ => ?_
      obtain ⟨real, risen⟩ := below_iff.mp below
      have made := (wf.stands found).made
      have stands : ((u.lift d id a).record id).StandsAs (u.record id) :=
        wf.standsLike_lift.record made
      refine ⟨fun phantom => ?_, fun low => ?_⟩
      · rw [stands.isPhantom, real] at phantom
        cases phantom
      · rw [record_lift_of_below made below] at low
        change a.level = .dangling at low
        rw [low] at risen
        exact absurd risen (Nat.not_lt_zero _)

theorem Moves.isBare {s : Supply} {floor : Level} {u v : Universe} (wf : u.IsWellFormed)
    (named : s.IsNamed) (faithful : u.IsFaithful s) (h : u.IsBare) (m : Moves s floor u v) :
    v.IsBare := by
  induction m with
  | refl => exact h
  | tail moves step ih =>
      exact step.isBare (Moves.isWellFormed wf moves) (Moves.isFaithful wf named faithful moves) ih

/-! ## What a class shows -/

/-- What can be seen of a class, other than its numbers and its place among the classes. -/
@[ext]
structure ClassView where
  level : Level
  isPhantom : Bool
  partition : Option Partition
  modifiers : Modifiers
  superclass : Option String
  interfaces : List String
  fields : List String
  methods : List (String × Bool)
  deriving DecidableEq, Repr

namespace ClassView

/-- What is to be seen of a phantom. -/
def phantom : ClassView where
  level := .dangling
  isPhantom := true
  partition := some .phantom
  modifiers := Modifiers.publicFlag
  superclass := none
  interfaces := []
  fields := []
  methods := []

/-- What is to be seen of a library class that has been brought to a level. -/
def ofDefinition (d : ClassDefinition) (level : Level) : ClassView where
  level := level
  isPhantom := false
  partition := some .library
  modifiers := d.modifiers
  superclass := if .hierarchy ≤ level then d.superclass else none
  interfaces := if .hierarchy ≤ level then d.interfaces else []
  fields :=
    if .signatures ≤ level then
      d.fields.map fun f => Signature.render d.name f.subsignature
    else []
  methods :=
    if .signatures ≤ level then
      d.methods.map fun m =>
        (Signature.render d.name m.subsignature, decide (.bodies ≤ level) && m.hasBody)
    else []

end ClassView

namespace Universe

/-- What can be seen of a descriptor. -/
def view (u : Universe) (id : ClassId) : ClassView where
  level := (u.record id).level
  isPhantom := (u.record id).isPhantom
  partition := (u.record id).partition
  modifiers := (u.record id).modifiers
  superclass := (u.catalog.superclass? id).map u.catalog.nameOf
  interfaces := (u.catalog.interfaces id).map u.catalog.nameOf
  fields := (u.record id).fields.map (·.signature)
  methods := (u.record id).methods.map fun m => (m.signature, u.catalog.hasBody m)

/-- What can be seen of the class that is registered under a name. -/
def view? (u : Universe) (name : String) : Option ClassView := (u.find? name).map u.view

variable {s : Supply} {u v : Universe} {name : String} {id : ClassId} {d : ClassDefinition}

theorem Links.names {superclass : Option ClassId} {interfaces : List ClassId}
    (h : u.Links d superclass interfaces) (wf : u.IsWellFormed) :
    superclass.map u.catalog.nameOf = d.superclass ∧
      interfaces.map u.catalog.nameOf = d.interfaces := by
  have named {name : String} {id : ClassId} (served : u.Serves name .hierarchy id) :
      u.catalog.nameOf id = name := (wf.stands served.found).named
  obtain ⟨hs, hi⟩ := h
  constructor
  · generalize d.superclass = parent at hs
    cases hs with
    | none => rfl
    | some served => exact congrArg some (named served)
  · generalize d.interfaces = names at hi
    induction hi with
    | nil => rfl
    | cons served _ ih => rw [List.map_cons, named served, ih]

/-- The links of a class that is below `hierarchy` are none, and those of another one lead to the
supertypes of its definition. -/
theorem view_links (wf : u.IsWellFormed) (bare : (u.record id).IsBare) (shows : u.Shows d id) :
    (u.view id).superclass = (if .hierarchy ≤ (u.record id).level then d.superclass else none) ∧
      (u.view id).interfaces = if .hierarchy ≤ (u.record id).level then d.interfaces else [] := by
  by_cases high : .hierarchy ≤ (u.record id).level
  · rw [if_pos high, if_pos high]
    exact ((shows.links high).live wf).names wf
  · have bottom : (u.record id).level = .dangling := by
      by_contra h
      exact high (Level.hierarchy_le_of_ne h)
    obtain ⟨superclass, interfaces⟩ := bare.dangling bottom
    rw [if_neg high, if_neg high]
    unfold view Catalog.superclass? Catalog.interfaces
    change Option.map _ ((u.record id).superclass.filter _) = none ∧
      List.map _ ((u.record id).interfaces.filter _) = []
    rw [superclass, interfaces]
    exact ⟨rfl, rfl⟩

theorem view_members (shows : u.Shows d id) :
    (u.view id).fields = (ClassView.ofDefinition d (u.record id).level).fields ∧
      (u.view id).methods = (ClassView.ofDefinition d (u.record id).level).methods := by
  unfold view ClassView.ofDefinition
  dsimp only
  by_cases high : .signatures ≤ (u.record id).level
  · rw [if_pos high, if_pos high]
    obtain ⟨fields, ofClass⟩ := shows.fields high
    obtain ⟨methods, ofClass'⟩ := shows.methods high
    rw [← fields, ← methods, List.map_map, List.map_map]
    refine ⟨List.map_congr_left fun f hf => ?_, List.map_congr_left fun m hm => ?_⟩
    · rw [Function.comp_apply, Field.signature, ofClass f hf]
      rfl
    · rw [Function.comp_apply, Method.signature, ofClass' m hm, shows.loaded m hm]
      rfl
  · rw [if_neg high, if_neg high]
    obtain ⟨fields, methods⟩ := shows.memberless (Nat.lt_of_not_le high)
    rw [fields, methods]
    exact ⟨rfl, rfl⟩

/-! ## Requests that have been fulfilled -/

/-- What holds after some requests have succeeded. -/
structure Fulfils (u : Universe) (s : Supply) (qs : List (String × Level)) : Prop where
  wellFormed : u.IsWellFormed
  faithful : u.IsFaithful s
  kinded : u.IsKinded s
  bare : u.IsBare
  settled : u.IsSettled s
  within : u.IsWithin s qs
  served : ∀ {name level}, s.Needs qs name level → ∃ id, u.Serves name level id
  library : ∀ {name id}, u.find? name = some id → (u.record id).isPhantom = false →
    (u.record id).partition = some .library

variable {qs : List (String × Level)} {level : Level} {allowPhantoms : Bool} {e : Error}

theorem Links.serves {superclass : Option ClassId} {interfaces : List ClassId} {parent : String}
    (h : u.Links d superclass interfaces) (member : parent ∈ d.supertypes) :
    ∃ id, u.Serves parent .hierarchy id := by
  rcases List.mem_append.mp member with member | member
  · have related := h.superclass
    rw [Option.mem_toList.mp member] at related
    cases related with
    | some served => exact ⟨_, served⟩
  · obtain ⟨id, -, served⟩ := exists_related h.interfaces member
    exact ⟨id, served⟩

/-- What is needed for the sake of others is there as soon as what is asked for is. -/
theorem serves_of_needs (faithful : u.IsFaithful s) (kinded : u.IsKinded s)
    (asked : ∀ q ∈ qs, ∃ id, u.Serves q.1 q.2 id) (needs : s.Needs qs name level) :
    ∃ id, u.Serves name level id := by
  have shown {name : String} {level : Level} {d : ClassDefinition}
      (served : ∃ id, u.Serves name level id) (given : s.lookup name = .ok (some d)) :
      ∃ id, u.Shows d id ∧ level ≤ (u.record id).level := by
    obtain ⟨id, served⟩ := served
    cases phantom : (u.record id).isPhantom with
    | true =>
        have absent := ((kinded name id served.found).phantom phantom).1
        rw [given] at absent
        cases absent
    | false =>
        obtain ⟨d', given', shows⟩ := faithful.shows served.found phantom
        rw [given] at given'
        cases given'
        exact ⟨id, shows, served.level_le phantom⟩
  induction needs with
  | asked member => exact asked _ member
  | lower le _ ih => exact ih.imp fun _ served => served.of_le le
  | supertype _ given member ih =>
      obtain ⟨id, shows, high⟩ := shown ih given
      exact (shows.links high).serves member
  | signature _ given member ih =>
      obtain ⟨id, shows, high⟩ := shown ih given
      exact shows.signatures high _ member
  | mention _ given member ih =>
      obtain ⟨id, shows, high⟩ := shown ih given
      exact shows.mentions high _ member

theorem Fulfils.not_blocks (h : u.Fulfils s qs) (same : u.allowPhantoms = allowPhantoms) :
    ¬ s.Blocks allowPhantoms qs e := by
  have sound {name : String} {id : ClassId} (served : u.Serves name .hierarchy id) :
      s.IsSound allowPhantoms name := same ▸ h.settled name id served
  intro blocks
  cases blocks with
  | cycle needs back =>
      obtain ⟨id, served⟩ := h.served needs
      exact (sound served).acyclic _ .refl back
  | @missing name disallowed needs absent =>
      obtain ⟨id, served⟩ := h.served needs
      have defined : ∃ d, s.lookup name = .ok (some d) := by
        cases phantom : (u.record id).isPhantom with
        | true =>
            have high : u.Serves name .hierarchy id :=
              ⟨served.found, isLoaded_iff.mpr (.inl phantom)⟩
            exact (sound high).defined disallowed name .refl
        | false => exact (h.faithful.shows served.found phantom).imp fun _ shows => shows.1
      obtain ⟨d, given⟩ := defined
      rw [absent] at given
      cases given

/-- A class shows what its definition makes of its level, or what there is of a phantom. -/
theorem Fulfils.view_eq (h : u.Fulfils s qs) (found : u.find? name = some id) :
    (s.lookup name = .ok none ∧ u.view id = .phantom) ∨
      ∃ d, s.lookup name = .ok (some d) ∧
        u.view id = .ofDefinition d (u.record id).level := by
  have fits := h.kinded name id found
  have bare := h.bare name id found
  cases phantom : (u.record id).isPhantom with
  | true =>
      obtain ⟨absent, superclass, interfaces, modifiers⟩ := fits.phantom phantom
      obtain ⟨bottom, fields, methods⟩ := bare.phantom phantom
      obtain ⟨p, placed, -, among⟩ := (h.wellFormed.stands found).placed
      rw [among.mpr phantom] at placed
      refine .inl ⟨absent, ClassView.ext bottom phantom placed modifiers ?_ ?_ ?_ ?_⟩
      · change Option.map _ ((u.record id).superclass.filter _) = none
        rw [superclass]
        rfl
      · change List.map _ ((u.record id).interfaces.filter _) = []
        rw [interfaces]
        rfl
      · exact congrArg (List.map _) fields
      · exact congrArg (List.map _) methods
  | false =>
      obtain ⟨d, given, shows⟩ := h.faithful.shows found phantom
      obtain ⟨superclass, interfaces⟩ := view_links h.wellFormed bare shows
      obtain ⟨fields, methods⟩ := view_members shows
      exact .inr ⟨d, given, ClassView.ext rfl phantom (h.library found phantom)
        (fits.flags phantom d given) superclass interfaces fields methods⟩

theorem Fulfils.of_subset {qs' : List (String × Level)} (h : u.Fulfils s qs) (sub : qs ⊆ qs')
    (sub' : qs' ⊆ qs) : u.Fulfils s qs' :=
  { h with
    within := fun name id found => (h.within name id found).mono sub
    served := fun needs => h.served (needs.mono sub') }

/-- A class that some requests need is at least at the level that it has where they have been
fulfilled before. -/
theorem Fulfils.rises {id' : ClassId} (h : u.Fulfils s qs) (k : v.Fulfils s qs)
    (found : u.find? name = some id) (found' : v.find? name = some id')
    (real : (v.record id').isPhantom = false) : (u.record id).level ≤ (v.record id').level := by
  obtain ⟨other, served⟩ := k.served (h.within name id found)
  have same : other = id' := Option.some.inj (served.found.symm.trans found')
  subst same
  exact served.level_le real

/-- Universes in which the same requests have been fulfilled look the same. -/
theorem Fulfils.view?_eq (h : u.Fulfils s qs) (k : v.Fulfils s qs) (name : String) :
    u.view? name = v.view? name := by
  have registered {u v : Universe} (h : u.Fulfils s qs) (k : v.Fulfils s qs) {id : ClassId}
      (found : u.find? name = some id) : ∃ id', v.find? name = some id' := by
    obtain ⟨id', served⟩ := k.served (h.within name id found)
    exact ⟨id', served.found⟩
  unfold view?
  cases found : u.find? name with
  | none =>
      cases found' : v.find? name with
      | none => rfl
      | some id' =>
          obtain ⟨id, found''⟩ := registered k h found'
          rw [found] at found''
          cases found''
  | some id =>
      obtain ⟨id', found'⟩ := registered h k found
      rw [found', Option.map_some, Option.map_some]
      refine congrArg some ?_
      rcases h.view_eq found with ⟨absent, shown⟩ | ⟨d, given, shown⟩
      · rcases k.view_eq found' with ⟨-, shown'⟩ | ⟨d, given, -⟩
        · rw [shown, shown']
        · rw [absent] at given
          cases given
      · rcases k.view_eq found' with ⟨absent, -⟩ | ⟨d', given', shown'⟩
        · rw [given] at absent
          cases absent
        · rw [given] at given'
          cases given'
          have real : (u.record id).isPhantom = false := congrArg ClassView.isPhantom shown
          have real' : (v.record id').isPhantom = false := congrArg ClassView.isPhantom shown'
          have level : (u.record id).level = (v.record id').level :=
            Level.rank_injective (Nat.le_antisymm (h.rises k found found' real')
              (k.rises h found' found real))
          rw [shown, shown', level]

/-! ## Lists of requests -/

/-- Resolves names to levels, one after the other. -/
def resolveEach (s : Supply) (qs : List (String × Level)) : Action Unit :=
  qs.forM fun q => discard (resolve s .regular q.1 q.2)

theorem resolve_moves (wf : u.IsWellFormed) (named : s.IsNamed) (q : String × Level) :
    Keeps (Moves s .dangling) (discard (resolve s .regular q.1 q.2)) u fun _ v =>
      ∃ id, v.Serves q.1 q.2 id := by
  have kept : Keeps (Moves s .dangling) (resolve s .regular q.1 q.2) u fun id v =>
      s.IsTrueTo q.1 → v.Serves q.1 q.2 id :=
    resolve_keeps wf (by decide) (Nat.zero_le _)
  exact kept.discard.mono fun _ _ _ served => served.imp fun _ h => h (named q.1)

theorem resolveEach_keeps (wf : u.IsWellFormed) (named : s.IsNamed) :
    Keeps (Moves s .dangling) (resolveEach s qs) u fun _ v =>
      ∀ q ∈ qs, ∃ id, v.Serves q.1 q.2 id :=
  Keeps.forM qs (fun q _ _ moves => resolve_moves (moves.isWellFormed wf) named q)
    fun _ _ _ first more served => served.imp fun _ => more.serves (first.isWellFormed wf)

theorem resolveEach_confined (wf : u.IsWellFormed) (named : s.IsNamed) :
    Confined s qs (resolveEach s qs) u := by
  refine (Keeps.forM (P := fun _ _ => True) qs (fun q hm v stays => ?_)
    fun _ _ _ _ _ _ => trivial).mono fun _ _ _ _ => trivial
  exact (resolve_confined named (stays wf).1 (.asked hm)).discard.mono fun _ _ _ _ => trivial

theorem resolveEach_failsBy {rs : List (String × Level)} (named : s.IsNamed) (total : s.IsTotal)
    (bounded : s.IsBounded) (h : u.IsOpen allowPhantoms) (sub : rs ⊆ qs) :
    FailsBy (resolveEach s rs) u (s.Blocks allowPhantoms qs) := by
  refine FailsBy.forM (I := fun v => v.IsOpen allowPhantoms) rs h (fun q hm v hv => ?_)
    fun q t b v ht resolved => ht.moves ((resolve_moves ht.wellFormed named q).ok resolved).1
  exact (resolve_failsBy named total bounded hv (.asked (sub hm))).discard

theorem isOpen_empty (recycles allowPhantoms : Bool) :
    (empty recycles allowPhantoms).IsOpen allowPhantoms :=
  ⟨isWellFormed_empty recycles allowPhantoms, rfl, rfl⟩

theorem fulfils_of_resolved {recycles : Bool} (named : s.IsNamed)
    (done : resolveEach s qs (.empty recycles allowPhantoms) = .ok () u) : u.Fulfils s qs := by
  have wf := isWellFormed_empty recycles allowPhantoms
  have empty := isFaithful_empty recycles allowPhantoms s
  obtain ⟨moves, asked⟩ := (resolveEach_keeps wf named).ok done
  have faithful := Moves.isFaithful wf named empty moves
  have kinded := Moves.isKinded wf named empty (isKinded_empty recycles allowPhantoms s) moves
  refine ⟨moves.isWellFormed wf, faithful, kinded, ?_, ?_, ?_, ?_, ?_⟩
  · exact Moves.isBare wf named empty (isBare_empty recycles allowPhantoms) moves
  · exact Moves.isSettled wf named (isSettled_empty recycles allowPhantoms s) moves
  · exact (((resolveEach_confined wf named).ok done).1 wf).2
      (isWithin_empty recycles allowPhantoms s qs)
  · exact serves_of_needs faithful kinded asked
  · intro name id found real
    cases moves.came wf found real with
    | before absent => cases absent
    | now _ partition _ => exact partition

/-- Whether some requests all succeed, and what the classes show after them, does not depend on the
order of the requests. -/
theorem resolveEach_perm (named : s.IsNamed) (total : s.IsTotal) (bounded : s.IsBounded)
    {qs' : List (String × Level)} (perm : qs.Perm qs') {recycles : Bool}
    (done : resolveEach s qs (.empty recycles allowPhantoms) = .ok () u) :
    ∃ v, resolveEach s qs' (.empty recycles allowPhantoms) = .ok () v ∧
      ∀ name, u.view? name = v.view? name := by
  have fulfilled := fulfils_of_resolved named done
  have wf := isWellFormed_empty recycles allowPhantoms
  have same : u.allowPhantoms = allowPhantoms :=
    ((resolveEach_keeps wf named).ok done).1.grows wf |>.allowPhantoms
  cases outcome : resolveEach s qs' (.empty recycles allowPhantoms) with
  | error e v =>
      have blocks := resolveEach_failsBy named total bounded (isOpen_empty recycles allowPhantoms)
        perm.symm.subset e v outcome
      exact absurd blocks (fulfilled.not_blocks same)
  | ok _ v =>
      have fulfilled' := fulfils_of_resolved named outcome
      exact ⟨v, rfl, fulfilled.view?_eq (fulfilled'.of_subset perm.symm.subset perm.subset)⟩

/-- A superclass that is asked for at the lowest level and above it by its subclass. -/
def taskRequests : List (String × Level) :=
  [("a.Base", .dangling), ("a.Task", .bodies), ("a.Helper", .signatures)]

theorem resolveEach_perm_taskRequests :
    ∃ u v, resolveEach smallSource.supply taskRequests (.empty false true) = .ok () u ∧
      resolveEach smallSource.supply taskRequests.reverse (.empty false true) = .ok () v ∧
      ∀ name, u.view? name = v.view? name := by
  obtain ⟨_, u, done⟩ := exists_of_succeeds
    (show succeeds (resolveEach smallSource.supply taskRequests) (.empty false true) = true by
      decide +kernel)
  obtain ⟨v, done', same⟩ := resolveEach_perm smallSource.isNamed_supply (fun _ => ⟨_, rfl⟩)
    smallSource.isBounded_supply taskRequests.reverse_perm.symm done
  exact ⟨u, v, done, done', same⟩

end Universe

end ClassUniverse
