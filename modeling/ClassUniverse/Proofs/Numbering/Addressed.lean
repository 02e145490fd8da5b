import ClassUniverse.OrderedMap
import ClassUniverse.Proofs.Numbering.Lasting

/-!
# A recycling numbering with an index by address

To find the number of an object without a search, a numbering keeps an index beside its places and
its free numbers: for the address of each object that a place refers to its number, in 32 bits.  A
place refers to its object after this has ceased to exist, too, and by then another object may stand
at the same address.  So a number that the index gives is believed only if the object at its place
exists and stands at the address, and an addition that meets a number of an object that is gone
takes it from that first.

An operation gives nothing where it meets a number without a place.  That never happens, and the
index has just the numbers of the objects that places refer to.
-/

namespace ClassUniverse

/-- A recycling numbering with the numbers of the addresses of its objects. -/
structure AddressedNumbering (κ α : Type) extends RecyclingNumbering α where
  index : List (κ × UInt32)

namespace AddressedNumbering

variable {κ α : Type}

def empty : AddressedNumbering κ α := ⟨.empty, []⟩

def get? (isLive : α → Bool) (t : AddressedNumbering κ α) (id : UInt32) : Option α :=
  t.toRecyclingNumbering.get? isLive id.toNat

variable [DecidableEq κ] (address : α → κ)

/-- The number that the index has for the address of an object, if the object at its place exists
and stands at that address. -/
def verified? (isLive : α → Bool) (t : AddressedNumbering κ α) (a : α) : Option UInt32 :=
  (t.index.lookup (address a)).filter fun id =>
    (t.get? isLive id).any fun current => address current = address a

/-- The numbering without the holder of a number.  Its address leaves the index if that has this
number for it. -/
def vacate? (t : AddressedNumbering κ α) (id : UInt32) : Option (AddressedNumbering κ α) :=
  (t.place? id.toNat).map fun p =>
    match p.holder with
    | none => t
    | some b =>
        let own := t.index.lookup (address b) = some id
        ⟨t.vacate id.toNat,
          if own then t.index.filter fun pair => pair.1 ≠ address b else t.index⟩

def vacateAll? (t : AddressedNumbering κ α) (ids : List UInt32) :
    Option (AddressedNumbering κ α) :=
  ids.foldlM (vacate? address) t

/-- How many numbers have been taken from objects that no longer exist, and the numbering after
that. -/
def sweep? (isLive : α → Bool) (t : AddressedNumbering κ α) :
    Option (Nat × AddressedNumbering κ α) :=
  let dead := (t.deadIds isLive).map UInt32.ofNat
  (t.vacateAll? address dead).map fun t => (dead.length, { t with addedSinceSweep := 0 })

/-- Gives a free number, or a new one, to an object, whose address has it in the index from then on.
-/
def settle? (t : AddressedNumbering κ α) (a : α) : Option (UInt32 × AddressedNumbering κ α) :=
  if t.free.head?.all fun id => (t.place? id).isSome then
    let (id, n) := t.settle a
    let id := UInt32.ofNat id
    some (id, ⟨n, (address a, id) :: t.index.filter fun pair => pair.1 ≠ address a⟩)
  else none

/-- The numbering in which an addition looks for a free number: the addition is counted, and dead
objects are swept out if that is due. -/
def ready? (isLive : α → Bool) (t : AddressedNumbering κ α) : Option (AddressedNumbering κ α) :=
  let counted := { t with addedSinceSweep := t.addedSinceSweep + 1 }
  if counted.isSweepDue then (counted.sweep? address isLive).map Prod.snd else some counted

/-- The numbering in which nothing stands at the address of an object that has no number.  What the
index has there belongs to an object that is gone and has not been swept out. -/
def cleared? (t : AddressedNumbering κ α) (a : α) : Option (AddressedNumbering κ α) :=
  match t.index.lookup (address a) with
  | some stale => t.vacate? address stale
  | none => some t

/-- The number of an object, given now if it has none, and the numbering after that. -/
def add? (isLive : α → Bool) (t : AddressedNumbering κ α) (a : α) :
    Option (UInt32 × AddressedNumbering κ α) :=
  match t.verified? address isLive a with
  | some id => some (id, t)
  | none => do
      let cleared ← t.cleared? address a
      let ready ← cleared.ready? address isLive
      ready.settle? address a

/-- Whether an object had a number, and the numbering without it. -/
def remove? (isLive : α → Bool) (t : AddressedNumbering κ α) (a : α) :
    Option (Bool × AddressedNumbering κ α) :=
  match t.verified? address isLive a with
  | some id => (t.vacate? address id).map fun t => (true, t)
  | none => some (false, t)

def handleOf? (isLive : α → Bool) (t : AddressedNumbering κ α) (a : α) : Option NumberHandle :=
  (t.verified? address isLive a).bind fun id =>
    (t.place? id.toNat).map fun p => ⟨id.toNat, p.generation⟩

/-! ## Tables in step -/

/-- Whether the index has just the addresses of the objects that places refer to, each once and with
the number of the place, and the free numbers are those of places without an object. -/
structure IsConsistent (t : AddressedNumbering κ α) : Prop where
  isWellFormed : t.IsWellFormed
  nodup : (t.index.map Prod.fst).Nodup
  index : ∀ k id, (k, id) ∈ t.index ↔ ∃ b, t.holder? id.toNat = some b ∧ address b = k
  few : t.places.size < 2 ^ 32

variable {address} {isLive : α → Bool} {t : AddressedNumbering κ α} {a b : α} {id : UInt32}
  {number other : Nat} {k : κ}

omit [DecidableEq κ] in
theorem isConsistent_empty : (empty : AddressedNumbering κ α).IsConsistent address where
  isWellFormed := RecyclingNumbering.isWellFormed_empty
  nodup := List.nodup_nil
  index k id := by simp [empty, RecyclingNumbering.empty, RecyclingNumbering.holder?,
    RecyclingNumbering.place?]
  few := by simp [empty, RecyclingNumbering.empty]

namespace IsConsistent

omit [DecidableEq κ] in
theorem small (c : t.IsConsistent address) (held : t.holder? number = some b) :
    number < 2 ^ 32 := by
  obtain ⟨p, hp, -⟩ := RecyclingNumbering.holder?_eq_some_iff.mp held
  have last := (RecyclingNumbering.place?_eq_some_iff.mp hp).2.1
  have few := c.few
  omega

omit [DecidableEq κ] in
theorem toNat_ofNat (c : t.IsConsistent address) (held : t.holder? number = some b) :
    (UInt32.ofNat number).toNat = number := UInt32.toNat_ofNat_of_lt' (c.small held)

omit [DecidableEq κ] in
theorem counted (c : t.IsConsistent address) (added : Nat) :
    { t with addedSinceSweep := added }.IsConsistent address where
  isWellFormed := ⟨c.isWellFormed.single, c.isWellFormed.free_nodup, c.isWellFormed.free_vacant⟩
  nodup := c.nodup
  index := c.index
  few := c.few

theorem lookup_eq_some_iff (c : t.IsConsistent address) :
    t.index.lookup k = some id ↔ ∃ b, t.holder? id.toNat = some b ∧ address b = k :=
  (lookup_eq_some_iff_mem c.nodup).trans (c.index k id)

theorem lookup_of_holder? (c : t.IsConsistent address) (held : t.holder? number = some b) :
    t.index.lookup (address b) = some (UInt32.ofNat number) := by
  refine c.lookup_eq_some_iff.mpr ⟨b, ?_, rfl⟩
  rw [c.toNat_ofNat held, held]

theorem lookup_eq_none_iff (c : t.IsConsistent address) :
    t.index.lookup k = none ↔ ∀ number b, t.holder? number = some b → address b ≠ k := by
  constructor
  · rintro absent number b held rfl
    rw [c.lookup_of_holder? held] at absent
    cases absent
  · intro apart
    rw [Option.eq_none_iff_forall_ne_some]
    intro id found
    obtain ⟨b, held, same⟩ := c.lookup_eq_some_iff.mp found
    exact apart _ b held same

/-- No two places refer to objects of one address, whether these exist or not. -/
theorem eq_of_address (c : t.IsConsistent address) (ha : t.holder? number = some a)
    (hb : t.holder? other = some b) (same : address a = address b) : number = other := by
  have found := c.lookup_of_holder? ha
  rw [same, c.lookup_of_holder? hb, Option.some.injEq] at found
  exact (RecyclingNumbering.eq_of_ofNat_eq (c.small hb) (c.small ha) found).symm

end IsConsistent

/-- Whether an object exists and no other one that exists stands at its address. -/
structure Stands (address : α → κ) (isLive : α → Bool) (a : α) : Prop where
  live : isLive a = true
  alone : ∀ b, isLive b = true → address b = address a → b = a

/-- The index and the search among the places find the same numbers. -/
theorem verified?_eq_some_iff (c : t.IsConsistent address) (stands : Stands address isLive a) :
    t.verified? address isLive a = some id ↔ t.holder? id.toNat = some a := by
  unfold verified?
  rw [Option.filter_eq_some_iff, c.lookup_eq_some_iff]
  constructor
  · rintro ⟨-, believed⟩
    obtain ⟨current, found, same⟩ := (Option.any_eq_true _ _).mp believed
    have found : t.toRecyclingNumbering.get? isLive id.toNat = some current := found
    rw [RecyclingNumbering.get?_eq_filter, Option.filter_eq_some_iff] at found
    rw [← stands.alone current found.2 (of_decide_eq_true same)]
    exact found.1
  · intro held
    have found : t.get? isLive id = some a := by
      unfold AddressedNumbering.get?
      rw [RecyclingNumbering.get?_eq_filter, held]
      simp [stands.live]
    exact ⟨⟨a, held, rfl⟩, by simp [found]⟩

/-! ### Numbers that are taken -/

theorem index_vacate (c : t.IsConsistent address) (held : t.holder? id.toNat = some b)
    (other : UInt32) : (k, other) ∈ t.index.filter (fun pair => pair.1 ≠ address b) ↔
      ∃ d, (t.vacate id.toNat).holder? other.toNat = some d ∧ address d = k := by
  rw [List.mem_filter, c.index, RecyclingNumbering.holder?_vacate]
  constructor
  · rintro ⟨⟨d, hd, rfl⟩, differ⟩
    refine ⟨d, ?_, rfl⟩
    rw [if_neg, hd]
    intro same
    rw [same, held] at hd
    cases hd
    simp at differ
  · rintro ⟨d, hd, rfl⟩
    split at hd
    · cases hd
    · rename_i differ
      exact ⟨⟨d, hd, rfl⟩, by simpa using fun same => differ (c.eq_of_address hd held same)⟩

/-- A number with a place can be taken from its holder. -/
theorem vacate?_eq_some (c : t.IsConsistent address) (placed : (t.place? id.toNat).isSome) :
    ∃ t', t.vacate? address id = some t' ∧ t'.toRecyclingNumbering = t.vacate id.toNat ∧
      t'.IsConsistent address := by
  obtain ⟨p, hp⟩ := Option.isSome_iff_exists.mp placed
  unfold vacate?
  rw [hp, Option.map_some]
  cases held : p.holder with
  | none =>
      have vacant : t.holder? id.toNat = none := by simp [RecyclingNumbering.holder?, hp, held]
      exact ⟨t, rfl, (RecyclingNumbering.vacate_of_vacant vacant).symm, c⟩
  | some b =>
      have holder : t.holder? id.toNat = some b :=
        RecyclingNumbering.holder?_eq_some_iff.mpr ⟨p, hp, held⟩
      have own : t.index.lookup (address b) = some id :=
        c.lookup_eq_some_iff.mpr ⟨b, holder, rfl⟩
      refine ⟨⟨t.vacate id.toNat, t.index.filter fun pair => pair.1 ≠ address b⟩, ?_, rfl,
        RecyclingNumbering.isWellFormed_vacate c.isWellFormed _, ?_, fun k other => ?_, ?_⟩
      · dsimp only
        rw [if_pos own]
      · exact c.nodup.sublist (List.filter_sublist.map _)
      · exact index_vacate c holder other
      · rw [RecyclingNumbering.size_vacate]
        exact c.few

theorem vacateAll?_eq_some (c : t.IsConsistent address) (ids : List UInt32)
    (placed : ∀ id ∈ ids, (t.place? id.toNat).isSome) :
    ∃ t', t.vacateAll? address ids = some t' ∧
      t'.toRecyclingNumbering =
        (ids.map UInt32.toNat).foldl RecyclingNumbering.vacate t.toRecyclingNumbering ∧
      t'.IsConsistent address := by
  induction ids generalizing t with
  | nil => exact ⟨t, rfl, rfl, c⟩
  | cons id ids ih =>
      obtain ⟨first, vacated, same, c'⟩ := vacate?_eq_some c (placed id List.mem_cons_self)
      have placed' : ∀ other ∈ ids, (first.place? other.toNat).isSome := by
        intro other hm
        obtain ⟨p, hp⟩ := Option.isSome_iff_exists.mp (placed other (List.mem_cons_of_mem _ hm))
        obtain ⟨q, hq, -⟩ := RecyclingNumbering.follows_vacate _ id.toNat _ p hp
        rw [same, hq]
        rfl
      obtain ⟨t', rest, same', c''⟩ := ih c' placed'
      refine ⟨t', ?_, ?_, c''⟩
      · rw [vacateAll?, List.foldlM_cons, vacated]
        exact rest
      · rw [same', same, List.map_cons, List.foldl_cons]

omit [DecidableEq κ] in
theorem place?_of_mem_deadIds (hm : number ∈ t.deadIds isLive) : (t.place? number).isSome := by
  obtain ⟨⟨p, id⟩, hz, dead⟩ := List.mem_filterMap.mp hm
  obtain ⟨pos, less, -⟩ := List.mem_zipIdx hz
  obtain rfl : id = number := by
    cases held : p.holder with
    | none => simp [held] at dead
    | some a => simp_all
  have inside : id - 1 < t.places.size := by
    rw [Array.length_toList] at less
    omega
  simp [RecyclingNumbering.place?, show id ≠ 0 by omega, inside]

/-- All dead objects can be swept out. -/
theorem sweep?_eq_some (c : t.IsConsistent address) (isLive : α → Bool) :
    ∃ t', t.sweep? address isLive = some ((t.deadIds isLive).length, t') ∧
      t'.toRecyclingNumbering = t.sweep isLive ∧ t'.IsConsistent address := by
  have number {number : Nat} (hm : number ∈ t.deadIds isLive) :
      (UInt32.ofNat number).toNat = number := by
    obtain ⟨p, hp⟩ := Option.isSome_iff_exists.mp (place?_of_mem_deadIds hm)
    have last := (RecyclingNumbering.place?_eq_some_iff.mp hp).2.1
    have few := c.few
    exact UInt32.toNat_ofNat_of_lt' (show number < 2 ^ 32 by omega)
  have same : ((t.deadIds isLive).map UInt32.ofNat).map UInt32.toNat = t.deadIds isLive := by
    rw [List.map_map]
    exact (List.map_congr_left fun _ hm => number hm).trans (List.map_id _)
  obtain ⟨t', swept, after, c'⟩ := vacateAll?_eq_some c ((t.deadIds isLive).map UInt32.ofNat)
    fun id hm => by
      obtain ⟨dead, hd, rfl⟩ := List.mem_map.mp hm
      rw [number hd]
      exact place?_of_mem_deadIds hd
  refine ⟨_, ?_, ?_, c'.counted 0⟩
  · unfold sweep?
    dsimp only
    rw [swept, Option.map_some, List.length_map]
  · rw [same] at after
    unfold RecyclingNumbering.sweep
    rw [← after]

/-! ### Numbers that are given -/

/-- An object whose address no place has can get a number. -/
theorem settle?_eq_some (c : t.IsConsistent address)
    (apart : ∀ number b, t.holder? number = some b → address b ≠ address a) :
    ∃ t', t.settle? address a = some (UInt32.ofNat (t.settle a).1, t') ∧
      t'.toRecyclingNumbering = (t.settle a).2 ∧
      ((t.settle a).2.places.size < 2 ^ 32 → t'.IsConsistent address) := by
  have w := c.isWellFormed
  have placed : (t.free.head?.all fun id => (t.place? id).isSome) = true := by
    cases hf : t.free with
    | nil => rfl
    | cons first free => exact (w.free_vacant first (by simp [hf])).1
  have absent : t.index.lookup (address a) = none := c.lookup_eq_none_iff.mpr apart
  refine ⟨_, by unfold settle?; rw [if_pos placed], rfl, fun few => ?_⟩
  obtain ⟨vacant, -⟩ := RecyclingNumbering.holder?_settle w a 0
  have given : (t.settle a).2.holder? (t.settle a).1 = some a := by
    rw [(RecyclingNumbering.holder?_settle w a _).2, if_pos rfl]
  have small : (UInt32.ofNat (t.settle a).1).toNat = (t.settle a).1 := by
    obtain ⟨p, hp, -⟩ := RecyclingNumbering.holder?_eq_some_iff.mp given
    have last := (RecyclingNumbering.place?_eq_some_iff.mp hp).2.1
    exact UInt32.toNat_ofNat_of_lt' (show (t.settle a).1 < 2 ^ 32 by omega)
  refine ⟨RecyclingNumbering.isWellFormed_settle w fun id held => apart id a held rfl, ?_, ?_, few⟩
  · rw [List.map_cons, List.nodup_cons]
    refine ⟨fun hm => ?_, c.nodup.sublist (List.filter_sublist.map _)⟩
    obtain ⟨pair, hp, same⟩ := List.mem_map.mp hm
    simp [same] at hp
  · intro k id
    rw [List.mem_cons, Prod.mk.injEq, List.mem_filter, c.index,
      (RecyclingNumbering.holder?_settle w a _).2]
    have number : id = UInt32.ofNat (t.settle a).1 ↔ id.toNat = (t.settle a).1 := by
      rw [← UInt32.toNat_inj, small]
    rw [number]
    split
    · rename_i same
      rw [same, vacant]
      simpa using eq_comm
    · rename_i differ
      simp only [differ, and_false, false_or]
      constructor
      · exact And.left
      · rintro ⟨b, held, rfl⟩
        exact ⟨⟨b, held, rfl⟩, by simpa using apart _ b held⟩

/-- An addition can be counted, and dead objects swept out if that is due. -/
theorem ready?_eq_some (c : t.IsConsistent address) (isLive : α → Bool) :
    ∃ t', t.ready? address isLive = some t' ∧ t'.toRecyclingNumbering = t.readied isLive ∧
      t'.IsConsistent address := by
  have counted := c.counted (t.addedSinceSweep + 1)
  unfold ready? RecyclingNumbering.readied
  dsimp only
  split
  · obtain ⟨t', swept, same, c'⟩ := sweep?_eq_some counted isLive
    exact ⟨t', by rw [swept, Option.map_some], same, c'⟩
  · exact ⟨_, rfl, rfl, counted⟩

/-- What an addition starts from: the numbering itself if no other object has left its number at the
address, or the numbering without an object that is gone and had that address. -/
inductive Clears (address : α → κ) (isLive : α → Bool) (a : α) (n : RecyclingNumbering α) :
    RecyclingNumbering α → Prop
  | nothing (own : ∀ number b, n.holder? number = some b → address b = address a → b = a) :
      Clears address isLive a n n
  | stale {number : Nat} {b : α} (held : n.holder? number = some b) (gone : isLive b = false)
      (same : address b = address a) : Clears address isLive a n (n.vacate number)

namespace Clears

variable {n m : RecyclingNumbering α}

omit [DecidableEq κ] in
theorem isWellFormed (h : Clears address isLive a n m) (w : n.IsWellFormed) : m.IsWellFormed := by
  cases h with
  | nothing => exact w
  | stale => exact RecyclingNumbering.isWellFormed_vacate w _

omit [DecidableEq κ] in
theorem follows (h : Clears address isLive a n m) : n.Follows m := by
  cases h with
  | nothing => exact .refl n
  | stale => exact RecyclingNumbering.follows_vacate n _

omit [DecidableEq κ] in
theorem place?_of_live (h : Clears address isLive a n m) (held : n.holder? number = some b)
    (live : isLive b = true) : m.place? number = n.place? number := by
  cases h with
  | nothing => rfl
  | stale held' gone =>
      refine RecyclingNumbering.place?_vacate_of_ne ?_
      rintro rfl
      rw [Option.some.inj (held.symm.trans held'), gone] at live
      cases live

omit [DecidableEq κ] in
theorem holder?_of_some (h : Clears address isLive a n m) (held : m.holder? number = some b) :
    n.holder? number = some b := by
  cases h with
  | nothing => exact held
  | stale =>
      rw [RecyclingNumbering.holder?_vacate] at held
      split at held
      · cases held
      · exact held

end Clears

/-- The address of an object that has no number can be cleared. -/
theorem cleared?_eq_some (c : t.IsConsistent address) (stands : Stands address isLive a)
    (absent : ∀ number, t.holder? number ≠ some a) :
    ∃ t', t.cleared? address a = some t' ∧
      Clears address isLive a t.toRecyclingNumbering t'.toRecyclingNumbering ∧
      t'.IsConsistent address ∧
      ∀ number b, t'.holder? number = some b → address b ≠ address a := by
  unfold cleared?
  cases found : t.index.lookup (address a) with
  | none =>
      have apart := c.lookup_eq_none_iff.mp found
      exact ⟨t, rfl, .nothing fun number b held same => absurd same (apart number b held), c, apart⟩
  | some id =>
      obtain ⟨b, held, same⟩ := c.lookup_eq_some_iff.mp found
      have gone : isLive b = false := by
        rw [← Bool.not_eq_true]
        intro live
        rw [stands.alone b live same] at held
        exact absent _ held
      obtain ⟨t', vacated, after, c'⟩ := vacate?_eq_some c (RecyclingNumbering.isSome_place? held)
      refine ⟨t', vacated, ?_, c', fun number d hd => ?_⟩
      · rw [after]
        exact .stale held gone same
      · rw [after, RecyclingNumbering.holder?_vacate] at hd
        split at hd
        · cases hd
        · rename_i differ
          exact fun same' => differ (c.eq_of_address hd held (same'.trans same.symm))

variable [DecidableEq α]

theorem map_verified? (c : t.IsConsistent address) (stands : Stands address isLive a) :
    (t.verified? address isLive a).map UInt32.toNat = t.toRecyclingNumbering.idOf? a := by
  apply Option.ext
  intro number
  rw [RecyclingNumbering.idOf?_eq_some_iff c.isWellFormed, Option.map_eq_some_iff]
  constructor
  · rintro ⟨id, found, rfl⟩
    exact (verified?_eq_some_iff c stands).mp found
  · intro held
    have small := c.toNat_ofNat held
    exact ⟨UInt32.ofNat number, (verified?_eq_some_iff c stands).mpr (by rw [small, held]), small⟩

/-- An addition gives the number that the numbering without an index gives, once the address has
been cleared. -/
theorem add?_eq_some (c : t.IsConsistent address) (stands : Stands address isLive a) :
    ∃ n t', Clears address isLive a t.toRecyclingNumbering n ∧
      t.add? address isLive a = some (UInt32.ofNat (n.add isLive a).1, t') ∧
      t'.toRecyclingNumbering = (n.add isLive a).2 ∧
      (t'.places.size < 2 ^ 32 → t'.IsConsistent address) := by
  unfold add?
  cases found : t.verified? address isLive a with
  | some id =>
      have held := (verified?_eq_some_iff c stands).mp found
      have added := RecyclingNumbering.add_of_holder? c.isWellFormed isLive held
      refine ⟨t.toRecyclingNumbering, t, .nothing fun number b hb same => ?_, ?_, ?_, fun _ => c⟩
      · rw [c.eq_of_address hb held same, held] at hb
        exact (Option.some.inj hb).symm
      · rw [added, UInt32.ofNat_toNat]
      · rw [added]
  | none =>
      have absent (number : Nat) : t.holder? number ≠ some a := by
        intro held
        have same := map_verified? c stands
        rw [found, (RecyclingNumbering.idOf?_eq_some_iff c.isWellFormed).mpr held] at same
        cases same
      obtain ⟨m, cleared, clears, c₁, apart⟩ := cleared?_eq_some c stands absent
      obtain ⟨r, readied, same₁, c₂⟩ := ready?_eq_some c₁ isLive
      have apart' (number : Nat) (b : α) (held : r.holder? number = some b) :
          address b ≠ address a := by
        rw [same₁] at held
        exact apart number b (RecyclingNumbering.holder?_of_readied held)
      obtain ⟨t', settled, same₂, c₃⟩ := settle?_eq_some c₂ apart'
      have new : m.toRecyclingNumbering.idOf? a = none :=
        (RecyclingNumbering.idOf?_eq_none_iff c₁.isWellFormed).mpr fun number held =>
          apart number a held rfl
      have added : m.toRecyclingNumbering.add isLive a = r.settle a := by
        rw [RecyclingNumbering.add_of_idOf?_none isLive new, same₁]
      refine ⟨m.toRecyclingNumbering, t', clears, ?_, ?_, fun few => c₃ ?_⟩
      · rw [added, ← settled, cleared, Option.bind_eq_bind, Option.bind_some, readied]
        rfl
      · rw [same₂, added]
      · rw [← same₂]
        exact few

theorem remove?_eq_some (c : t.IsConsistent address) (stands : Stands address isLive a) :
    ∃ t', t.remove? address isLive a = some ((t.toRecyclingNumbering.remove? a).isSome, t') ∧
      t'.toRecyclingNumbering =
        (t.toRecyclingNumbering.remove? a).getD t.toRecyclingNumbering ∧
      t'.IsConsistent address := by
  unfold AddressedNumbering.remove? RecyclingNumbering.remove?
  rw [← map_verified? c stands]
  cases found : t.verified? address isLive a with
  | none => exact ⟨t, rfl, rfl, c⟩
  | some id =>
      have held := (verified?_eq_some_iff c stands).mp found
      obtain ⟨t', vacated, same, c'⟩ := vacate?_eq_some c (RecyclingNumbering.isSome_place? held)
      refine ⟨t', ?_, same, c'⟩
      dsimp only
      rw [vacated]
      rfl

theorem handleOf?_eq (c : t.IsConsistent address) (stands : Stands address isLive a) :
    t.handleOf? address isLive a = t.toRecyclingNumbering.handleOf? a := by
  unfold AddressedNumbering.handleOf? RecyclingNumbering.handleOf?
  rw [← map_verified? c stands]
  cases t.verified? address isLive a <;> rfl

end AddressedNumbering

end ClassUniverse
