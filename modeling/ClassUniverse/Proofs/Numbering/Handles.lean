import ClassUniverse.Proofs.Numbering.Searched
import Mathlib.Data.List.Infix

/-!
# How long numbers and handles last

An object keeps its number from the addition that gave it to its removal or its end, and a handle
leads to it as long, and to nothing after that.
-/

namespace ClassUniverse

namespace NumberedHeap

open AddressedNumbering

variable {κ α : Type} [DecidableEq κ] [DecidableEq α] {address : α → κ}
  {u v : NumberedHeap address} {events future : List (Event α)} {a : α} {h : NumberHandle}

/-- An object keeps the number that an addition has given it. -/
theorem holder?_of_kept (sound : v.IsSound) (few : v.IsFew (.add a :: future))
    (there : v.heap.holds a = true) (ran : v.run? (.add a :: future) = some u)
    (lives : u.heap.holds a = true) (kept : .remove a ∉ future) :
    ∃ id, (v.numbering.add? address v.heap.holds a).map Prod.fst = some id ∧
      u.numbering.holder? id.toNat = some a := by
  obtain ⟨n, m, clears, added, same, -⟩ := add?_eq_some sound.consistent (Heap.stands there)
  have stepped : v.step? (.add a) = some { v with numbering := m } := by
    simp only [step?, there, if_true, added, Option.map_some]
  obtain ⟨t, stepped', after⟩ := step sound (.add a)
  obtain rfl := Option.some.inj (stepped.symm.trans stepped')
  obtain ⟨size, few'⟩ := few.next stepped
  obtain ⟨sound', -⟩ := after size
  obtain ⟨u', ran', -, passes⟩ := run sound' few'
  rw [run?_cons stepped, ran', Option.some.injEq] at ran
  subst ran
  have w := clears.isWellFormed sound.consistent.isWellFormed
  have held : m.holder? (n.add v.heap.holds a).1 = some a := by
    rw [same]
    exact RecyclingNumbering.holder?_add_self _ w a
  have number := sound'.consistent.toNat_ofNat held
  have place := passes.stays held lives kept
  refine ⟨_, by rw [added, Option.map_some], ?_⟩
  rw [number]
  exact (RecyclingNumbering.holder?_congr place).trans held

/-- Everything that a number answers about its holder. -/
theorem answers_of_holder? {id : UInt32} (sound : u.IsSound) (lives : u.heap.holds a = true)
    (held : u.numbering.holder? id.toNat = some a) :
    id ≠ 0 ∧ u.numbering.verified? address u.heap.holds a = some id ∧
      u.numbering.add? address u.heap.holds a = some (id, u.numbering) ∧
      (∀ other, u.numbering.get? u.heap.holds other = some a ↔ other = id) ∧
      (u.numbering.handleOf? address u.heap.holds a).isSome := by
  have found := (verified?_eq_some_iff sound.consistent (Heap.stands lives)).mpr held
  obtain ⟨p, hp, -⟩ := RecyclingNumbering.holder?_eq_some_iff.mp held
  refine ⟨?_, found, ?_, fun other => ?_, ?_⟩
  · rintro rfl
    have pos := (RecyclingNumbering.place?_eq_some_iff.mp hp).1
    exact absurd pos (by decide)
  · unfold add?
    rw [found]
  · rw [get?, RecyclingNumbering.get?_of_live _ lives]
    constructor
    · intro held'
      exact UInt32.toNat_inj.mp (sound.consistent.isWellFormed.single _ _ a held' held)
    · rintro rfl
      exact held
  · unfold handleOf?
    rw [found, Option.bind_some, hp]
    rfl

/-- The objects that count are those that exist, have been added and have not been removed since. -/
theorem mem_living_run (ran : (initial address).run? events = some u)
    (few : (initial address).IsFew events) :
    a ∈ u.numbering.living u.heap.holds ↔
      (initial address).IsKept events a ∧ u.heap.holds a = true := by
  obtain ⟨u', ran', sound, passes⟩ := run isSound_initial few
  obtain rfl := Option.some.inj (ran.symm.trans ran')
  rw [RecyclingNumbering.mem_living]
  constructor
  · rintro ⟨number, found⟩
    rw [RecyclingNumbering.get?_eq_filter, Option.filter_eq_some_iff] at found
    refine ⟨(passes.comes found.1 found.2).resolve_right ?_, found.2⟩
    rintro ⟨held, -⟩
    exact absurd (isSound_initial.known held) List.not_mem_nil
  · rintro ⟨⟨past, future, v, rfl, reached, there, kept⟩, lives⟩
    have begins : past <+: past ++ .add a :: future := List.prefix_append _ _
    obtain ⟨v', reached', sound', -⟩ := run isSound_initial
      fun before starts => few before (starts.trans begins)
    obtain rfl := Option.some.inj (reached.symm.trans reached')
    rw [run?_append, reached, Option.bind_some] at ran
    obtain ⟨id, -, held⟩ := holder?_of_kept sound' (few.rest reached) there ran lives kept
    exact ⟨id.toNat, (RecyclingNumbering.get?_of_live _ lives).mpr held⟩

/-- A handle leads to its object as long as that exists and has not been removed, and to nothing
after that. -/
theorem resolve?_run (sound : v.IsSound) (passes : v.Passes future u)
    (there : v.heap.holds a = true)
    (made : v.numbering.handleOf? address v.heap.holds a = some h)
    (rare : ∀ p ∈ u.numbering.places, p.vacated < 2 ^ 32) :
    u.numbering.resolve? u.heap.holds h =
      if u.heap.holds a = true ∧ .remove a ∉ future then some a else none := by
  rw [handleOf?_eq sound.consistent (Heap.stands there)] at made
  obtain ⟨number, found, made⟩ := Option.bind_eq_some_iff.mp made
  obtain ⟨p, hp, rfl⟩ := Option.map_eq_some_iff.mp made
  have holder := (RecyclingNumbering.idOf?_eq_some_iff sound.consistent.isWellFormed).mp found
  have held : p.holder = some a := by simpa [RecyclingNumbering.holder?, hp] using holder
  unfold RecyclingNumbering.resolve?
  dsimp only
  by_cases lasts : u.heap.holds a = true ∧ .remove a ∉ future
  · rw [if_pos lasts, passes.stays holder lasts.1 lasts.2, hp]
    simp [RecyclingNumbering.liveHolder?, held, lasts.1]
  · obtain ⟨q, hq, becomes⟩ := passes.follows number p hp
    rw [if_neg lasts, hq]
    dsimp only
    split
    · rename_i same
      have le := becomes.le
      have bound := rare q (Array.mem_of_getElem? (RecyclingNumbering.place?_eq_some_iff.mp hq).2.2)
      have same : q.vacated = p.vacated :=
        RecyclingNumbering.eq_of_ofNat_eq bound (by omega) same
      unfold RecyclingNumbering.liveHolder?
      rw [becomes.keeps same a held]
      cases lives : u.heap.holds a with
      | false => simp [lives]
      | true =>
          have removed : .remove a ∈ future := by
            by_contra kept
            exact lasts ⟨lives, kept⟩
          obtain ⟨q', hq', less⟩ := passes.leaves hp held lives removed
          obtain rfl : q' = q := Option.some.inj (hq'.symm.trans hq)
          omega
    · rfl

/-- After any use of a numbering, which meets no number without a place and leaves its tables in
step: an object that still exists, has been added and has not been removed since has the number that
the addition gave it, which leads back to it; no two such objects share a number, and they are the
ones that count.  A handle leads to its object until that ceases to exist or is removed, and to
nothing after that, whoever comes to the place or to the address.  If no object comes to an address
that a place still refers to, a numbering that searches its places is in the same state. -/
theorem number_lasts (address : α → κ) (events : List (Event α))
    (few : (initial address).IsFew events)
    (rare : ∀ u, (initial address).run? events = some u →
      ∀ p ∈ u.numbering.places, p.vacated < 2 ^ 32) :
    ∃ u, (initial address).run? events = some u ∧ u.numbering.IsConsistent address ∧
      (∀ past a future v, events = past ++ .add a :: future →
        (initial address).run? past = some v → v.heap.holds a = true → .remove a ∉ future →
          u.heap.holds a = true → ∃ id,
            (v.numbering.add? address v.heap.holds a).map Prod.fst = some id ∧ id ≠ 0 ∧
            u.numbering.verified? address u.heap.holds a = some id ∧
            u.numbering.add? address u.heap.holds a = some (id, u.numbering) ∧
            (∀ other, u.numbering.get? u.heap.holds other = some a ↔ other = id) ∧
            (u.numbering.handleOf? address u.heap.holds a).isSome) ∧
      (∀ a b, (initial address).IsKept events a → (initial address).IsKept events b →
        u.heap.holds a = true → u.heap.holds b = true →
          u.numbering.verified? address u.heap.holds a =
            u.numbering.verified? address u.heap.holds b → a = b) ∧
      (∃ kept : List α, kept.Nodup ∧ kept.length = u.numbering.size u.heap.holds ∧
        ∀ a, a ∈ kept ↔ (initial address).IsKept events a ∧ u.heap.holds a = true) ∧
      (∀ past future v a h, events = past ++ future → (initial address).run? past = some v →
        v.heap.holds a = true → v.numbering.handleOf? address v.heap.holds a = some h →
          u.numbering.resolve? u.heap.holds h =
            if u.heap.holds a = true ∧ .remove a ∉ future then some a else none) ∧
      ((initial address).IsSpared events →
        u.searched = (SearchedHeap.initial address).run events) := by
  obtain ⟨u, ran, sound, -⟩ := run isSound_initial few
  have reaches {past future : List (Event α)} {v : NumberedHeap address}
      (split : events = past ++ future) (reached : (initial address).run? past = some v) :
      v.IsSound ∧ v.IsFew future ∧ v.Passes future u := by
    subst split
    have begins : past <+: past ++ future := List.prefix_append past future
    obtain ⟨v', reached', sound', -⟩ := run isSound_initial
      fun before starts => few before (starts.trans begins)
    obtain rfl := Option.some.inj (reached.symm.trans reached')
    obtain ⟨u', ran', -, passes⟩ := run sound' (few.rest reached)
    rw [run?_append, reached, Option.bind_some, ran'] at ran
    obtain rfl := Option.some.inj ran
    exact ⟨sound', few.rest reached, passes⟩
  refine ⟨u, ran, sound.consistent, ?_, ?_, ?_, ?_, fun spared => ?_⟩
  · intro past a future v split reached there kept lives
    obtain ⟨sound', few', passes⟩ := reaches split reached
    obtain ⟨id, given, held⟩ := holder?_of_kept sound' few' there passes.ran lives kept
    exact ⟨id, given, answers_of_holder? sound lives held⟩
  · rintro a b ⟨past, future, v, split, reached, there, kept⟩ - lives lives' same
    obtain ⟨sound', few', passes⟩ := reaches split reached
    obtain ⟨id, -, held⟩ := holder?_of_kept sound' few' there passes.ran lives kept
    have found := (answers_of_holder? sound lives held).2.1
    rw [same] at found
    have held' := (verified?_eq_some_iff sound.consistent (Heap.stands lives')).mp found
    exact Option.some.inj (held.symm.trans held')
  · exact ⟨_, RecyclingNumbering.nodup_living sound.consistent.isWellFormed,
      RecyclingNumbering.length_living _ _, fun a => mem_living_run ran few⟩
  · intro past future v a h split reached there made
    obtain ⟨sound', -, passes⟩ := reaches split reached
    exact resolve?_run sound' passes there made (rare u ran)
  · obtain ⟨u', ran', same, -⟩ := agrees_with_search few spared
    obtain rfl := Option.some.inj (ran.symm.trans ran')
    exact same

/-- An object is gone and another one has come to its address before it has been swept out; a third
one leaves its number and comes back. -/
def restlessUse : List (Event (Nat × String)) :=
  [.create (7, "first"), .create (8, "other"), .add (7, "first"), .add (8, "other"),
    .drop (7, "first"), .create (7, "second"), .add (7, "second"), .remove (8, "other"),
    .add (8, "other")]

theorem number_lasts_restlessUse :
    ∃ u : NumberedHeap (Prod.fst : Nat × String → Nat),
      (initial Prod.fst).run? restlessUse = some u ∧
      u.numbering.verified? Prod.fst u.heap.holds (7, "second") = some 1 ∧
      u.numbering.resolve? u.heap.holds ⟨1, 0⟩ = none ∧
      u.numbering.resolve? u.heap.holds ⟨2, 0⟩ = none := by
  have sizes : ∀ past ∈ restlessUse.inits, ∀ v ∈ (initial Prod.fst).run? past,
      v.numbering.places.size < 2 ^ 32 := by decide +kernel
  have rare : ∀ u ∈ (initial Prod.fst).run? restlessUse, ∀ p ∈ u.numbering.places,
      p.vacated < 2 ^ 32 := by decide +kernel
  obtain ⟨u, ran, -, numbers, -, -, handles, -⟩ := number_lasts Prod.fst restlessUse
    (fun past starts v reached => sizes past ((List.mem_inits past _).mpr starts) v reached) rare
  have last : ∀ u ∈ (initial Prod.fst).run? restlessUse,
      u.heap.holds (7, "first") = false ∧ u.heap.holds (7, "second") = true := by decide +kernel
  have early : ∀ v ∈ (initial Prod.fst).run? (restlessUse.take 4),
      v.heap.holds (7, "first") = true ∧ v.heap.holds (8, "other") = true ∧
      v.numbering.handleOf? Prod.fst v.heap.holds (7, "first") = some ⟨1, 0⟩ ∧
      v.numbering.handleOf? Prod.fst v.heap.holds (8, "other") = some ⟨2, 0⟩ := by decide +kernel
  have late : ∀ v ∈ (initial Prod.fst).run? (restlessUse.take 6),
      v.heap.holds (7, "second") = true ∧
      (v.numbering.add? Prod.fst v.heap.holds (7, "second")).map Prod.fst = some 1 := by
    decide +kernel
  obtain ⟨v, reached⟩ := Option.isSome_iff_exists.mp
    (by decide +kernel : ((initial Prod.fst).run? (restlessUse.take 4)).isSome = true)
  obtain ⟨w, reached'⟩ := Option.isSome_iff_exists.mp
    (by decide +kernel : ((initial Prod.fst).run? (restlessUse.take 6)).isSome = true)
  obtain ⟨first, other, made, made'⟩ := early v reached
  obtain ⟨id, given, -, found, -⟩ := numbers (restlessUse.take 6) (7, "second") (restlessUse.drop 7)
    w rfl reached' (late w reached').1 (by decide) (last u ran).2
  have gone := handles _ (restlessUse.drop 4) v (7, "first") _ rfl reached first made
  have removed := handles _ (restlessUse.drop 4) v (8, "other") _ rfl reached other made'
  rw [if_neg fun lasts => Bool.eq_false_iff.mp (last u ran).1 lasts.1] at gone
  rw [if_neg fun lasts => lasts.2 (by decide)] at removed
  rw [(late w reached').2, Option.some.injEq] at given
  exact ⟨u, ran, given ▸ found, gone, removed⟩

end NumberedHeap

end ClassUniverse
