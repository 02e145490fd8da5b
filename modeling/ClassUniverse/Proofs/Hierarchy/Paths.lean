import ClassUniverse.Catalog
import Mathlib.Combinatorics.Pigeonhole
import Mathlib.Data.List.Chain
import Mathlib.Data.List.Nodup
import Mathlib.Logic.Relation

/-!
# Paths without repetition

A path that never comes back to where it was is no longer than the list of all places that it can
pass.  So a walk that follows links that lead nowhere back sees all of them within so many steps.
-/

namespace ClassUniverse

open Relation (ReflTransGen TransGen)

variable {α : Type} {r : α → α → Prop} {a b c : α} {n : Nat}

/-- Every path that goes on from a place passes fewer than a number of further places. -/
def IsShort (r : α → α → Prop) (n : Nat) (a : α) : Prop :=
  ∀ l, List.IsChain r (a :: l) → l.length < n

theorem IsShort.pos (h : IsShort r n a) : 0 < n := h [] (List.isChain_singleton a)

theorem IsShort.next (h : IsShort r (n + 1) a) (step : r a b) : IsShort r n b := by
  intro l chain
  have longer : List.IsChain r (a :: b :: l) := List.isChain_cons_cons.mpr ⟨step, chain⟩
  have hl := h (b :: l) longer
  rw [List.length_cons] at hl
  omega

theorem IsShort.of_le {m : Nat} (h : IsShort r n a) (hl : n ≤ m) : IsShort r m a :=
  fun l chain => Nat.lt_of_lt_of_le (h l chain) hl

/-- A path that leads nowhere back and stays within a list is no longer than the list. -/
theorem isShort_of_acyclic (pool : List α) (within : ∀ b, ReflTransGen r a b → b ∈ pool)
    (acyclic : ∀ b, ReflTransGen r a b → ¬ TransGen r b b) : IsShort r pool.length a := by
  intro l chain
  have linked : List.Pairwise (TransGen r) (a :: l) :=
    List.isChain_iff_pairwise.mp (chain.imp fun _ _ step => TransGen.single step)
  have reached : ∀ b ∈ a :: l, ReflTransGen r a b := by
    intro b hb
    rcases List.mem_cons.mp hb with rfl | hb
    · exact .refl
    · exact ((List.pairwise_cons.mp linked).1 b hb).to_reflTransGen
  have nodup : (a :: l).Nodup := by
    refine linked.imp_of_mem fun {b c} hb _ path same => ?_
    subst same
    exact acyclic b (reached b hb) path
  have hl := nodup.length_le_of_subset fun b hb => within b (reached b hb)
  rw [List.length_cons] at hl
  omega

/-- Steps along which a measure falls lead nowhere back. -/
theorem acyclic_of_falls {P : α → Prop} (measure : α → Nat)
    (falls : ∀ {a b}, P a → r a b → P b ∧ measure b < measure a) (h : P a) : ¬ TransGen r a a := by
  have lower : ∀ b, TransGen r a b → P b ∧ measure b < measure a := by
    intro b path
    induction path with
    | single step => exact falls h step
    | tail _ step ih =>
        obtain ⟨hc, less⟩ := falls ih.1 step
        exact ⟨hc, less.trans ih.2⟩
  exact fun cycle => Nat.lt_irrefl _ (lower a cycle).2

/-! ## Superclasses -/

namespace Catalog

/-- A class that names another one as its superclass. -/
def Extends (c : Catalog) (id parent : ClassId) : Prop := c.superclass? id = some parent

/-- A class that names another one as an interface. -/
def Implements (c : Catalog) (id interface : ClassId) : Prop := interface ∈ c.interfaces id

/-- A class that names another one as its superclass or as an interface. -/
def LinksTo (c : Catalog) (id above : ClassId) : Prop :=
  c.Extends id above ∨ c.Implements id above

variable {c : Catalog} {id other parent : ClassId} {steps : Nat}

theorem climb_eq_cons (c : Catalog) (id : ClassId) (pos : 0 < steps) :
    ancestry.climb c steps id = id :: (ancestry.climb c steps id).tail := by
  cases steps with
  | zero => exact absurd pos (Nat.lt_irrefl 0)
  | succ steps => rfl

/-- A climb passes all superclasses after the class that it starts from. -/
theorem mem_climb_tail (short : IsShort c.Extends steps id) :
    other ∈ (ancestry.climb c steps id).tail ↔ TransGen c.Extends id other := by
  induction steps generalizing id with
  | zero => exact absurd short.pos (Nat.lt_irrefl 0)
  | succ steps ih =>
      rw [TransGen.head'_iff]
      simp only [ancestry.climb, List.tail_cons]
      cases link : c.superclass? id with
      | none => simp [Extends, link]
      | some parent =>
          have step : c.Extends id parent := link
          have rest := short.next step
          dsimp only
          rw [climb_eq_cons c parent rest.pos, List.mem_cons, ih rest,
            ← Relation.reflTransGen_iff_eq_or_transGen]
          constructor
          · intro path
            exact ⟨parent, step, path⟩
          · rintro ⟨next, hn, path⟩
            have same : next = parent := Option.some.inj (hn.symm.trans step)
            rwa [same] at path

theorem mem_climb (short : IsShort c.Extends steps id) :
    other ∈ ancestry.climb c steps id ↔ ReflTransGen c.Extends id other := by
  rw [climb_eq_cons c id short.pos, List.mem_cons, mem_climb_tail short,
    ← Relation.reflTransGen_iff_eq_or_transGen]

/-- The class that is a number of superclass links above another one. -/
def superclassAt (c : Catalog) : Nat → ClassId → Option ClassId
  | 0, id => some id
  | k + 1, id => (c.superclass? id).bind (c.superclassAt k)

theorem superclassAt_add (c : Catalog) (i j : Nat) (id : ClassId) :
    c.superclassAt (i + j) id = (c.superclassAt i id).bind (c.superclassAt j) := by
  induction i generalizing id with
  | zero => simp [superclassAt]
  | succ i ih =>
      rw [Nat.succ_add]
      cases link : c.superclass? id with
      | none => simp [superclassAt, link]
      | some parent => simp [superclassAt, link, ih]

theorem mem_climb_iff : other ∈ ancestry.climb c steps id ↔
    ∃ k < steps, c.superclassAt k id = some other := by
  induction steps generalizing id with
  | zero => simp [ancestry.climb]
  | succ steps ih =>
      rw [ancestry.climb, List.mem_cons]
      constructor
      · intro h
        cases h with
        | inl same => exact ⟨0, Nat.succ_pos steps, by rw [same]; rfl⟩
        | inr above =>
            cases link : c.superclass? id with
            | none => simp [link] at above
            | some parent =>
                rw [link] at above
                obtain ⟨k, hk, reached⟩ := ih.mp above
                exact ⟨k + 1, Nat.succ_lt_succ hk, by simpa [superclassAt, link] using reached⟩
      · intro h
        obtain ⟨k, hk, reached⟩ := h
        cases k with
        | zero => exact .inl (Option.some.inj reached).symm
        | succ k =>
            right
            cases link : c.superclass? id with
            | none => simp [superclassAt, link] at reached
            | some parent =>
                have reached : c.superclassAt k parent = some other := by
                  simpa [superclassAt, link] using reached
                exact ih.mpr ⟨k, Nat.lt_of_succ_lt_succ hk, reached⟩

theorem reaches_iff_superclassAt :
    ReflTransGen c.Extends id other ↔ ∃ k, c.superclassAt k id = some other := by
  constructor
  · intro path
    induction path with
    | refl => exact ⟨0, rfl⟩
    | tail _ last ih =>
        obtain ⟨k, reached⟩ := ih
        refine ⟨k + 1, ?_⟩
        have last : c.superclass? _ = some _ := last
        rw [superclassAt_add, reached]
        simpa [superclassAt] using last
  · intro h
    obtain ⟨k, reached⟩ := h
    induction k generalizing id with
    | zero =>
        rw [Option.some.inj reached]
    | succ k ih =>
        obtain ⟨parent, link, rest⟩ := Option.bind_eq_some_iff.mp reached
        exact .head link (ih rest)

/-- A superclass is found within as many links as there are classes that can be reached: a longer
way passes one of them twice and can be cut short. -/
theorem exists_superclassAt_lt {pool : List ClassId} {k : Nat}
    (within : ∀ b, ReflTransGen c.Extends id b → b ∈ pool)
    (reached : c.superclassAt k id = some other) :
    ∃ k < pool.length, c.superclassAt k id = some other := by
  induction k using Nat.strong_induction_on with
  | h k ih =>
      by_cases short : k < pool.length
      · exact ⟨k, short, reached⟩
      have few : (pool.toFinset.image some).card < (Finset.range (k + 1)).card := by
        have images := Finset.card_image_le (s := pool.toFinset) (f := some)
        have entries := pool.toFinset_card_le
        rw [Finset.card_range]
        omega
      have passes : ∀ i ∈ Finset.range (k + 1),
          c.superclassAt i id ∈ pool.toFinset.image some := by
        intro i hi
        have split : c.superclassAt (i + (k - i)) id = some other := by
          rw [Nat.add_sub_cancel' (by simpa [Nat.lt_succ_iff] using hi)]
          exact reached
        rw [superclassAt_add] at split
        obtain ⟨b, hb, -⟩ := Option.bind_eq_some_iff.mp split
        rw [hb]
        simpa using within b (reaches_iff_superclassAt.mpr ⟨i, hb⟩)
      obtain ⟨i, hi, j, hj, ne, same⟩ := Finset.exists_ne_map_eq_of_card_lt_of_maps_to few passes
      -- the links between the two places are left out
      have cut : ∀ i j, i < j → j ≤ k → c.superclassAt i id = c.superclassAt j id →
          ∃ k < pool.length, c.superclassAt k id = some other := by
        intro i j less le same
        apply ih (i + (k - j)) (by omega)
        rw [superclassAt_add, same, ← superclassAt_add, Nat.add_sub_cancel' le]
        exact reached
      rw [Finset.mem_range] at hi hj
      cases Nat.lt_or_gt_of_ne ne with
      | inl less => exact cut i j less (by omega) same
      | inr more => exact cut j i more (by omega) same.symm

/-- A climb with steps enough for all classes that can be reached passes all superclasses. -/
theorem mem_climb_of_pool {pool : List ClassId}
    (within : ∀ b, ReflTransGen c.Extends id b → b ∈ pool) (fits : pool.length ≤ steps) :
    other ∈ ancestry.climb c steps id ↔ ReflTransGen c.Extends id other := by
  rw [mem_climb_iff, reaches_iff_superclassAt]
  constructor
  · intro h
    obtain ⟨k, -, reached⟩ := h
    exact ⟨k, reached⟩
  · intro h
    obtain ⟨k, reached⟩ := h
    obtain ⟨k, short, reached⟩ := exists_superclassAt_lt within reached
    exact ⟨k, by omega, reached⟩

end Catalog

end ClassUniverse
