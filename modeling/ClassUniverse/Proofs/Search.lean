import ClassUniverse.Search
import Mathlib.Data.List.Nodup
import Mathlib.Logic.Relation

/-!
# What a search finds

A search with steps enough finds each key once, finds nothing but what can be reached from where it
started, and finds a thing of each key that can be reached.  Things of the same key may stand for
each other as long as they lead to the same keys.
-/

namespace ClassUniverse

namespace Search

open Relation (ReflTransGen)

variable {α : Type} {key : α → String} {next : α → List α} {start seen done queue : List α}
  {a b : α}

/-- What can be reached from some starting things. -/
def Reaches (next : α → List α) (start : List α) (b : α) : Prop :=
  ∃ a ∈ start, ReflTransGen (fun a b => b ∈ next a) a b

theorem Reaches.of_mem (h : a ∈ start) : Reaches next start a := ⟨a, h, .refl⟩

theorem Reaches.snoc (h : Reaches next start a) (hb : b ∈ next a) : Reaches next start b := by
  obtain ⟨first, hf, path⟩ := h
  exact ⟨first, hf, path.tail hb⟩

theorem Reaches.mono {other : α → List α} (h : Reaches next start b)
    (more : ∀ a, next a ⊆ other a) : Reaches other start b := by
  obtain ⟨first, hf, path⟩ := h
  exact ⟨first, hf, ReflTransGen.mono (fun a _ step => more a step) _ _ path⟩

/-! ## Unseen things -/

theorem isSeen_iff : isSeen key seen a = true ↔ key a ∈ seen.map key := by
  simp [isSeen]

theorem unseen_subset (seen l : List α) : unseen key seen l ⊆ l := by
  induction l generalizing seen with
  | nil => simp [unseen]
  | cons a rest ih =>
      unfold unseen
      split
      · exact List.subset_cons_of_subset a (ih seen)
      · exact List.cons_subset_cons a (ih (seen ++ [a]))

theorem nodup_unseen (h : (seen.map key).Nodup) (l : List α) :
    ((seen ++ unseen key seen l).map key).Nodup := by
  induction l generalizing seen with
  | nil => simpa [unseen] using h
  | cons a rest ih =>
      unfold unseen
      split
      · exact ih h
      · rename_i new
        rw [isSeen_iff] at new
        have longer : ((seen ++ [a]).map key).Nodup := by
          rw [List.map_append, List.nodup_append]
          refine ⟨h, by simp, ?_⟩
          intro k hk other ho same
          have ho : other = key a := by simpa using ho
          rw [same, ho] at hk
          exact new hk
        have hn := ih longer
        rwa [List.append_assoc] at hn

/-- After the unseen things of a list every key of the list has been seen. -/
theorem key_mem_unseen (seen : List α) {l : List α} (h : a ∈ l) :
    key a ∈ (seen ++ unseen key seen l).map key := by
  induction l generalizing seen with
  | nil => cases h
  | cons first rest ih =>
      unfold unseen
      split
      · rename_i old
        rw [isSeen_iff] at old
        rcases List.mem_cons.mp h with rfl | h
        · rw [List.map_append]
          exact List.mem_append_left _ old
        · exact ih seen h
      · rcases List.mem_cons.mp h with rfl | h
        · simp
        · have hm := ih (seen ++ [first]) h
          rwa [List.append_assoc] at hm

/-- An unseen thing has a key that has not been seen. -/
theorem key_notMem_of_mem_unseen {l : List α} (h : a ∈ unseen key seen l) :
    key a ∉ seen.map key := by
  induction l generalizing seen with
  | nil => cases h
  | cons first rest ih =>
      unfold unseen at h
      split at h
      · exact ih h
      · rename_i new
        rcases List.mem_cons.mp h with rfl | h
        · exact fun known => new (isSeen_iff.mpr known)
        · intro known
          apply ih h
          rw [List.map_append]
          exact List.mem_append_left _ known

/-! ## The search -/

/-- A search only adds to what has been seen. -/
theorem prefix_explore (key : α → String) (next : α → List α) (steps : Nat) (seen queue : List α) :
    seen <+: explore key next steps seen queue := by
  induction steps generalizing seen queue with
  | zero => exact List.prefix_refl seen
  | succ steps ih =>
      cases queue with
      | nil => exact List.prefix_refl seen
      | cons a queue => exact (List.prefix_append seen _).trans (ih _ _)

/-- Where things lead to that were seen before a search and do not wait in it makes no difference to
the search. -/
theorem explore_congr {other : α → List α} {base : List α}
    (same : ∀ a, a ∉ base → other a = next a) (within : base ⊆ seen)
    (apart : ∀ a ∈ queue, a ∉ base) (steps : Nat) :
    explore key other steps seen queue = explore key next steps seen queue := by
  induction steps generalizing seen queue with
  | zero => rfl
  | succ steps ih =>
      cases queue with
      | nil => rfl
      | cons a queue =>
          unfold explore
          rw [same a (apart a List.mem_cons_self)]
          refine ih (List.subset_append_of_subset_left _ within) fun b hb => ?_
          rcases List.mem_append.mp hb with hb | hb
          · exact apart b (List.mem_cons_of_mem a hb)
          · exact fun old => key_notMem_of_mem_unseen hb (List.mem_map_of_mem (within old))

/-- What holds between two steps of a search: some things have been looked at, and others wait. -/
structure IsExploring (key : α → String) (next : α → List α) (start done queue : List α) :
    Prop where
  nodup : ((done ++ queue).map key).Nodup
  begun : ∀ a ∈ start, key a ∈ (done ++ queue).map key
  found : ∀ a ∈ done ++ queue, Reaches next start a
  closed : ∀ a ∈ done, ∀ b ∈ next a, key b ∈ (done ++ queue).map key

theorem isExploring_start (key : α → String) (next : α → List α) (start : List α) :
    IsExploring key next start [] (unseen key [] start) where
  nodup := nodup_unseen (by simp) start
  begun _ ha := key_mem_unseen [] ha
  found _ ha := .of_mem (unseen_subset [] start ha)
  closed _ ha := nomatch ha

theorem IsExploring.step (h : IsExploring key next start done (a :: queue)) :
    IsExploring key next start (done ++ [a])
      (queue ++ unseen key (done ++ a :: queue) (next a)) := by
  have order : done ++ [a] ++ (queue ++ unseen key (done ++ a :: queue) (next a)) =
      (done ++ a :: queue) ++ unseen key (done ++ a :: queue) (next a) := by simp
  have looked : Reaches next start a := h.found a (by simp)
  constructor
  all_goals rw [order]
  · exact nodup_unseen h.nodup (next a)
  · intro b hb
    rw [List.map_append]
    exact List.mem_append_left _ (h.begun b hb)
  · intro b hb
    rcases List.mem_append.mp hb with hb | hb
    · exact h.found b hb
    · exact looked.snoc (unseen_subset _ _ hb)
  · intro c hc b hb
    rcases List.mem_append.mp hc with hc | hc
    · rw [List.map_append]
      exact List.mem_append_left _ (h.closed c hc b hb)
    · rw [List.mem_singleton] at hc
      subst hc
      exact key_mem_unseen _ hb

/-- The keys that a search can add all come from one list. -/
def Within (key : α → String) (next : α → List α) (start : List α) (pool : List String) : Prop :=
  ∀ a, Reaches next start a → ∀ b ∈ next a, key b ∈ pool

variable {pool : List String} {bound steps : Nat}

theorem IsExploring.length_le (h : IsExploring key next start done queue)
    (within : Within key next start pool) :
    (done ++ queue).length ≤ start.length + pool.length := by
  have known : (done ++ queue).map key ⊆ start.map key ++ pool := by
    intro k hk
    obtain ⟨b, hb, rfl⟩ := List.mem_map.mp hk
    obtain ⟨first, hf, path⟩ := h.found b hb
    rcases path.cases_tail with rfl | ⟨a, before, last⟩
    · exact List.mem_append_left _ (List.mem_map_of_mem hf)
    · exact List.mem_append_right _ (within a ⟨first, hf, before⟩ b last)
  have hl := h.nodup.length_le_of_subset known
  simpa using hl

/-- A search with steps enough ends with nothing left to look at. -/
theorem IsExploring.explore (h : IsExploring key next start done queue)
    (within : Within key next start pool)
    (enough : start.length + pool.length ≤ done.length + steps) :
    IsExploring key next start (explore key next steps (done ++ queue) queue) [] := by
  induction steps generalizing done queue with
  | zero =>
      have hl := h.length_le within
      rw [List.length_append] at hl
      have none : queue = [] := List.eq_nil_of_length_eq_zero (by omega)
      subst none
      simpa [Search.explore] using h
  | succ steps ih =>
      cases queue with
      | nil => simpa [Search.explore] using h
      | cons a queue =>
          have longer : start.length + pool.length ≤ (done ++ [a]).length + steps := by
            rw [List.length_append, List.length_singleton]
            omega
          have hs := ih h.step longer
          have order : done ++ [a] ++ (queue ++ unseen key (done ++ a :: queue) (next a)) =
              (done ++ a :: queue) ++ unseen key (done ++ a :: queue) (next a) := by simp
          rw [order] at hs
          exact hs

theorem isExploring_reach (within : Within key next start pool) (fits : pool.length ≤ bound) :
    IsExploring key next start (reach key next bound start) [] := by
  have hs := isExploring_start key next start
  have enough : start.length + pool.length ≤ ([] : List α).length + (start.length + bound) := by
    rw [List.length_nil]
    omega
  have he := hs.explore within enough
  simpa [reach] using he

/-- Whether things of the same key lead to the same keys. -/
def Agrees (key : α → String) (next : α → List α) (start : List α) : Prop :=
  ∀ a b, Reaches next start a → Reaches next start b → key a = key b →
    ∀ c ∈ next a, ∃ d ∈ next b, key d = key c

theorem IsExploring.key_mem_iff (h : IsExploring key next start done [])
    (agrees : Agrees key next start) {k : String} :
    k ∈ done.map key ↔ ∃ a, Reaches next start a ∧ key a = k := by
  have begun := h.begun
  have found := h.found
  have closed := h.closed
  rw [List.append_nil] at begun found closed
  constructor
  · intro hk
    obtain ⟨a, ha, rfl⟩ := List.mem_map.mp hk
    exact ⟨a, found a ha, rfl⟩
  · rintro ⟨a, ⟨first, hf, path⟩, rfl⟩
    induction path with
    | refl => exact begun first hf
    | @tail b c before last ih =>
        obtain ⟨b', hb', same⟩ := List.mem_map.mp ih
        obtain ⟨d, hd, hk⟩ := agrees b b' ⟨first, hf, before⟩ (found b' hb') same.symm c last
        rw [← hk]
        exact closed b' hb' d hd

/-- Where the things that can be reached have different keys, a search finds these things. -/
theorem IsExploring.mem_iff (h : IsExploring key next start done [])
    (apart : ∀ a b, Reaches next start a → Reaches next start b → key a = key b → a = b) :
    a ∈ done ↔ Reaches next start a := by
  have found := h.found
  rw [List.append_nil] at found
  have agrees : Agrees key next start := by
    intro a b ha hb same c hc
    rw [apart a b ha hb same] at hc
    exact ⟨c, hc, rfl⟩
  refine ⟨found a, fun ha => ?_⟩
  obtain ⟨b, hb, same⟩ := List.mem_map.mp ((h.key_mem_iff agrees).mpr ⟨a, ha, rfl⟩)
  rw [← apart b a (found b hb) ha same]
  exact hb

/-- A search over names finds the names that can be reached. -/
theorem mem_reach_names (pool : List String) {next : String → List String} {start : List String}
    {name : String} (within : ∀ above, ∀ below ∈ next above, below ∈ pool)
    (fits : pool.length ≤ bound) : name ∈ reach id next bound start ↔ Reaches next start name := by
  have within' : Within id next start pool := fun above _ below hb => within above below hb
  have searched := isExploring_reach within' fits
  exact searched.mem_iff fun _ _ _ _ same => same

end Search

end ClassUniverse
