import ClassUniverse.Hierarchy.Intervals
import ClassUniverse.Proofs.Hierarchy.Paths

/-!
# Walks over a forest

A walk over a forest gives an interval of steps to each name that is below a root.  One name is at
or below another exactly if its interval begins inside the other one.
-/

namespace ClassUniverse

open Relation (ReflTransGen TransGen)

variable {children : String → List String} {name other child : String}

/-- A name directly above another one. -/
def Above (children : String → List String) (name child : String) : Prop := child ∈ children name

/-- Two names with no name below both. -/
def Apart (children : String → List String) (name other : String) : Prop :=
  ∀ below, ReflTransGen (Above children) name below → ¬ ReflTransGen (Above children) other below

/-- Every name is directly below one name at most and never below itself, and it is listed there
once. -/
structure IsForest (children : String → List String) : Prop where
  nodup : ∀ name, (children name).Nodup
  single : ∀ {name other child}, Above children name child → Above children other child →
    name = other
  acyclic : ∀ name, ¬ TransGen (Above children) name name

namespace IsForest

/-- Of two names above a third one, one is above the other. -/
theorem comparable (forest : IsForest children) (h : ReflTransGen (Above children) name child)
    (k : ReflTransGen (Above children) other child) :
    ReflTransGen (Above children) name other ∨ ReflTransGen (Above children) other name := by
  have unique : Relator.RightUnique (Function.swap (Above children)) := fun _ _ _ h k =>
    forest.single h k
  rcases ReflTransGen.total_of_right_unique unique (Relation.reflTransGen_swap.mpr h)
    (Relation.reflTransGen_swap.mpr k) with path | path
  · exact .inr (Relation.reflTransGen_swap.mp path)
  · exact .inl (Relation.reflTransGen_swap.mp path)

theorem apart_of_not_above (forest : IsForest children) (ne : name ≠ other)
    (h : ¬ TransGen (Above children) name other) (k : ¬ TransGen (Above children) other name) :
    Apart children name other := by
  intro below hn ho
  rcases forest.comparable hn ho with path | path
  · exact h ((Relation.reflTransGen_iff_eq_or_transGen.mp path).resolve_left ne.symm)
  · exact k ((Relation.reflTransGen_iff_eq_or_transGen.mp path).resolve_left ne)

theorem not_above_sibling (forest : IsForest children) {parent : String}
    (h : Above children parent name) (k : Above children parent other) :
    ¬ TransGen (Above children) name other := by
  intro path
  obtain ⟨last, before, step⟩ := TransGen.tail'_iff.mp path
  rw [forest.single step k] at before
  exact forest.acyclic parent (TransGen.head' h before)

theorem apart_children (forest : IsForest children) (name : String) :
    (children name).Pairwise (Apart children) := by
  refine (forest.nodup name).imp_of_mem fun {a b} ha hb ne => ?_
  exact forest.apart_of_not_above ne (forest.not_above_sibling ha hb)
    (forest.not_above_sibling hb ha)

/-- Different names with nothing above them are apart. -/
theorem apart_roots (forest : IsForest children) {roots : List String} (nodup : roots.Nodup)
    (top : ∀ root ∈ roots, ∀ name, ¬ Above children name root) :
    roots.Pairwise (Apart children) := by
  have free {a b : String} (hb : b ∈ roots) : ¬ TransGen (Above children) a b := by
    intro path
    obtain ⟨last, -, step⟩ := TransGen.tail'_iff.mp path
    exact top b hb last step
  exact nodup.imp_of_mem fun ha hb ne => forest.apart_of_not_above ne (free hb) (free ha)

end IsForest

namespace SubtypeIndex

variable {roots others : List String} {found more : List (String × Interval)}
  {start middle stop depth : Nat}

/-- The intervals that a walk from some roots gives between two steps. -/
structure Covers (children : String → List String) (roots : List String) (start : Nat)
    (found : List (String × Interval)) (stop : Nat) : Prop where
  mem : ∀ {name}, name ∈ found.map Prod.fst ↔
    ∃ root ∈ roots, ReflTransGen (Above children) root name
  nodup : (found.map Prod.fst).Nodup
  within : ∀ e ∈ found, start ≤ e.2.enter ∧ e.2.enter ≤ e.2.leave ∧ e.2.leave < stop
  nested : ∀ e ∈ found, ∀ f ∈ found,
    e.2.enter ≤ f.2.enter ∧ f.2.enter ≤ e.2.leave ↔ ReflTransGen (Above children) e.1 f.1
  steps : stop = start + 2 * found.length

theorem covers_nil (children : String → List String) (start : Nat) :
    Covers children [] start [] start where
  mem := by simp
  nodup := List.nodup_nil
  within e he := nomatch he
  nested e he := nomatch he
  steps := rfl

theorem Covers.reached (h : Covers children roots start found stop) {e : String × Interval}
    (he : e ∈ found) : ∃ root ∈ roots, ReflTransGen (Above children) root e.1 :=
  h.mem.mp (List.mem_map_of_mem he)

theorem Covers.append (h : Covers children roots start found middle)
    (k : Covers children others middle more stop)
    (apart : ∀ root ∈ roots, ∀ other ∈ others, Apart children root other) :
    Covers children (roots ++ others) start (found ++ more) stop where
  mem := by
    intro name
    simp only [List.map_append, List.mem_append, h.mem, k.mem]
    constructor
    · rintro (⟨root, hr, path⟩ | ⟨root, hr, path⟩)
      · exact ⟨root, .inl hr, path⟩
      · exact ⟨root, .inr hr, path⟩
    · rintro ⟨root, hr | hr, path⟩
      · exact .inl ⟨root, hr, path⟩
      · exact .inr ⟨root, hr, path⟩
  nodup := by
    rw [List.map_append, List.nodup_append]
    refine ⟨h.nodup, k.nodup, ?_⟩
    intro name hn other ho same
    obtain ⟨root, hr, path⟩ := h.mem.mp hn
    obtain ⟨root', hr', path'⟩ := k.mem.mp ho
    rw [← same] at path'
    exact apart root hr root' hr' name path path'
  within := by
    have hs := h.steps
    have ks := k.steps
    intro e he
    rcases List.mem_append.mp he with he | he
    · have hw := h.within e he
      omega
    · have hw := k.within e he
      omega
  nested := by
    intro e he f hf
    rcases List.mem_append.mp he with he | he <;> rcases List.mem_append.mp hf with hf | hf
    · exact h.nested e he f hf
    · have hw := h.within e he
      have kw := k.within f hf
      refine iff_of_false (by omega) fun path => ?_
      obtain ⟨root, hr, reached⟩ := h.reached he
      obtain ⟨root', hr', reached'⟩ := k.reached hf
      exact apart root hr root' hr' f.1 (reached.trans path) reached'
    · have kw := k.within e he
      have hw := h.within f hf
      refine iff_of_false (by omega) fun path => ?_
      obtain ⟨root', hr', reached'⟩ := k.reached he
      obtain ⟨root, hr, reached⟩ := h.reached hf
      exact apart root hr root' hr' f.1 reached (reached'.trans path)
    · exact k.nested e he f hf
  steps := by
    have hs := h.steps
    have ks := k.steps
    rw [List.length_append]
    omega

/-- A name with all that is below it. -/
theorem Covers.node (forest : IsForest children)
    (h : Covers children (children name) (start + 1) found stop) :
    Covers children [name] start ((name, ⟨start, stop⟩) :: found) (stop + 1) where
  mem := by
    intro below
    rw [List.map_cons, List.mem_cons, h.mem]
    have root : (∃ root ∈ [name], ReflTransGen (Above children) root below) ↔
        ReflTransGen (Above children) name below := by simp
    rw [root, Relation.reflTransGen_iff_eq_or_transGen, TransGen.head'_iff]
    rfl
  nodup := by
    rw [List.map_cons, List.nodup_cons]
    refine ⟨fun hm => ?_, h.nodup⟩
    obtain ⟨child, hc, path⟩ := h.mem.mp hm
    exact forest.acyclic name (TransGen.head' hc path)
  within := by
    have hs := h.steps
    intro e he
    rcases List.mem_cons.mp he with rfl | he
    · dsimp only
      omega
    · have hw := h.within e he
      omega
  nested := by
    have hs := h.steps
    intro e he f hf
    rcases List.mem_cons.mp he with rfl | he <;> rcases List.mem_cons.mp hf with rfl | hf
    · refine iff_of_true ?_ .refl
      dsimp only
      omega
    · have hw := h.within f hf
      obtain ⟨child, hc, path⟩ := h.reached hf
      refine iff_of_true ?_ (.head hc path)
      dsimp only
      omega
    · have hw := h.within e he
      refine iff_of_false ?_ fun path => ?_
      · dsimp only
        omega
      · obtain ⟨child, hc, before⟩ := h.reached he
        exact forest.acyclic name (TransGen.head' hc (before.trans path))
    · exact h.nested e he f hf
  steps := by
    have hs := h.steps
    rw [List.length_cons]
    omega

/-- Walks from some roots one after the other. -/
theorem Covers.foldl (visit : String → Nat → List (String × Interval) × Nat) (names : List String)
    (each : ∀ name ∈ names, ∀ step,
      Covers children [name] step (visit name step).1 (visit name step).2)
    (apart : (roots ++ names).Pairwise (Apart children))
    (h : Covers children roots start found middle) :
    let all := names.foldl (fun (found, step) name =>
      let (more, step) := visit name step
      (found ++ more, step)) (found, middle)
    Covers children (roots ++ names) start all.1 all.2 := by
  induction names generalizing roots found middle with
  | nil => simpa using h
  | cons name names ih =>
      have first := each name List.mem_cons_self middle
      have separate : ∀ root ∈ roots, ∀ other ∈ [name], Apart children root other := by
        intro root hr other ho
        rw [List.mem_singleton] at ho
        subst ho
        exact (List.pairwise_append.mp apart).2.2 root hr other List.mem_cons_self
      have order : roots ++ name :: names = roots ++ [name] ++ names := by simp
      rw [order] at apart ⊢
      exact ih (fun other ho => each other (List.mem_cons_of_mem name ho)) apart
        (h.append first separate)

theorem covers_walk (forest : IsForest children) (short : IsShort (Above children) depth name)
    (step : Nat) :
    Covers children [name] step (walk children depth name step).1
      (walk children depth name step).2 := by
  induction depth generalizing name step with
  | zero => exact absurd short.pos (Nat.lt_irrefl 0)
  | succ depth ih =>
      have below := (covers_nil children (step + 1)).foldl (walk children depth)
        (children name) (fun child hc step => ih (short.next hc) step)
        (forest.apart_children name)
      exact Covers.node forest below

/-- What intervals answer about two names that have one. -/
theorem Covers.isSubclassOrSame_iff {x : SubtypeIndex}
    (h : Covers children roots start x.intervals stop)
    (hn : ∃ root ∈ roots, ReflTransGen (Above children) root name)
    (ho : ∃ root ∈ roots, ReflTransGen (Above children) root other) :
    x.isSubclassOrSame name other = true ↔ ReflTransGen (Above children) other name := by
  obtain ⟨⟨_, i⟩, hi, rfl⟩ := List.mem_map.mp (h.mem.mpr hn)
  obtain ⟨⟨_, j⟩, hj, rfl⟩ := List.mem_map.mp (h.mem.mpr ho)
  unfold isSubclassOrSame
  rw [(lookup_eq_some_iff_mem h.nodup).mpr hi, (lookup_eq_some_iff_mem h.nodup).mpr hj]
  simp only [Bool.and_eq_true, decide_eq_true_eq]
  exact h.nested _ hj _ hi

/-- A name that no root leads to has no interval, and nothing is known of it. -/
theorem Covers.isSubclassOrSame_eq_false {x : SubtypeIndex}
    (h : Covers children roots start x.intervals stop)
    (hn : ¬ ((∃ root ∈ roots, ReflTransGen (Above children) root name) ∧
      ∃ root ∈ roots, ReflTransGen (Above children) root other)) :
    x.isSubclassOrSame name other = false := by
  unfold isSubclassOrSame
  split
  · rename_i i j hi hj
    have hi := (lookup_eq_some_iff_mem h.nodup).mp hi
    have hj := (lookup_eq_some_iff_mem h.nodup).mp hj
    exact absurd ⟨h.reached hi, h.reached hj⟩ hn
  · rfl

end SubtypeIndex

end ClassUniverse
