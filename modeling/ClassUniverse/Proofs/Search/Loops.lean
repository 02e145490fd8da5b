import ClassUniverse.Proofs.Search

/-!
# Searches as loops

A search takes one thing after the other from its queue until nothing waits.  There are two such
loops.  One lets only unseen things into the queue; the other lets everything in, and skips what it
has seen when its turn comes.  Both are described here without a bound on their steps.  Both end
where a search with enough steps does, with the same things in the same order, whatever leads back
to what.
-/

namespace ClassUniverse

namespace Search

variable {α : Type} {key : α → String} {next : α → List α} {seen queue all start done : List α}
  {pool : List String} {steps bound : Nat} {a : α}

/-- A loop that queues the unseen things that each thing leads to, up to its end. -/
inductive Explores (key : α → String) (next : α → List α) : (seen queue all : List α) → Prop
  | done {seen : List α} : Explores key next seen [] seen
  | turn {seen queue all : List α} {a : α}
      (rest : Explores key next (seen ++ unseen key seen (next a))
        (queue ++ unseen key seen (next a)) all) : Explores key next seen (a :: queue) all

/-- A loop that queues all things that each thing leads to, up to its end. -/
inductive Visits (key : α → String) (next : α → List α) : (seen queue all : List α) → Prop
  | done {seen : List α} : Visits key next seen [] seen
  | skip {seen queue all : List α} {a : α} (known : isSeen key seen a = true)
      (rest : Visits key next seen queue all) : Visits key next seen (a :: queue) all
  | enter {seen queue all : List α} {a : α} (new : isSeen key seen a = false)
      (rest : Visits key next (seen ++ [a]) (queue ++ next a) all) :
      Visits key next seen (a :: queue) all

/-- A search with steps enough goes through the whole loop. -/
theorem IsExploring.explores (h : IsExploring key next start done queue)
    (within : Within key next start pool)
    (enough : start.length + pool.length ≤ done.length + steps) :
    Explores key next (done ++ queue) queue
      (Search.explore key next steps (done ++ queue) queue) := by
  induction steps generalizing done queue with
  | zero =>
      have hl := h.length_le within
      rw [List.length_append] at hl
      have none : queue = [] := List.eq_nil_of_length_eq_zero (by omega)
      subst none
      exact .done
  | succ steps ih =>
      cases queue with
      | nil => exact .done
      | cons a queue =>
          have longer : start.length + pool.length ≤ (done ++ [a]).length + steps := by
            rw [List.length_append, List.length_singleton]
            omega
          have rest := ih h.step longer
          have order : done ++ [a] ++ (queue ++ unseen key (done ++ a :: queue) (next a)) =
              (done ++ a :: queue) ++ unseen key (done ++ a :: queue) (next a) := by simp
          rw [order] at rest
          exact .turn rest

theorem explores_reach (within : Within key next start pool) (fits : pool.length ≤ bound) :
    Explores key next (unseen key [] start) (unseen key [] start)
      (reach key next bound start) := by
  have enough : start.length + pool.length ≤ ([] : List α).length + (start.length + bound) := by
    rw [List.length_nil]
    omega
  exact (isExploring_start key next start).explores within enough

theorem unseen_append (seen l more : List α) :
    unseen key seen (l ++ more) =
      unseen key seen l ++ unseen key (seen ++ unseen key seen l) more := by
  induction l generalizing seen with
  | nil => simp [unseen]
  | cons a l ih =>
      rw [List.cons_append, unseen, unseen]
      split
      · exact ih seen
      · rw [ih (seen ++ [a]), List.cons_append, List.append_assoc, List.singleton_append]

/-- What waits in the one loop is what has not been seen of what waits in the other. -/
theorem Explores.visits
    (h : Explores key next (seen ++ unseen key seen queue) (unseen key seen queue) all) :
    Visits key next seen queue all := by
  generalize hs : seen ++ unseen key seen queue = found at h
  generalize hq : unseen key seen queue = fresh at h
  induction h generalizing seen queue with
  | done =>
      -- nothing new waits, so that all turns left are skipped
      rename_i found
      rw [hq, List.append_nil] at hs
      subst hs
      induction queue with
      | nil => exact .done
      | cons a queue ih =>
          rw [unseen] at hq
          split at hq
          · exact .skip ‹_› (ih hq)
          · cases hq
  | turn rest step =>
      rename_i found fresh all b
      induction queue with
      | nil => cases hq
      | cons a queue ih =>
          rw [unseen] at hq
          split at hq
          · rename_i known
            rw [unseen, if_pos known] at hs
            exact .skip known (ih hs hq)
          · rename_i new
            obtain ⟨rfl, later⟩ := List.cons.inj hq
            have order : found = seen ++ [a] ++ fresh := by
              rw [← hs, unseen, if_neg new, later]
              simp
            refine .enter (Bool.eq_false_iff.mpr new) (step ?_ ?_)
            · rw [unseen_append, later, order, List.append_assoc (seen ++ [a])]
            · rw [unseen_append, later, order]

end Search

end ClassUniverse
