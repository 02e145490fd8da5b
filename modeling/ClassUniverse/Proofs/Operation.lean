import Mathlib.Data.List.Forall2
import Mathlib.Logic.Relation

/-!
# What an operation keeps

An operation may fail, and it keeps what it had changed before it failed.  `Keeps R x s post` says
that the operation `x`, begun in the state `s`, ends in a state that `R` relates to `s`, whether it
fails or not, and that a result has the property `post` together with the last state.  `FailsBy x s
why` says that every error with which `x` fails has the property `why`.
-/

namespace ClassUniverse

variable {ε σ α β : Type}

/-- The state after an operation, failed or not. -/
def after (x : EStateM ε σ α) (s : σ) : σ :=
  match x s with
  | .ok _ t => t
  | .error _ t => t

/-- What an operation answers: a result or an error. -/
def answer (x : EStateM ε σ α) (s : σ) : Except ε α :=
  match x s with
  | .ok a _ => .ok a
  | .error e _ => .error e

/-- Whether an operation does not fail. -/
def succeeds (x : EStateM ε σ α) (s : σ) : Bool :=
  match x s with
  | .ok _ _ => true
  | .error _ _ => false

def Keeps (R : σ → σ → Prop) (x : EStateM ε σ α) (s : σ) (post : α → σ → Prop) : Prop :=
  match x s with
  | .ok a t => R s t ∧ post a t
  | .error _ t => R s t

/-! ## Single operations -/

section Apply

theorem bind_apply (x : EStateM ε σ α) (f : α → EStateM ε σ β) (s : σ) :
    (x >>= f) s = match x s with
      | .ok a t => f a t
      | .error e t => .error e t := by
  simp only [bind, EStateM.bind]
  cases x s <;> rfl

theorem pure_apply (a : α) (s : σ) : (pure a : EStateM ε σ α) s = .ok a s := rfl

theorem throw_apply (e : ε) (s : σ) : (throw e : EStateM ε σ α) s = .error e s := rfl

theorem get_apply (s : σ) : (get : EStateM ε σ σ) s = .ok s s := rfl

theorem modify_apply (f : σ → σ) (s : σ) : (modify f : EStateM ε σ Unit) s = .ok () (f s) := rfl

theorem after_of_ok {x : EStateM ε σ α} {s t : σ} {a : α} (h : x s = .ok a t) : after x s = t := by
  unfold after
  rw [h]

theorem answer_of_ok {x : EStateM ε σ α} {s t : σ} {a : α} (h : x s = .ok a t) :
    answer x s = .ok a := by
  unfold answer
  rw [h]

theorem eq_ok_of_answer {x : EStateM ε σ α} {s : σ} {a : α} (h : answer x s = .ok a) :
    x s = .ok a (after x s) := by
  unfold answer at h
  unfold after
  cases outcome : x s with
  | ok b t =>
      rw [outcome] at h
      exact congrArg (EStateM.Result.ok · t) (Except.ok.inj h)
  | error e t =>
      rw [outcome] at h
      cases h

theorem answer_of_error {x : EStateM ε σ α} {s t : σ} {e : ε} (h : x s = .error e t) :
    answer x s = .error e := by
  unfold answer
  rw [h]

theorem after_of_error {x : EStateM ε σ α} {s t : σ} {e : ε} (h : x s = .error e t) :
    after x s = t := by
  unfold after
  rw [h]

theorem answer_bind (x : EStateM ε σ α) (f : α → EStateM ε σ β) (s : σ) :
    answer (x >>= f) s = match answer x s with
      | .ok a => answer (f a) (after x s)
      | .error e => .error e := by
  unfold answer after
  rw [bind_apply]
  cases x s <;> rfl

theorem after_bind (x : EStateM ε σ α) (f : α → EStateM ε σ β) (s : σ) :
    after (x >>= f) s = match answer x s with
      | .ok a => after (f a) (after x s)
      | .error _ => after x s := by
  unfold answer after
  rw [bind_apply]
  cases x s <;> rfl

theorem exists_of_succeeds {x : EStateM ε σ α} {s : σ} (h : succeeds x s = true) :
    ∃ a t, x s = .ok a t := by
  unfold succeeds at h
  cases outcome : x s with
  | ok a t => exact ⟨a, t, rfl⟩
  | error e t =>
      rw [outcome] at h
      cases h

end Apply

namespace Keeps

variable {R : σ → σ → Prop} {x : EStateM ε σ α} {f : α → EStateM ε σ β} {s t : σ}
variable {P : α → σ → Prop} {Q : β → σ → Prop}

theorem of_ok {a : α} (h : x s = .ok a t) (hr : R s t) (hp : P a t) : Keeps R x s P := by
  simp only [Keeps, h]
  exact ⟨hr, hp⟩

theorem of_error {e : ε} (h : x s = .error e t) (hr : R s t) : Keeps R x s P := by
  simp only [Keeps, h]
  exact hr

theorem ok (hx : Keeps R x s P) {a : α} (h : x s = .ok a t) : R s t ∧ P a t := by
  simpa only [Keeps, h] using hx

theorem after_rel (hx : Keeps R x s P) : R s (after x s) := by
  unfold Keeps at hx
  unfold after
  cases h : x s with
  | ok a t => rw [h] at hx; exact hx.1
  | error e t => rw [h] at hx; exact hx

theorem mono {P' : α → σ → Prop} (hx : Keeps R x s P) (h : ∀ a t, R s t → P a t → P' a t) :
    Keeps R x s P' := by
  unfold Keeps at hx ⊢
  cases hc : x s with
  | ok a t => rw [hc] at hx; exact ⟨hx.1, h a t hx.1 hx.2⟩
  | error e t => rw [hc] at hx; exact hx

theorem weaken {R' : σ → σ → Prop} (hx : Keeps R x s P) (h : ∀ t, R s t → R' s t) :
    Keeps R' x s P := by
  unfold Keeps at hx ⊢
  cases hc : x s with
  | ok a t => rw [hc] at hx; exact ⟨h t hx.1, hx.2⟩
  | error e t => rw [hc] at hx; exact h t hx

theorem get_bind {f : σ → EStateM ε σ β} (hf : Keeps R (f s) s Q) : Keeps R (get >>= f) s Q := hf

variable [IsPreorder σ R]

theorem pure {a : α} (hp : P a s) : Keeps R (pure a : EStateM ε σ α) s P :=
  of_ok rfl (refl_of R s) hp

theorem throw (e : ε) : Keeps R (throw e : EStateM ε σ α) s P := of_error rfl (refl_of R s)

theorem bind (hx : Keeps R x s P) (hf : ∀ a t, R s t → P a t → Keeps R (f a) t Q) :
    Keeps R (x >>= f) s Q := by
  cases hc : x s with
  | error e t =>
      have hr : R s t := by simpa only [Keeps, hc] using hx
      have he : (x >>= f) s = .error e t := by simp only [bind_apply, hc]
      exact of_error he hr
  | ok a t =>
      obtain ⟨hr, hp⟩ := hx.ok hc
      have hq := hf a t hr hp
      have he : (x >>= f) s = f a t := by simp only [bind_apply, hc]
      unfold Keeps at hq ⊢
      rw [he]
      cases hd : f a t with
      | ok b v => rw [hd] at hq; exact ⟨trans_of R hr hq.1, hq.2⟩
      | error e v => rw [hd] at hq; exact trans_of R hr hq

theorem discard (hx : Keeps R x s P) :
    Keeps R (discard x) s fun _ t => ∃ a, P a t := by
  have he : Functor.discard x = x >>= fun _ => Pure.pure PUnit.unit := rfl
  rw [he]
  exact hx.bind fun a t _ hp => Keeps.pure ⟨a, hp⟩

/-- An operation that is left out where it is not called for. -/
theorem optional {c : Prop} [Decidable c] {y : EStateM ε σ PUnit} {f : PUnit → EStateM ε σ β}
    {P : σ → Prop} (hy : c → Keeps R y s fun _ => P) (hn : ¬ c → P s)
    (hf : ∀ t, R s t → P t → Keeps R (f ⟨⟩) t Q) :
    Keeps R (if c then y >>= f else f ⟨⟩) s Q := by
  by_cases h : c
  · rw [if_pos h]
    exact (hy h).bind fun _ => hf
  · rw [if_neg h]
    exact hf s (refl_of R s) (hn h)

/-! ## Lists of operations -/

/-- What the operation on one entry gives lasts to the end. -/
theorem forM {γ : Type} {g : γ → EStateM ε σ PUnit} {P : γ → σ → Prop} (l : List γ)
    (hg : ∀ a ∈ l, ∀ t, R s t → Keeps R (g a) t fun _ => P a)
    (lasts : ∀ a t v, R s t → R t v → P a t → P a v) :
    Keeps R (l.forM g) s fun _ t => ∀ a ∈ l, P a t := by
  induction l generalizing s with
  | nil => exact Keeps.pure (by simp)
  | cons a l ih =>
      change Keeps R (g a >>= fun _ => l.forM g) s _
      refine (hg a List.mem_cons_self s (refl_of R s)).bind fun _ t hst hp => ?_
      refine (ih (fun b hb v hv => hg b (List.mem_cons_of_mem _ hb) v (trans_of R hst hv))
        fun b v w hv => lasts b v w (trans_of R hst hv)).mono fun _ v htv hall => ?_
      intro b hb
      rcases List.mem_cons.mp hb with rfl | hb
      · exact lasts b t v hst htv hp
      · exact hall b hb

theorem mapM {γ : Type} {g : γ → EStateM ε σ β} {P : γ → β → σ → Prop} (l : List γ)
    (hg : ∀ a ∈ l, ∀ t, R s t → Keeps R (g a) t (P a))
    (lasts : ∀ a b t v, R s t → R t v → P a b t → P a b v) :
    Keeps R (l.mapM g) s fun bs t => List.Forall₂ (fun a b => P a b t) l bs := by
  induction l generalizing s with
  | nil => exact Keeps.pure .nil
  | cons a l ih =>
      rw [List.mapM_cons]
      refine (hg a List.mem_cons_self s (refl_of R s)).bind fun b t hst hp => ?_
      refine (ih (fun c hc v hv => hg c (List.mem_cons_of_mem _ hc) v (trans_of R hst hv))
        fun c d v w hv => lasts c d v w (trans_of R hst hv)).bind fun bs v htv hall => ?_
      exact Keeps.pure (.cons (lasts a b t v hst htv hp) hall)

/-- What the operations on the entries so far have led to holds at the end of them all. -/
theorem forM_prefix {γ : Type} {g : γ → EStateM ε σ PUnit} {I : List γ → σ → Prop} (l : List γ)
    (start : I [] s)
    (step : ∀ done, ∀ a ∈ l, ∀ t, I done t → Keeps R (g a) t fun _ => I (done ++ [a])) :
    Keeps R (l.forM g) s fun _ => I l := by
  induction l generalizing s I with
  | nil => exact Keeps.pure start
  | cons a l ih =>
      change Keeps R (g a >>= fun _ => l.forM g) s _
      refine (step [] a List.mem_cons_self s start).bind fun _ t _ first => ?_
      have rest (done : List γ) (b : γ) (hb : b ∈ l) (v : σ) (hv : I (a :: done) v) :
          Keeps R (g b) v fun _ => I (a :: (done ++ [b])) :=
        step (a :: done) b (List.mem_cons_of_mem _ hb) v hv
      exact ih (I := fun done => I (a :: done)) first rest

/-- What the operations so far have led to, together with what they have given, holds at the end of
them all. -/
theorem foldlM {γ : Type} {g : β → γ → EStateM ε σ β} {I : β → σ → Prop} (l : List γ) (b : β)
    (start : I b s) (step : ∀ b, ∀ a ∈ l, ∀ t, I b t → Keeps R (g b a) t I) :
    Keeps R (l.foldlM g b) s I := by
  induction l generalizing s b with
  | nil => exact Keeps.pure start
  | cons a l ih =>
      rw [List.foldlM_cons]
      refine (step b a List.mem_cons_self s start).bind fun c t _ ht => ?_
      exact ih c ht fun b d hd => step b d (List.mem_cons_of_mem _ hd)

/-- What the operations on the entries so far have led to and given holds at the end of them all. -/
theorem foldlM_prefix {γ : Type} {g : β → γ → EStateM ε σ β} {I : List γ → β → σ → Prop}
    (l : List γ) (b : β) (start : I [] b s)
    (step : ∀ done b, ∀ a ∈ l, ∀ t, I done b t → Keeps R (g b a) t (I (done ++ [a]))) :
    Keeps R (l.foldlM g b) s (I l) := by
  induction l generalizing s b I with
  | nil => exact Keeps.pure start
  | cons a l ih =>
      rw [List.foldlM_cons]
      refine (step [] b a List.mem_cons_self s start).bind fun c t _ first => ?_
      refine ih (I := fun done => I (a :: done)) c first fun done d a' hm v hv => ?_
      exact step (a :: done) d a' (List.mem_cons_of_mem _ hm) v hv

theorem mapM_of {γ : Type} {g : γ → EStateM ε σ β} {I : σ → Prop} (l : List γ) (start : I s)
    (step : ∀ a ∈ l, ∀ t, I t → Keeps R (g a) t fun _ => I) :
    Keeps R (l.mapM g) s fun _ => I := by
  induction l generalizing s with
  | nil => exact Keeps.pure start
  | cons a l ih =>
      rw [List.mapM_cons]
      refine (step a List.mem_cons_self s start).bind fun _ t _ ht => ?_
      refine (ih ht fun c hc => step c (List.mem_cons_of_mem _ hc)).bind fun _ v _ hv => ?_
      exact Keeps.pure hv

theorem optionMapM {γ : Type} {g : γ → EStateM ε σ β} {P : γ → β → σ → Prop} (o : Option γ)
    (hg : ∀ a ∈ o, Keeps R (g a) s (P a)) :
    Keeps R (o.mapM g) s fun b t => Option.Rel (fun a b => P a b t) o b := by
  cases o with
  | none => exact Keeps.pure .none
  | some a =>
      refine (hg a rfl).bind fun b t _ hp => ?_
      exact Keeps.pure (.some hp)

end Keeps

/-! ## Operations that succeed -/

/-- Any two states. -/
def Any (_ _ : σ) : Prop := True

instance : IsPreorder σ Any where
  refl _ := trivial
  trans _ _ _ _ _ := trivial

/-- What holds when an operation has succeeded. -/
abbrev Ends (x : EStateM ε σ α) (s : σ) (post : α → σ → Prop) : Prop := Keeps Any x s post

theorem Keeps.ends {R : σ → σ → Prop} {x : EStateM ε σ α} {s : σ} {P Q : α → σ → Prop}
    (hx : Keeps R x s P) (h : ∀ a t, R s t → P a t → Q a t) : Ends x s Q :=
  (hx.mono h).weaken fun _ _ => trivial

theorem Keeps.and {R : σ → σ → Prop} {x : EStateM ε σ α} {s : σ} {P Q : α → σ → Prop}
    (hx : Keeps R x s P) (hy : Ends x s Q) : Keeps R x s fun a t => P a t ∧ Q a t := by
  unfold Ends at hy
  unfold Keeps at hx hy ⊢
  cases hc : x s with
  | ok a t => rw [hc] at hx hy; exact ⟨hx.1, hx.2, hy.2⟩
  | error e t => rw [hc] at hx; exact hx

/-! ## Operations that fail -/

/-- An operation that fails with errors of some sort alone. -/
def FailsBy (x : EStateM ε σ α) (s : σ) (why : ε → Prop) : Prop :=
  ∀ e t, x s = .error e t → why e

namespace FailsBy

variable {x : EStateM ε σ α} {f : α → EStateM ε σ β} {s t : σ} {why why' : ε → Prop}

theorem of_ok {a : α} (h : x s = .ok a t) : FailsBy x s why := by
  intro e v he
  rw [h] at he
  cases he

theorem of_error {e : ε} (h : x s = .error e t) (he : why e) : FailsBy x s why := by
  intro e' v h'
  rw [h] at h'
  cases h'
  exact he

theorem mono (h : FailsBy x s why) (hw : ∀ e, why e → why' e) : FailsBy x s why' :=
  fun e t he => hw e (h e t he)

theorem bind (hx : FailsBy x s why) (hf : ∀ a t, x s = .ok a t → FailsBy (f a) t why) :
    FailsBy (x >>= f) s why := by
  intro e v he
  rw [bind_apply] at he
  cases hc : x s with
  | ok a t =>
      rw [hc] at he
      exact hf a t hc e v he
  | error e' t =>
      rw [hc] at he
      cases he
      exact hx _ _ hc

theorem mapM {γ : Type} {g : γ → EStateM ε σ β} {I : σ → Prop} (l : List γ) (start : I s)
    (each : ∀ a ∈ l, ∀ t, I t → FailsBy (g a) t why)
    (keeps : ∀ a t b v, I t → g a t = .ok b v → I v) : FailsBy (l.mapM g) s why := by
  induction l generalizing s with
  | nil => exact of_ok rfl
  | cons a l ih =>
      rw [List.mapM_cons]
      refine (each a List.mem_cons_self s start).bind fun b t ht => ?_
      have rest := ih (keeps a s b t start ht) fun c hc => each c (List.mem_cons_of_mem _ hc)
      exact rest.bind fun bs v _ => of_ok rfl

theorem discard (hx : FailsBy x s why) : FailsBy (discard x) s why := by
  have he : Functor.discard x = x >>= fun _ => Pure.pure PUnit.unit := rfl
  rw [he]
  exact hx.bind fun _ _ _ => of_ok rfl

theorem forM {γ : Type} {g : γ → EStateM ε σ PUnit} {I : σ → Prop} (l : List γ) (start : I s)
    (each : ∀ a ∈ l, ∀ t, I t → FailsBy (g a) t why)
    (keeps : ∀ a t b v, I t → g a t = .ok b v → I v) : FailsBy (l.forM g) s why := by
  induction l generalizing s with
  | nil => exact of_ok rfl
  | cons a l ih =>
      change FailsBy (g a >>= fun _ => l.forM g) s why
      refine (each a List.mem_cons_self s start).bind fun b t ht => ?_
      exact ih (keeps a s b t start ht) fun c hc => each c (List.mem_cons_of_mem _ hc)

theorem foldlM {γ : Type} {g : β → γ → EStateM ε σ β} {I : σ → Prop} (l : List γ) (b : β)
    (start : I s) (each : ∀ b, ∀ a ∈ l, ∀ t, I t → FailsBy (g b a) t why)
    (keeps : ∀ b a t c v, I t → g b a t = .ok c v → I v) : FailsBy (l.foldlM g b) s why := by
  induction l generalizing s b with
  | nil => exact of_ok rfl
  | cons a l ih =>
      rw [List.foldlM_cons]
      refine (each b a List.mem_cons_self s start).bind fun c t ht => ?_
      exact ih c (keeps b a s c t start ht) fun d a' hm => each d a' (List.mem_cons_of_mem _ hm)

/-- An operation that is left out where it is not called for. -/
theorem optional {c : Prop} [Decidable c] {y : EStateM ε σ PUnit} {f : PUnit → EStateM ε σ β}
    {P : σ → Prop} (hy : c → FailsBy y s why) (reached : c → ∀ t, y s = .ok ⟨⟩ t → P t)
    (hn : ¬ c → P s) (hf : ∀ t, P t → FailsBy (f ⟨⟩) t why) :
    FailsBy (if c then y >>= f else f ⟨⟩) s why := by
  by_cases h : c
  · rw [if_pos h]
    exact (hy h).bind fun _ t ht => hf t (reached h t ht)
  · rw [if_neg h]
    exact hf s (hn h)

theorem optionMapM {γ : Type} {g : γ → EStateM ε σ β} (o : Option γ)
    (each : ∀ a ∈ o, FailsBy (g a) s why) : FailsBy (o.mapM g) s why := by
  cases o with
  | none => exact of_ok rfl
  | some a => exact (each a rfl).bind fun b t _ => of_ok rfl

end FailsBy

end ClassUniverse
