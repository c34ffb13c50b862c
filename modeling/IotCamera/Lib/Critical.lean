import IotCamera.Lib.Run

/-!
# Critical sections of one lock

A machine whose threads share a lock, seen through two functions of its
state: who owns the lock, and how many statements each thread still has
before it gives the lock up (none if it is not between its lock and its
unlock). `LockMove` says what a well-behaved step of a thread does to them,
and that is all the two classical facts need. The owner is exactly the
thread with statements left; and if the owner takes that many steps, the
lock has been free on the way, whatever the other threads did in between.
-/

universe u v w

/-- What a step of thread `t` does to the owner and to the statements left. -/
inductive LockMove {T : Type w} (t : T) (owner owner' : Option T) (left left' : T → Nat) :
    Prop
  | enter (hfree : owner = none) (howner : owner' = some t) (hin : 0 < left' t)
  | inside (howner : owner' = owner) (hin : 0 < left' t) (hless : left' t < left t)
  | outside (howner : owner' = owner) (hout : left t = 0) (hout' : left' t = 0)
  | leave (howner : owner = some t) (hin : 0 < left t) (hfree : owner' = none)
      (hout : left' t = 0)

namespace Critical

variable {σ : Type u} {α : Type v} {T : Type w}

/-- A thread with statements left owns the lock. -/
def Held (owner : Option T) (left : T → Nat) : Prop :=
  ∀ t, 0 < left t → owner = some t

/-- The owner is the one thread with statements left. -/
def Exact (owner : Option T) (left : T → Nat) : Prop :=
  ∀ t, owner = some t ↔ 0 < left t

variable {owner owner' : Option T} {left left' : T → Nat} {t : T}

theorem Held.move (h : Held owner left) (hm : LockMove t owner owner' left left')
    (hothers : ∀ u, u ≠ t → left' u = left u) : Held owner' left' := by
  intro u hleft
  by_cases hu : u = t
  · subst hu
    cases hm with
    | enter hfree howner hin => exact howner
    | inside howner hin hless =>
        rw [howner]
        exact h u (Nat.lt_trans hin hless)
    | outside howner hout hout' => omega
    | leave howner hin hfree hout => omega
  · rw [hothers u hu] at hleft
    have hown : owner = some u := h u hleft
    cases hm with
    | enter hfree howner hin => rw [hfree] at hown; cases hown
    | inside howner hin hless => exact howner.trans hown
    | outside howner hout hout' => exact howner.trans hown
    | leave howner hin hfree hout =>
        rw [howner] at hown
        exact absurd (Option.some.inj hown).symm hu

theorem Exact.move (h : Exact owner left) (hm : LockMove t owner owner' left left')
    (hothers : ∀ u, u ≠ t → left' u = left u) : Exact owner' left' := by
  intro u
  by_cases hu : u = t
  · subst hu
    cases hm with
    | enter hfree howner hin => exact iff_of_true howner hin
    | inside howner hin hless =>
        rw [howner, h u]
        exact iff_of_true (Nat.lt_trans hin hless) hin
    | outside howner hout hout' => rw [howner, h u, hout, hout']
    | leave howner hin hfree hout => simp [hfree, hout]
  · rw [hothers u hu, ← h u]
    cases hm with
    | enter hfree howner hin => simp [hfree, howner, Ne.symm hu]
    | inside howner hin hless => rw [howner]
    | outside howner hout hout' => rw [howner]
    | leave howner hin hfree hout => simp [hfree, howner, Ne.symm hu]

/-- Nobody takes the lock from its owner, or a statement from a thread that
does not move. -/
theorem owner_keeps {u : T} (h : owner = some u) (hu : u ≠ t)
    (hm : LockMove t owner owner' left left') : owner' = some u := by
  cases hm with
  | enter hfree howner hin => rw [h] at hfree; cases hfree
  | inside howner hin hless => rw [howner, h]
  | outside howner hout hout' => rw [howner, h]
  | leave howner hin hfree hout =>
      rw [h] at howner
      exact absurd (Option.some.inj howner) hu

section Runs

open Lts

variable [DecidableEq T] {step : σ → α → Option σ}
  {own : σ → Option T} {rest : σ → T → Nat} {s s' : σ} {as : List α}

/-- In a run of well-behaved steps an owner that takes as many steps as it
has statements left has given the lock up on the way. -/
theorem freed_on_the_way (thread : α → T) {good : σ → α → Prop} {I : σ → Prop}
    (hinv : ∀ s a s', I s → step s a = some s' → I s')
    (hmove : ∀ s a s', I s → good s a → step s a = some s' →
      LockMove (thread a) (own s) (own s') (rest s) (rest s') ∧
      ∀ u, u ≠ thread a → rest s' u = rest s u)
    (hrun : Run step s as s') (hgood : Meets good step s as) (hI : I s)
    (hexact : Exact (own s) (rest s)) (howner : own s = some t)
    (hsteps : rest s t ≤ as.countP fun a => decide (thread a = t)) :
    ∃ pre s'', pre <+: as ∧ Run step s pre s'' ∧ own s'' = none := by
  induction as generalizing s with
  | nil =>
      have hleft : 0 < rest s t := (hexact t).1 howner
      simp only [List.countP_nil] at hsteps
      omega
  | cons a as ih =>
      obtain ⟨s₁, hs₁, hrest⟩ := run_cons.1 hrun
      obtain ⟨ha, hgood'⟩ := meets_cons.1 hgood
      obtain ⟨hm, hothers⟩ := hmove s a s₁ hI ha hs₁
      have hexact' := hexact.move hm hothers
      -- the rest of the run, once the owner still owns and has no more left
      -- than it can still do
      have go : own s₁ = some t →
          rest s₁ t ≤ as.countP (fun a => decide (thread a = t)) →
          ∃ pre s'', pre <+: a :: as ∧ Run step s pre s'' ∧ own s'' = none := by
        intro hown hle
        obtain ⟨pre, s'', hpre, hr, hfree⟩ :=
          ih hrest (hgood' s₁ hs₁) (hinv s a s₁ hI hs₁) hexact' hown hle
        exact ⟨a :: pre, s'', List.cons_prefix_cons.2 ⟨rfl, hpre⟩,
          run_cons.2 ⟨s₁, hs₁, hr⟩, hfree⟩
      by_cases hta : thread a = t
      · rw [List.countP_cons, if_pos (by simpa using hta)] at hsteps
        rw [hta] at hm
        cases hm with
        | enter hfree => rw [howner] at hfree; cases hfree
        | inside hown hin hless => exact go (hown.trans howner) (by omega)
        | outside hown hout =>
            have hleft : 0 < rest s t := (hexact t).1 howner
            omega
        | leave hown hin hfree hout =>
            exact ⟨[a], s₁, by simp, run_single.2 hs₁, hfree⟩
      · rw [List.countP_cons, if_neg (by simpa using hta), Nat.add_zero] at hsteps
        exact go (owner_keeps howner (Ne.symm hta) hm)
          (by rw [hothers t (Ne.symm hta)]; exact hsteps)

end Runs

end Critical
