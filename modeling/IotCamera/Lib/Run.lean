/-!
# Runs of a labelled machine

A machine is a partial step function: a state and a label give the next
state, or nothing where the label is not enabled. Who takes the step, and
what the outside world answers to it, is all in the label, so one list of
labels is one interleaving with one set of outcomes, and quantifying over
lists of labels is quantifying over both.

The file keeps the three arguments every development over such a machine
repeats. An invariant of the steps is an invariant of the runs. If only the
steps that meet a condition keep it, it holds along the runs whose steps all
meet the condition. And a machine that another one follows, answering each
step with some steps of its own, has no behaviour the other one lacks.
-/

namespace Lts

universe u v w x

variable {σ : Type u} {α : Type v}

/-- `Run step s as s'`: the labels `as`, taken in order from `s`, are all
enabled and end in `s'`. -/
def Run (step : σ → α → Option σ) (s : σ) (as : List α) (s' : σ) : Prop :=
  as.foldlM step s = some s'

/-- Some run from `init` ends in `s`. -/
def Reachable (step : σ → α → Option σ) (init s : σ) : Prop :=
  ∃ as, Run step init as s

/-- Every label of the run is taken in a state that meets `good`. -/
def Meets (good : σ → α → Prop) (step : σ → α → Option σ) (s : σ)
    (as : List α) : Prop :=
  ∀ pre a post s', as = pre ++ a :: post → Run step s pre s' → good s' a

/-- `P` holds in every state the run passes through, both ends included. -/
def Along (P : σ → Prop) (step : σ → α → Option σ) (s : σ)
    (as : List α) : Prop :=
  ∀ pre s', pre <+: as → Run step s pre s' → P s'

variable {step : σ → α → Option σ} {s s' t : σ} {a : α} {as bs : List α}

/-! ## Taking runs apart -/

@[simp] theorem run_nil : Run step s [] s' ↔ s = s' := by
  simp [Run]

theorem run_cons :
    Run step s (a :: as) s' ↔ ∃ t, step s a = some t ∧ Run step t as s' := by
  simp [Run, Option.bind_eq_some_iff]

theorem run_append :
    Run step s (as ++ bs) s' ↔ ∃ t, Run step s as t ∧ Run step t bs s' := by
  simp [Run, List.foldlM_append, Option.bind_eq_some_iff]

theorem run_single : Run step s [a] s' ↔ step s a = some s' := by
  simp [run_cons]

theorem run_snoc :
    Run step s (as ++ [a]) s' ↔ ∃ t, Run step s as t ∧ step t a = some s' := by
  simp [run_append, run_single]

theorem run_get (h : (as.foldlM step s).isSome) :
    Run step s as ((as.foldlM step s).get h) :=
  (Option.some_get h).symm

theorem Run.unique (h : Run step s as s') (h' : Run step s as t) : s' = t := by
  rw [Run] at h h'
  rw [h] at h'
  exact Option.some.inj h'

theorem Reachable.refl (init : σ) : Reachable step init init :=
  ⟨[], run_nil.2 rfl⟩

theorem Reachable.trans {init : σ} (h : Reachable step init s)
    (h' : Reachable step s t) : Reachable step init t := by
  obtain ⟨as, has⟩ := h
  obtain ⟨bs, hbs⟩ := h'
  exact ⟨as ++ bs, run_append.2 ⟨s, has, hbs⟩⟩

theorem Reachable.next {init : σ} (h : Reachable step init s)
    (hs : step s a = some s') : Reachable step init s' := by
  obtain ⟨as, has⟩ := h
  exact ⟨as ++ [a], run_snoc.2 ⟨s, has, hs⟩⟩

/-! ## The invariant rules -/

/-- What every step keeps, every run keeps. -/
theorem Run.invariant {I : σ → Prop}
    (hstep : ∀ s a s', I s → step s a = some s' → I s')
    (hrun : Run step s as s') (h : I s) : I s' := by
  induction as generalizing s with
  | nil => rw [run_nil] at hrun; exact hrun ▸ h
  | cons a as ih =>
      obtain ⟨t, ht, hrest⟩ := run_cons.1 hrun
      exact ih hrest (hstep s a t h ht)

theorem Reachable.invariant {I : σ → Prop} {init : σ} (h0 : I init)
    (hstep : ∀ s a s', I s → step s a = some s' → I s')
    (h : Reachable step init s) : I s := by
  obtain ⟨as, has⟩ := h
  exact has.invariant hstep h0

theorem not_meets {bad : σ → α → Prop} :
    ¬ Meets (fun s a => ¬ bad s a) step s as ↔
      ∃ pre a post s', as = pre ++ a :: post ∧ Run step s pre s' ∧ bad s' a := by
  simp only [Meets, Classical.not_forall, Classical.not_not, exists_prop]

theorem Meets.nil {good : σ → α → Prop} : Meets good step s [] := by
  intro pre a post s' h
  simp at h

theorem meets_cons {good : σ → α → Prop} :
    Meets good step s (a :: as) ↔
      good s a ∧ ∀ t, step s a = some t → Meets good step t as := by
  constructor
  · intro h
    refine ⟨h [] a as s rfl (run_nil.2 rfl), ?_⟩
    intro t ht pre b post s' heq hrun
    exact h (a :: pre) b post s' (by rw [heq]; rfl) (run_cons.2 ⟨t, ht, hrun⟩)
  · rintro ⟨hgood, hrest⟩ pre b post s' heq hrun
    cases pre with
    | nil =>
        rw [List.nil_append, List.cons.injEq] at heq
        rw [run_nil] at hrun
        rw [← hrun, ← heq.1]
        exact hgood
    | cons c pre =>
        rw [List.cons_append, List.cons.injEq] at heq
        obtain ⟨rfl, rfl⟩ := heq
        obtain ⟨t, ht, hpre⟩ := run_cons.1 hrun
        exact hrest t ht pre b post s' rfl hpre

/-- On a given list of labels the condition can be checked by running it. -/
instance Meets.instDecidable {good : σ → α → Prop} [∀ s a, Decidable (good s a)]
    (step : σ → α → Option σ) : ∀ (as : List α) (s : σ), Decidable (Meets good step s as)
  | [], _ => isTrue Meets.nil
  | a :: as, s =>
      match h : step s a with
      | none =>
          decidable_of_iff (good s a) (by simp [meets_cons, h])
      | some t =>
          have : Decidable (Meets good step t as) := Meets.instDecidable step as t
          decidable_of_iff (good s a ∧ Meets good step t as) (by simp [meets_cons, h])

/-- What every step that meets the condition keeps, every run of such steps
keeps. -/
theorem Run.invariant_of_meets {I : σ → Prop} {good : σ → α → Prop}
    (hstep : ∀ s a s', I s → good s a → step s a = some s' → I s')
    (hrun : Run step s as s') (hmeets : Meets good step s as) (h : I s) :
    I s' := by
  induction as generalizing s with
  | nil => rw [run_nil] at hrun; exact hrun ▸ h
  | cons a as ih =>
      obtain ⟨t, ht, hrest⟩ := run_cons.1 hrun
      obtain ⟨hgood, hmeets'⟩ := meets_cons.1 hmeets
      exact ih hrest (hmeets' t ht) (hstep s a t h hgood ht)

theorem Meets.take {good : σ → α → Prop} (h : Meets good step s bs)
    (hpre : as <+: bs) : Meets good step s as := by
  obtain ⟨rest, rfl⟩ := hpre
  intro pre a post s' heq hrun
  exact h pre a (post ++ rest) s' (by rw [heq]; simp) hrun

theorem Meets.drop {good : σ → α → Prop} (h : Meets good step s (as ++ bs))
    (hrun : Run step s as t) : Meets good step t bs := by
  intro pre a post s' heq hpre
  exact h (as ++ pre) a post s' (by rw [heq]; simp) (run_append.2 ⟨t, hrun, hpre⟩)

theorem Along.of_meets {I : σ → Prop} {good : σ → α → Prop}
    (hstep : ∀ s a s', I s → good s a → step s a = some s' → I s')
    (hmeets : Meets good step s as) (h : I s) : Along I step s as := by
  intro pre s' hpre hrun
  exact hrun.invariant_of_meets hstep (hmeets.take hpre) h

theorem Along.start {P : σ → Prop} (h : Along P step s as) : P s :=
  h [] s (List.nil_prefix) (run_nil.2 rfl)

theorem along_nil {P : σ → Prop} : Along P step s [] ↔ P s := by
  constructor
  · exact Along.start
  · intro h pre s' hpre hrun
    rw [List.prefix_nil.1 hpre, run_nil] at hrun
    exact hrun ▸ h

theorem along_cons {P : σ → Prop} :
    Along P step s (a :: as) ↔ P s ∧ ∀ t, step s a = some t → Along P step t as := by
  constructor
  · intro h
    refine ⟨h.start, ?_⟩
    intro t ht pre s' hpre hrun
    exact h (a :: pre) s' (List.cons_prefix_cons.2 ⟨rfl, hpre⟩) (run_cons.2 ⟨t, ht, hrun⟩)
  · intro h pre s' hpre hrun
    cases pre with
    | nil =>
        rw [run_nil] at hrun
        exact hrun ▸ h.1
    | cons b pre =>
        obtain ⟨rfl, hrest⟩ := List.cons_prefix_cons.1 hpre
        obtain ⟨t, ht, hpre'⟩ := run_cons.1 hrun
        exact h.2 t ht pre s' hrest hpre'

theorem Along.mono {P Q : σ → Prop} (h : Along P step s as)
    (hPQ : ∀ s, P s → Q s) : Along Q step s as :=
  fun pre s' hpre hrun => hPQ s' (h pre s' hpre hrun)

/-! ## Simulation -/

section Simulation

variable {τ : Type w} {β : Type x} {step' : τ → β → Option τ}

/-- If every step from related states is answered by a run to related
states, every run is. -/
theorem Run.simulate {R : σ → τ → Prop}
    (hstep : ∀ s a s' t, R s t → step s a = some s' →
      ∃ bs t', Run step' t bs t' ∧ R s' t')
    (hrun : Run step s as s') {t : τ} (h : R s t) :
    ∃ bs t', Run step' t bs t' ∧ R s' t' := by
  induction as generalizing s t with
  | nil => rw [run_nil] at hrun; exact ⟨[], t, run_nil.2 rfl, hrun ▸ h⟩
  | cons a as ih =>
      obtain ⟨s₁, hs₁, hrest⟩ := run_cons.1 hrun
      obtain ⟨bs, t₁, hbs, h₁⟩ := hstep s a s₁ t h hs₁
      obtain ⟨bs', t', hbs', h'⟩ := ih hrest h₁
      exact ⟨bs ++ bs', t', run_append.2 ⟨t₁, hbs, hbs'⟩, h'⟩

end Simulation

end Lts
