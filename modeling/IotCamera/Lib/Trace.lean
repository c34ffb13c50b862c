/-!
# Properties of a trace, event by event

A claim such as "no call is made on a closed handle" is about every event of
a trace and the events before it. `Always P tr` says it: each event of `tr`
stands in relation `P` to the part of the trace in front of it. A program
only ever adds to its trace at the end, so the one lemma that does the work
is `always_snoc`.
-/

namespace Trace

universe u

variable {E : Type u} {P Q : List E → E → Prop} {tr : List E} {e : E}

/-- Every event of the trace satisfies `P` with the events before it. -/
def Always (P : List E → E → Prop) (tr : List E) : Prop :=
  ∀ pre e post, tr = pre ++ e :: post → P pre e

theorem always_nil : Always P [] := by
  intro pre e post heq
  simp at heq

theorem always_snoc : Always P (tr ++ [e]) ↔ Always P tr ∧ P tr e := by
  constructor
  · intro h
    refine ⟨fun pre x post heq => ?_, h tr e [] rfl⟩
    exact h pre x (post ++ [e]) (by rw [heq]; simp)
  · rintro ⟨htr, he⟩ pre x post heq
    rcases List.eq_nil_or_concat post with rfl | ⟨post', y, rfl⟩
    · obtain ⟨rfl, hx⟩ := List.append_inj' heq rfl
      rw [List.cons.injEq] at hx
      rw [← hx.1]
      exact he
    · have hsplit : tr ++ [e] = (pre ++ x :: post') ++ [y] := by
        rw [heq]; simp
      obtain ⟨htr', -⟩ := List.append_inj' hsplit rfl
      exact htr pre x post' htr'

theorem Always.mono (h : Always P tr) (hPQ : ∀ pre e, P pre e → Q pre e) :
    Always Q tr :=
  fun pre e post heq => hPQ pre e (h pre e post heq)

theorem snoc_induction {motive : List E → Prop} (nil : motive [])
    (snoc : ∀ tr e, motive tr → motive (tr ++ [e])) (tr : List E) : motive tr := by
  have hrev : ∀ l : List E, motive l.reverse := by
    intro l
    induction l with
    | nil => exact nil
    | cons e l ih => rw [List.reverse_cons]; exact snoc _ e ih
  simpa using hrev tr.reverse

end Trace
