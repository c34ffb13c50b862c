import Mathlib.Logic.Basic

/-!
# Functions that may fail

A C function that works on a state and reports success or failure. On failure
the state is still there, with whatever the function had done to it by then,
and whoever called goes on from it, most often by failing as well. Besides,
an access outside of what memory there is has no result at all.

`Ensures P m Q E` is the contract of such a function: from a state that
satisfies `P` it has a result, and the state satisfies `Q` if it succeeds and
`E` if it fails. A sequence that stops at the first failure keeps one `E`
throughout, which is what the rules below are about.
-/

universe u

/-- No result, or a state with the value if the function succeeds. -/
def Fallible (σ α : Type u) : Type u := σ → Option (Option α × σ)

namespace Fallible

variable {σ α β : Type u}

instance : Monad (Fallible σ) where
  pure a := fun s => some (some a, s)
  bind m f := fun s =>
    match m s with
    | none => none
    | some (none, s) => some (none, s)
    | some (some a, s) => f a s

def get : Fallible σ σ := fun s => some (some s, s)

def modify (f : σ → σ) : Fallible σ PUnit := fun s => some (some ⟨⟩, f s)

/-- The caller is told. -/
def fail : Fallible σ α := fun s => some (none, s)

/-- What may have no result, and does not touch the state. -/
def lift (a : Option α) : Fallible σ α := fun s => a.map fun a => (some a, s)

/-- A step that is left out otherwise. -/
def when (c : Bool) (m : Fallible σ PUnit) : Fallible σ PUnit := if c then m else pure ⟨⟩

/-- The contract. -/
def Ensures (P : σ → Prop) (m : Fallible σ α) (Q : α → σ → Prop) (E : σ → Prop) : Prop :=
  ∀ s, P s → (∃ s', m s = some (none, s') ∧ E s') ∨ ∃ a s', m s = some (some a, s') ∧ Q a s'

variable {P P' : σ → Prop} {Q Q' : α → σ → Prop} {R : β → σ → Prop} {E E' : σ → Prop}
  {m : Fallible σ α} {f : α → Fallible σ β} {a : α} {s s' : σ}

theorem bind_of_some (h : m s = some (some a, s')) : (m >>= f) s = f a s' := by
  show (match m s with | none => none | some (none, s) => _ | some (some a, s) => f a s) = _
  rw [h]

theorem bind_of_fail (h : m s = some (none, s')) : (m >>= f) s = some (none, s') := by
  show (match m s with | none => none | some (none, s) => _ | some (some a, s) => f a s) = _
  rw [h]

theorem ensures_pure (h : ∀ s, P s → Q a s) : Ensures P (pure a) Q E :=
  fun s hs => .inr ⟨a, s, rfl, h s hs⟩

theorem ensures_modify {g : σ → σ} {Q : PUnit → σ → Prop} (h : ∀ s, P s → Q ⟨⟩ (g s)) :
    Ensures P (modify g) Q E :=
  fun s hs => .inr ⟨⟨⟩, g s, rfl, h s hs⟩

theorem ensures_fail (h : ∀ s, P s → E s) : Ensures P (fail : Fallible σ α) Q E :=
  fun s hs => .inl ⟨s, rfl, h s hs⟩

theorem ensures_lift {o : Option α} (ho : o = some a) (h : ∀ s, P s → Q a s) :
    Ensures P (lift o) Q E := by
  intro s hs
  refine .inr ⟨a, s, ?_, h s hs⟩
  rw [ho]
  rfl

/-- What the first part establishes is where the second begins. -/
theorem ensures_bind (hm : Ensures P m Q E) (hf : ∀ a, Ensures (Q a) (f a) R E) :
    Ensures P (m >>= f) R E := by
  intro s hs
  cases hm s hs with
  | inl h =>
      obtain ⟨s', hs', he⟩ := h
      exact .inl ⟨s', bind_of_fail hs', he⟩
  | inr h =>
      obtain ⟨a, s', hs', hq⟩ := h
      rw [bind_of_some hs']
      exact hf a s' hq

/-- What is read of the state is known to be the state's. -/
theorem ensures_read {f : σ → Fallible σ β} (h : ∀ a, P a → Ensures P (f a) R E) :
    Ensures P (get >>= f) R E :=
  fun s hs => h s hs s hs

theorem Ensures.mono (h : Ensures P m Q E) (hP : ∀ s, P' s → P s) (hQ : ∀ a s, Q a s → Q' a s)
    (hE : ∀ s, E s → E' s) : Ensures P' m Q' E' := by
  intro s hs
  cases h s (hP s hs) with
  | inl h =>
      obtain ⟨s', hs', he⟩ := h
      exact .inl ⟨s', hs', hE s' he⟩
  | inr h =>
      obtain ⟨a, s', hs', hq⟩ := h
      exact .inr ⟨a, s', hs', hQ a s' hq⟩

theorem Ensures.post (h : Ensures P m Q E) (hQ : ∀ a s, Q a s → Q' a s) : Ensures P m Q' E :=
  h.mono (fun _ hs => hs) hQ fun _ hs => hs

/-- A contract for one state at a time. -/
theorem ensures_of_eq (h : ∀ s, P s → Ensures (fun s' => s' = s) m Q E) : Ensures P m Q E :=
  fun s hs => h s hs s rfl

theorem ensures_ite {c : Prop} [Decidable c] {n : Fallible σ α} (ht : c → Ensures P m Q E)
    (hf : ¬ c → Ensures P n Q E) : Ensures P (if c then m else n) Q E := by
  split
  · next hc => exact ht hc
  · next hc => exact hf hc

theorem ensures_when {c : Bool} {m : Fallible σ PUnit} {Q : PUnit → σ → Prop}
    (ht : c = true → Ensures P m Q E) (hf : c = false → ∀ s, P s → Q ⟨⟩ s) :
    Ensures P (when c m) Q E := by
  cases c with
  | true => exact ht rfl
  | false => exact ensures_pure (hf rfl)

end Fallible
