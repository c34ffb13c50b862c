import IotCamera.Lib.Trace

/-!
# A ledger of handles over a trace

A library hands out handles, takes calls on them and takes them back; a
trace is the list of calls in the order they were made. `Ledger` says which
events open a handle, which close one and which use one, and everything
else is read off the trace: a handle is live after a trace that opened it
and has not closed it, and a trace obeys the ledger if no event opens a
handle a second time, closes one that is not live, or uses one that is not
live. A use may be of no handle at all, which is how a null pointer passed
to a call shows up, and it is never allowed.

A program with one variable for its handle keeps `Owns tr o`: the variable
`o` is exactly the live set. The lemmas below say what the three kinds of
event do to that, which is all an invariant over a program's steps asks.
-/

universe u v

/-- Which handle an event opens, closes and uses. A use of `some none` is a
use of the null handle. -/
structure Ledger (E : Type u) (H : Type v) where
  opens : E → Option H
  closes : E → Option H
  uses : E → Option (Option H)

namespace Ledger

variable {E : Type u} {H : Type v} (L : Ledger E H)

/-- The trace opened `h`. -/
def Opened (tr : List E) (h : H) : Prop := ∃ e ∈ tr, L.opens e = some h

/-- The trace closed `h`. -/
def Closed (tr : List E) (h : H) : Prop := ∃ e ∈ tr, L.closes e = some h

/-- The trace opened `h` and has not closed it. -/
def Live (tr : List E) (h : H) : Prop := L.Opened tr h ∧ ¬ L.Closed tr h

/-- `e` may follow `tr`. -/
structure Legal (tr : List E) (e : E) : Prop where
  opens_fresh : ∀ h, L.opens e = some h → ¬ L.Opened tr h
  closes_live : ∀ h, L.closes e = some h → L.Live tr h

/-- Every event of the trace was legal where it stands. -/
def Obeys (tr : List E) : Prop := Trace.Always L.Legal tr

/-- If `e` uses a handle, it uses one that is live after `tr`. -/
def UseLive (tr : List E) (e : E) : Prop :=
  ∀ p, L.uses e = some p → ∃ h, p = some h ∧ L.Live tr h

/-- Every use of the trace was of a live handle. -/
def UsesLive (tr : List E) : Prop := Trace.Always L.UseLive tr

/-- The live handles of the trace are exactly the one in `o`, if any. -/
def Owns (tr : List E) (o : Option H) : Prop := ∀ h, L.Live tr h ↔ o = some h

variable {L} {tr : List E} {e : E} {h : H} {o : Option H}

instance Live.instDecidable [DecidableEq H] (tr : List E) (h : H) :
    Decidable (L.Live tr h) :=
  inferInstanceAs (Decidable
    ((∃ e ∈ tr, L.opens e = some h) ∧ ¬ ∃ e ∈ tr, L.closes e = some h))

/-! ## One more event -/

theorem opened_snoc : L.Opened (tr ++ [e]) h ↔ L.Opened tr h ∨ L.opens e = some h := by
  simp only [Opened, List.mem_append, List.mem_singleton]
  constructor
  · rintro ⟨x, hx | rfl, ho⟩
    · exact Or.inl ⟨x, hx, ho⟩
    · exact Or.inr ho
  · rintro (⟨x, hx, ho⟩ | ho)
    · exact ⟨x, Or.inl hx, ho⟩
    · exact ⟨e, Or.inr rfl, ho⟩

theorem closed_snoc : L.Closed (tr ++ [e]) h ↔ L.Closed tr h ∨ L.closes e = some h :=
  opened_snoc (L := ⟨L.closes, L.closes, L.uses⟩)

theorem live_snoc_neutral (hopen : L.opens e = none) (hclose : L.closes e = none) :
    L.Live (tr ++ [e]) h ↔ L.Live tr h := by
  simp [Live, opened_snoc, closed_snoc, hopen, hclose]

theorem obeys_nil : L.Obeys [] := Trace.always_nil

theorem obeys_snoc : L.Obeys (tr ++ [e]) ↔ L.Obeys tr ∧ L.Legal tr e :=
  Trace.always_snoc

theorem Legal.of_neutral (hopen : L.opens e = none) (hclose : L.closes e = none) :
    L.Legal tr e := by
  constructor
  · intro h hh
    rw [hopen] at hh
    cases hh
  · intro h hh
    rw [hclose] at hh
    cases hh

theorem usesLive_append {as bs : List E} (h : L.UsesLive as)
    (hbs : ∀ e ∈ bs, L.uses e = none) : L.UsesLive (as ++ bs) := by
  induction bs using Trace.snoc_induction with
  | nil => simpa using h
  | snoc bs e ih =>
      rw [← List.append_assoc]
      refine Trace.always_snoc.2 ⟨ih fun x hx => hbs x (List.mem_append_left _ hx), ?_⟩
      intro p hp
      rw [hbs e (List.mem_append_right _ List.mem_cons_self)] at hp
      cases hp

/-- Under the discipline only opened handles are closed. -/
theorem Obeys.opened_of_closed (hobeys : L.Obeys tr) (hclosed : L.Closed tr h) :
    L.Opened tr h := by
  obtain ⟨e, he, hc⟩ := hclosed
  obtain ⟨pre, post, rfl⟩ := List.append_of_mem he
  obtain ⟨x, hx, ho⟩ := ((hobeys pre e post rfl).closes_live h hc).1
  exact ⟨x, by simp [hx], ho⟩

theorem Obeys.closed_once [DecidableEq H] (hobeys : L.Obeys tr) (h : H) :
    tr.countP (fun e => decide (L.closes e = some h)) ≤ 1 := by
  induction tr using Trace.snoc_induction with
  | nil => simp
  | snoc tr e ih =>
      obtain ⟨htr, he⟩ := obeys_snoc.1 hobeys
      rw [List.countP_append]
      by_cases hc : L.closes e = some h
      · have hnone : tr.countP (fun e => decide (L.closes e = some h)) = 0 := by
          rw [List.countP_eq_zero]
          intro x hx
          simp only [decide_eq_true_eq]
          exact fun hxc => (he.closes_live h hc).2 ⟨x, hx, hxc⟩
        rw [hnone, Nat.zero_add]
        exact List.countP_le_length
      · simpa [hc] using ih htr

/-! ## The one-variable owner -/

theorem owns_nil : L.Owns [] none := by
  intro h
  simp [Live, Opened]

theorem Owns.live (hown : L.Owns tr (some h)) : L.Live tr h := (hown h).2 rfl

theorem Owns.not_live (hown : L.Owns tr none) : ¬ L.Live tr h := by
  intro hlive
  simpa using (hown h).1 hlive

theorem Owns.snoc_neutral (hown : L.Owns tr o) (hopen : L.opens e = none)
    (hclose : L.closes e = none) : L.Owns (tr ++ [e]) o :=
  fun h => (live_snoc_neutral hopen hclose).trans (hown h)

theorem Owns.snoc_open (hown : L.Owns tr none) (hobeys : L.Obeys tr)
    (hopen : L.opens e = some h) (hclose : L.closes e = none)
    (hfresh : ¬ L.Opened tr h) : L.Owns (tr ++ [e]) (some h) := by
  intro k
  simp only [Live, opened_snoc, closed_snoc, hopen, hclose, Option.some.injEq,
    reduceCtorEq, or_false]
  constructor
  · rintro ⟨hk | hk, hnc⟩
    · exact absurd ⟨hk, hnc⟩ hown.not_live
    · exact hk
  · rintro rfl
    exact ⟨Or.inr rfl, fun hc => hfresh (hobeys.opened_of_closed hc)⟩

theorem Owns.snoc_close (hown : L.Owns tr (some h)) (hopen : L.opens e = none)
    (hclose : L.closes e = some h) : L.Owns (tr ++ [e]) none := by
  intro k
  simp only [Live, opened_snoc, closed_snoc, hopen, hclose, Option.some.injEq,
    reduceCtorEq, or_false, iff_false, not_and, not_or]
  intro hk hnc hne
  exact hne (Option.some.inj ((hown k).1 ⟨hk, hnc⟩))

/-! ## Handles numbered in the order they are opened -/

section Numbered

variable {L : Ledger E Nat} {h : Nat}

/-- How many handles the trace opened. -/
def opened (L : Ledger E Nat) (tr : List E) : Nat :=
  tr.countP fun e => (L.opens e).isSome

/-- Opened handles are numbered below the count, so the count is fresh. -/
def Numbered (L : Ledger E Nat) (tr : List E) : Prop :=
  ∀ h, L.Opened tr h → h < L.opened tr

theorem numbered_nil : L.Numbered [] := by
  rintro h ⟨e, he, -⟩
  simp at he

theorem Numbered.fresh (hnum : L.Numbered tr) : ¬ L.Opened tr (L.opened tr) :=
  fun hop => Nat.lt_irrefl _ (hnum _ hop)

theorem Numbered.snoc_neutral (hnum : L.Numbered tr) (hopen : L.opens e = none) :
    L.Numbered (tr ++ [e]) := by
  intro h hop
  rw [opened_snoc, hopen] at hop
  have := hnum h (hop.resolve_right (by simp))
  simpa [opened, List.countP_append, hopen] using this

theorem Numbered.snoc_open (hnum : L.Numbered tr)
    (hopen : L.opens e = some (L.opened tr)) : L.Numbered (tr ++ [e]) := by
  intro h hop
  rw [opened_snoc, hopen, Option.some.injEq] at hop
  have hlt : h < L.opened tr + 1 := by
    rcases hop with hop | rfl
    · exact Nat.lt_succ_of_lt (hnum h hop)
    · exact Nat.lt_succ_self _
  simpa [opened, List.countP_append, hopen] using hlt

end Numbered

end Ledger
