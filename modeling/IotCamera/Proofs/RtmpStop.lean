import IotCamera.Proofs.RtmpHandle

/-!
# When a stop is obeyed

`stopPush` looks at `status` and not at `run_status`: in STOPPUSH it does
nothing. A start that the loop has not picked up yet is only in `run_status`,
so a stop that comes between the two is dropped, and the loop goes on to
connect. That is the one way a stop is lost. If the last stop finds any other
state, `run_status` becomes EXIT, the next turn ends in STOPPUSH whatever the
library answers, and there the object stays, unchanged, until a start.
-/

namespace IotCamera

namespace CRtmpPush

variable {p : CRtmpPush}

/-- A start the loop has not seen yet. -/
def StartPending (p : CRtmpPush) : Prop :=
  p.status = .stopPush ∧ p.runStatus = .start

def Act.isControl : Act → Bool
  | .startPush | .stopPush => true
  | _ => false

def Act.isRun : Act → Bool
  | .run _ => true
  | _ => false

def Call.isCreate : Call → Bool
  | .create _ => true
  | _ => false

/-- The object is stopped for good: STOPPUSH, no handle, and no further turn
of the loop opens a connection unless a start comes first. -/
structure Stopped (p : CRtmpPush) : Prop where
  status : p.status = .stopPush
  rtmp : p.rtmp = none
  quiet : ∀ more, .startPush ∉ more →
    (p.exec more).calls.countP Call.isCreate = p.calls.countP Call.isCreate

theorem exec_cons (a : Act) (acts : List Act) :
    p.exec (a :: acts) = (p.step a).exec acts := rfl

theorem exec_append (as bs : List Act) : p.exec (as ++ bs) = (p.exec as).exec bs :=
  List.foldl_append

/-! ## What a turn does to the two bytes -/

@[simp] theorem checkRunStatus_runStatus :
    p.checkRunStatus.runStatus = p.runStatus := by
  unfold checkRunStatus
  split
  · exact cleanup_runStatus
  · rfl

theorem checkRunStatus_of_exit (h : p.runStatus = .exit) :
    p.checkRunStatus.status = .stopPush := by
  simp [checkRunStatus, h]

theorem checkRunStatus_of_start (h : p.runStatus = .start) : p.checkRunStatus = p := by
  simp [checkRunStatus, h]

@[simp] theorem runIter_runStatus (o : OpenOutcome) :
    (p.runIter o).runStatus = p.runStatus := by
  cases hs : p.status <;> simp only [runIter, hs]
  case stopPush => split <;> rfl
  case connInit =>
    rw [checkRunStatus_runStatus, init_eq]
    split <;> simp [deinit]
  case connected => exact checkRunStatus_runStatus
  case connErr => rw [checkRunStatus_runStatus]; exact cleanup_runStatus

/-- Under EXIT every turn ends in STOPPUSH. -/
theorem runIter_of_exit (h : p.runStatus = .exit) (o : OpenOutcome) :
    (p.runIter o).status = .stopPush := by
  cases hs : p.status <;> simp only [runIter, hs]
  case stopPush => rw [h, if_neg (by decide)]; exact hs
  case connInit =>
    refine checkRunStatus_of_exit ?_
    rw [init_eq]
    split <;> simp [deinit, h]
  case connected => exact checkRunStatus_of_exit h
  case connErr => exact checkRunStatus_of_exit (by simpa [deinit] using h)

theorem runIter_of_start (h : p.runStatus = .start) (o : OpenOutcome) :
    (p.runIter o).status ≠ .stopPush := by
  cases hs : p.status <;> simp only [runIter, hs]
  case stopPush =>
    rw [if_pos h]
    intro hs'
    cases hs'
  case connInit =>
    rw [init_eq, checkRunStatus_of_start (by split <;> simp [deinit, h])]
    split
    · intro hs'
      cases hs'
    · simp [deinit, hs]
  case connected =>
    rw [checkRunStatus_of_start h, hs]
    intro hs'
    cases hs'
  case connErr =>
    rw [checkRunStatus_of_start (by simpa [deinit] using h)]
    intro hs'
    cases hs'

@[simp] theorem writeRaw_runStatus (w : Writer) (wret : Int) :
    (p.writeRaw w wret).runStatus = p.runStatus := by
  unfold writeRaw
  split
  · split <;> rfl
  · rfl

theorem writeRaw_of_stopPush (h : p.status = .stopPush) (w : Writer) (wret : Int) :
    p.writeRaw w wret = p := by
  simp [writeRaw, h]

theorem writeRaw_ne_stopPush (h : p.status ≠ .stopPush) (w : Writer) (wret : Int) :
    (p.writeRaw w wret).status ≠ .stopPush := by
  unfold writeRaw
  split
  · split
    · intro hs
      cases hs
    · exact h
  · exact h

/-! ## From one step to all of them

Between two control calls `run_status` does not move, so one turn of the loop
settles the status byte for the rest of the stretch. -/

theorem step_runStatus {a : Act} (ha : a.isControl = false) :
    (p.step a).runStatus = p.runStatus := by
  cases a with
  | startPush | stopPush => cases ha
  | writeH264RawData wret => exact writeRaw_runStatus .video wret
  | writeAACRawData wret => exact writeRaw_runStatus .audio wret
  | run o => exact runIter_runStatus o

/-- In STOPPUSH under EXIT nothing but a start changes anything. -/
theorem step_of_stopped (hs : p.status = .stopPush) (hr : p.runStatus = .exit)
    {a : Act} (ha : a ≠ .startPush) : p.step a = p := by
  cases a with
  | startPush => exact absurd rfl ha
  | stopPush => simp [step, stopPush, hs]
  | writeH264RawData wret => exact writeRaw_of_stopPush hs .video wret
  | writeAACRawData wret => exact writeRaw_of_stopPush hs .audio wret
  | run o => simp [step, runIter, hs, hr]

theorem exec_of_stopped (hs : p.status = .stopPush) (hr : p.runStatus = .exit) :
    ∀ {acts : List Act}, .startPush ∉ acts → p.exec acts = p := by
  intro acts
  induction acts with
  | nil => intro _; rfl
  | cons a acts ih =>
      intro hacts
      rw [List.mem_cons, not_or] at hacts
      rw [exec_cons, step_of_stopped hs hr (Ne.symm hacts.1)]
      exact ih hacts.2

/-- What a turn of the loop brings about under some `run_status`, and what the
steps between control calls keep, holds at the end of every stretch that begins
with it or has a turn. -/
theorem exec_settles {r : RunStatus} {P : CRtmpPush → Prop}
    (hkeep : ∀ p a, a.isControl = false → p.runStatus = r → P p → P (p.step a))
    (hturn : ∀ (p : CRtmpPush) o, p.runStatus = r → P (p.runIter o)) :
    ∀ {acts : List Act} {p : CRtmpPush}, p.runStatus = r →
      (∀ a ∈ acts, a.isControl = false) → P p ∨ 0 < acts.countP Act.isRun →
      P (p.exec acts) := by
  intro acts
  induction acts with
  | nil =>
      intro p _ _ h
      exact h.resolve_right (by simp)
  | cons a acts ih =>
      intro p hr hacts h
      have ha : a.isControl = false := hacts a List.mem_cons_self
      rw [exec_cons]
      refine ih ((step_runStatus ha).trans hr)
        (fun b hb => hacts b (List.mem_cons_of_mem _ hb)) ?_
      rcases h with hP | hcount
      · exact Or.inl (hkeep p a ha hr hP)
      · cases a with
        | startPush | stopPush => cases ha
        | run o => exact Or.inl (hturn p o hr)
        | writeH264RawData | writeAACRawData =>
            exact Or.inr (by simpa [Act.isRun] using hcount)

theorem exec_exit_status {acts : List Act} {p : CRtmpPush} (hr : p.runStatus = .exit)
    (hacts : ∀ a ∈ acts, a.isControl = false)
    (h : p.status = .stopPush ∨ 0 < acts.countP Act.isRun) :
    (p.exec acts).status = .stopPush := by
  refine exec_settles (P := fun p => p.status = .stopPush) ?_ ?_ hr hacts h
  · intro p a ha hr hs
    rw [step_of_stopped hs hr (by rintro rfl; cases ha)]
    exact hs
  · intro p o hr
    exact runIter_of_exit hr o

theorem exec_start_status {acts : List Act} {p : CRtmpPush} (hr : p.runStatus = .start)
    (hacts : ∀ a ∈ acts, a.isControl = false)
    (h : p.status ≠ .stopPush ∨ 0 < acts.countP Act.isRun) :
    (p.exec acts).status ≠ .stopPush := by
  refine exec_settles (P := fun p => p.status ≠ .stopPush) ?_ ?_ hr hacts h
  · intro p a ha hr hs
    cases a with
    | startPush | stopPush => cases ha
    | run o => exact runIter_of_start hr o
    | writeH264RawData wret => exact writeRaw_ne_stopPush hs .video wret
    | writeAACRawData wret => exact writeRaw_ne_stopPush hs .audio wret
  · intro p o hr
    exact runIter_of_start hr o

theorem exec_runStatus : ∀ {acts : List Act} {p : CRtmpPush},
    (∀ a ∈ acts, a.isControl = false) → (p.exec acts).runStatus = p.runStatus := by
  intro acts
  induction acts with
  | nil => intro p _; rfl
  | cons a acts ih =>
      intro p hacts
      rw [exec_cons, ih fun b hb => hacts b (List.mem_cons_of_mem _ hb)]
      exact step_runStatus (hacts a List.mem_cons_self)

theorem stopPush_runStatus (h : ¬ StartPending p) : p.stopPush.runStatus = .exit := by
  cases hs : p.status <;> simp only [stopPush, hs]
  cases hr : p.runStatus with
  | exit => rfl
  | start => exact absurd ⟨hs, hr⟩ h

theorem stopPush_of_pending (h : StartPending p) : p.stopPush = p := by
  simp [stopPush, h.1]

/-- After any steps, a stop, and then writes and at least two turns of the
loop with no control call among them, the object is stopped for good exactly
if the stop did not find a start that the loop had not picked up. -/
theorem last_stop_wins_iff (pre suf : List Act)
    (hsuf : ∀ a ∈ suf, a.isControl = false) (hruns : 2 ≤ suf.countP Act.isRun) :
    Stopped (new.exec (pre ++ .stopPush :: suf)) ↔ ¬ StartPending (new.exec pre) := by
  have hexec : new.exec (pre ++ .stopPush :: suf) =
      ((new.exec pre).stopPush).exec suf := by
    rw [exec_append, exec_cons]
    rfl
  have hcount : 0 < suf.countP Act.isRun := by omega
  constructor
  · intro hstopped hpending
    have hs := hstopped.status
    rw [hexec, stopPush_of_pending hpending] at hs
    exact exec_start_status hpending.2 hsuf (Or.inr hcount) hs
  · intro hpending
    have hr := stopPush_runStatus hpending
    have hs := exec_exit_status hr hsuf (Or.inr hcount)
    have hnull := (handleInv_exec (pre ++ .stopPush :: suf)).null
    rw [← hexec] at hs
    refine ⟨hs, hnull (Or.inr hs), fun more hmore => ?_⟩
    rw [exec_of_stopped hs (by rw [hexec, exec_runStatus hsuf]; exact hr) hmore]

theorem last_stop_wins_connected :
    Stopped (new.exec ([.startPush, .run ⟨true, 0, 0, 0⟩, .run ⟨true, 0, 0, 0⟩] ++
      .stopPush :: [.run ⟨true, 0, 0, 0⟩, .run ⟨true, 0, 0, 0⟩])) :=
  (last_stop_wins_iff _ _ (by decide) (by decide)).2 fun h => absurd h.1 (by decide)

/-- A stop right after the start is lost: two turns later the object has
connected. -/
theorem last_stop_lost :
    ∃ pre suf : List Act, (∀ a ∈ suf, a.isControl = false) ∧
      2 ≤ suf.countP Act.isRun ∧ ¬ Stopped (new.exec (pre ++ .stopPush :: suf)) :=
  ⟨[.startPush], [.run ⟨true, 0, 0, 0⟩, .run ⟨true, 0, 0, 0⟩], by decide, by decide,
    fun h => absurd h.status (by decide)⟩

end CRtmpPush

end IotCamera
