import IotCamera.Rtmp.Push

/-!
# The handle invariant of the RTMP pusher

Between any two steps the status byte tells whether there is a connection:
CONNECTED and CONNERR come with a live handle in `_rtmp`, CONNINIT and
STOPPUSH with NULL. Two facts carry it. The trace and the variable agree at
every point inside a step, not only between steps (`TraceInv`), because each
statement of the source that touches a handle keeps them in agreement on its
own. And a turn of the loop reaches `srs_rtmp_create` from CONNINIT only,
where the variable is empty.

The invariant mentions `run_status` nowhere, so the control calls keep it for
free; what they do to the state is `RtmpStop.lean`.
-/

namespace IotCamera

open Trace

namespace CRtmpPush

variable {p q r : CRtmpPush} {c : Call} {site : Site}

@[simp] theorem call_rtmp : (p.call c).rtmp = p.rtmp := rfl
@[simp] theorem call_status : (p.call c).status = p.status := rfl
@[simp] theorem call_runStatus : (p.call c).runStatus = p.runStatus := rfl
@[simp] theorem call_calls : (p.call c).calls = p.calls ++ [c] := rfl

@[simp] theorem cleanup_rtmp : (p.cleanup site).rtmp = none := by
  unfold cleanup
  split
  · rfl
  · next h => exact Decidable.not_not.1 h

@[simp] theorem cleanup_status : (p.cleanup site).status = p.status := by
  unfold cleanup
  split <;> rfl

@[simp] theorem cleanup_runStatus : (p.cleanup site).runStatus = p.runStatus := by
  unfold cleanup
  split <;> rfl

theorem cleanup_of_none (h : p.rtmp = none) : p.cleanup site = p := by
  simp [cleanup, h]

@[simp] theorem openUrl_status {o : OpenOutcome} :
    (p.openUrl o).2.status = p.status := by
  simp only [openUrl]
  repeat' split
  all_goals rfl

@[simp] theorem openUrl_runStatus {o : OpenOutcome} :
    (p.openUrl o).2.runStatus = p.runStatus := by
  simp only [openUrl]
  repeat' split
  all_goals rfl

theorem init_eq {o : OpenOutcome} : p.init o = p.openUrl o := by
  simp only [init]
  split
  · rfl
  · next h => exact Prod.ext (Decidable.not_not.1 h).symm rfl

/-! ## Steps that write nothing

The loop never writes a frame, so a turn of it continues the trace with other
calls only. -/

/-- `q` continues the trace of `p` without a write. -/
def Quiet (p q : CRtmpPush) : Prop :=
  ∃ ext, q.calls = p.calls ++ ext ∧ ∀ c ∈ ext, srs.uses c = none

theorem Quiet.refl (h : q.calls = p.calls) : Quiet p q :=
  ⟨[], by simp [h], nofun⟩

theorem Quiet.trans (h : Quiet p q) (h' : Quiet q r) : Quiet p r := by
  obtain ⟨as, has, hw⟩ := h
  obtain ⟨bs, hbs, hw'⟩ := h'
  refine ⟨as ++ bs, by rw [hbs, has, List.append_assoc], fun c hc => ?_⟩
  rcases List.mem_append.1 hc with hc | hc
  · exact hw c hc
  · exact hw' c hc

theorem Quiet.call (hc : srs.uses c = none) : Quiet p (p.call c) :=
  ⟨[c], rfl, by simpa using hc⟩

theorem Quiet.cleanup (site : Site) : Quiet p (p.cleanup site) := by
  unfold CRtmpPush.cleanup
  split
  · exact (Quiet.call rfl).trans (.refl rfl)
  · exact .refl rfl

theorem Quiet.checkRunStatus : Quiet p p.checkRunStatus := by
  unfold CRtmpPush.checkRunStatus
  split
  · exact (Quiet.cleanup .runExit).trans (.refl rfl)
  · exact .refl rfl

theorem Quiet.openUrl (o : OpenOutcome) : Quiet p (p.openUrl o).2 := by
  have h₁ : Quiet p (p.create o.created) := (Quiet.call rfl).trans (.refl rfl)
  have h₂ := h₁.trans (.call (c := .setTimeout (p.create o.created).rtmp) rfl)
  have h₃ := h₂.trans (.call (c := .handshake (p.create o.created).rtmp) rfl)
  have h₄ := h₃.trans (.call (c := .connectApp (p.create o.created).rtmp) rfl)
  simp only [CRtmpPush.openUrl]
  split
  · exact h₁
  · split
    · exact h₃
    · split
      · exact h₄
      · exact h₄.trans (.call rfl)

theorem Quiet.runIter (o : OpenOutcome) : Quiet p (p.runIter o) := by
  cases hs : p.status <;> simp only [CRtmpPush.runIter, hs]
  case stopPush => split <;> exact .refl rfl
  case connInit =>
    rw [init_eq]
    refine Quiet.trans ?_ Quiet.checkRunStatus
    split
    · exact (Quiet.openUrl o).trans (.refl rfl)
    · exact (Quiet.openUrl o).trans (Quiet.cleanup .openFailed)
  case connected => exact Quiet.checkRunStatus
  case connErr =>
    refine Quiet.trans ?_ Quiet.checkRunStatus
    exact (Quiet.cleanup .connErr).trans (.refl rfl)

theorem Quiet.usesLive (h : Quiet p q) (hp : srs.UsesLive p.calls) :
    srs.UsesLive q.calls := by
  obtain ⟨ext, hext, hw⟩ := h
  rw [hext]
  exact Ledger.usesLive_append hp hw

/-! ## The trace and the variable -/

/-- What holds at every point of every call: the trace obeys the handle
discipline, `_rtmp` is its one live handle, and no connection was opened
while another was live. -/
structure TraceInv (p : CRtmpPush) : Prop where
  obeys : srs.Obeys p.calls
  numbered : srs.Numbered p.calls
  owns : srs.Owns p.calls p.rtmp
  quiet : Always (fun pre c => ∀ res, c = .create res → srs.Owns pre none) p.calls

theorem traceInv_new : TraceInv new :=
  ⟨Ledger.obeys_nil, Ledger.numbered_nil, Ledger.owns_nil, always_nil⟩

theorem TraceInv.congr (h : TraceInv p) (hrtmp : q.rtmp = p.rtmp)
    (hcalls : q.calls = p.calls) : TraceInv q := by
  obtain ⟨hobeys, hnum, howns, hquiet⟩ := h
  rw [← hcalls] at hobeys hnum howns hquiet
  rw [← hrtmp] at howns
  exact ⟨hobeys, hnum, howns, hquiet⟩

theorem TraceInv.call (h : TraceInv p) (hcreate : ∀ res, c ≠ .create res)
    (hclose : srs.closes c = none) : TraceInv (p.call c) := by
  have hopen : srs.opens c = none := by
    cases c with
    | create res => exact absurd rfl (hcreate res)
    | setTimeout | handshake | connectApp | publishStream | write | destroy => rfl
  refine ⟨Ledger.obeys_snoc.2 ⟨h.obeys, .of_neutral hopen hclose⟩,
    h.numbered.snoc_neutral hopen, h.owns.snoc_neutral hopen hclose,
    always_snoc.2 ⟨h.quiet, ?_⟩⟩
  intro res hres
  exact absurd hres (hcreate res)

theorem TraceInv.create (h : TraceInv p) (hnull : p.rtmp = none) (b : Bool) :
    TraceInv (p.create b) := by
  have howns : srs.Owns p.calls none := hnull ▸ h.owns
  cases b with
  | false =>
      exact ⟨Ledger.obeys_snoc.2 ⟨h.obeys, .of_neutral rfl rfl⟩,
        h.numbered.snoc_neutral rfl, howns.snoc_neutral rfl rfl,
        always_snoc.2 ⟨h.quiet, fun _ _ => howns⟩⟩
  | true =>
      refine ⟨Ledger.obeys_snoc.2 ⟨h.obeys, ?_, nofun⟩, h.numbered.snoc_open rfl,
        howns.snoc_open h.obeys rfl rfl h.numbered.fresh,
        always_snoc.2 ⟨h.quiet, fun _ _ => howns⟩⟩
      intro k hk
      cases hk
      exact h.numbered.fresh

/-- Destroying the handle in the variable, before the variable is cleared. -/
theorem TraceInv.destroy {k : Handle} (h : TraceInv p) (hk : p.rtmp = some k)
    (site : Site) : TraceInv { p.call (.destroy p.rtmp site) with rtmp := none } := by
  have howns : srs.Owns p.calls (some k) := hk ▸ h.owns
  have hclose : srs.closes (.destroy p.rtmp site) = some k := hk
  refine ⟨Ledger.obeys_snoc.2 ⟨h.obeys, nofun, ?_⟩, h.numbered.snoc_neutral rfl,
    howns.snoc_close rfl hclose, always_snoc.2 ⟨h.quiet, fun _ => nofun⟩⟩
  intro j hj
  rw [hclose] at hj
  cases hj
  exact howns.live

theorem TraceInv.cleanup (h : TraceInv p) (site : Site) :
    TraceInv (p.cleanup site) := by
  cases hr : p.rtmp with
  | none => rw [cleanup_of_none hr]; exact h
  | some k =>
      rw [CRtmpPush.cleanup, if_pos (by simp [hr])]
      exact h.destroy hr site

/-- `open_url` from an empty `_rtmp`. It leaves a handle behind whenever
`srs_rtmp_create` gave one, so an answer of zero comes with a handle. -/
theorem openUrl_spec (h : TraceInv p) (hnull : p.rtmp = none) (o : OpenOutcome) :
    TraceInv (p.openUrl o).2 ∧
      ((p.openUrl o).1 = 0 → (p.openUrl o).2.rtmp ≠ none) := by
  have h₁ := h.create hnull o.created
  have h₂ := h₁.call (c := .setTimeout (p.create o.created).rtmp)
    (fun _ => nofun) rfl
  have h₃ := h₂.call (c := .handshake (p.create o.created).rtmp)
    (fun _ => nofun) rfl
  have h₄ := h₃.call (c := .connectApp (p.create o.created).rtmp)
    (fun _ => nofun) rfl
  have h₅ := h₄.call (c := .publishStream (p.create o.created).rtmp)
    (fun _ => nofun) rfl
  simp only [openUrl]
  split
  · exact ⟨h₁, fun hret => absurd (show (-1 : Int) = 0 from hret) (by decide)⟩
  · next hne =>
      split
      · next hhs => exact ⟨h₃, fun hret => absurd hret hhs⟩
      · split
        · next hca => exact ⟨h₄, fun hret => absurd hret hca⟩
        · exact ⟨h₅, fun _ => hne⟩

/-! ## Between steps -/

/-- The invariant of the object between steps. -/
structure HandleInv (p : CRtmpPush) : Prop extends TraceInv p where
  uses : srs.UsesLive p.calls
  handle : p.status = .connected ∨ p.status = .connErr → p.rtmp ≠ none
  null : p.status = .connInit ∨ p.status = .stopPush → p.rtmp = none

theorem handleInv_new : HandleInv new :=
  ⟨traceInv_new, always_nil, nofun, fun _ => rfl⟩

theorem HandleInv.of_null (h : TraceInv p) (huses : srs.UsesLive p.calls)
    (hnull : p.rtmp = none) (hstatus : p.status = .connInit ∨ p.status = .stopPush) :
    HandleInv p := by
  refine ⟨h, huses, fun hs => ?_, fun _ => hnull⟩
  rcases hs with hs | hs <;> rcases hstatus with h' | h' <;> rw [hs] at h' <;> cases h'

theorem HandleInv.checkRunStatus (h : HandleInv p) : HandleInv p.checkRunStatus := by
  have huses := Quiet.checkRunStatus.usesLive h.uses
  unfold CRtmpPush.checkRunStatus at huses ⊢
  split
  · next hexit =>
      rw [if_pos hexit] at huses
      refine .of_null ?_ huses cleanup_rtmp (Or.inr rfl)
      exact (h.toTraceInv.cleanup .runExit).congr rfl rfl
  · exact h

theorem HandleInv.runIter (h : HandleInv p) (o : OpenOutcome) :
    HandleInv (p.runIter o) := by
  cases hs : p.status with
  | stopPush =>
      simp only [CRtmpPush.runIter, hs]
      split
      · exact .of_null (h.toTraceInv.congr rfl rfl) h.uses (h.null (Or.inr hs))
          (Or.inl rfl)
      · exact h
  | connInit =>
      obtain ⟨htr, hrtmp⟩ := openUrl_spec h.toTraceInv (h.null (Or.inl hs)) o
      have huses := (Quiet.openUrl o).usesLive h.uses
      simp only [CRtmpPush.runIter, hs, init_eq]
      refine HandleInv.checkRunStatus ?_
      split
      · next hret =>
          exact ⟨htr.congr rfl rfl, huses, fun _ => hrtmp hret, nofun⟩
      · exact .of_null (htr.cleanup .openFailed) ((Quiet.cleanup _).usesLive huses)
          cleanup_rtmp (Or.inl (by simp [deinit, hs]))
  | connected =>
      simp only [CRtmpPush.runIter, hs]
      exact h.checkRunStatus
  | connErr =>
      simp only [CRtmpPush.runIter, hs]
      refine HandleInv.checkRunStatus (.of_null ?_ ?_ cleanup_rtmp (Or.inl rfl))
      · exact (h.toTraceInv.cleanup .connErr).congr rfl rfl
      · exact (Quiet.cleanup .connErr).usesLive h.uses

theorem HandleInv.writeRaw (h : HandleInv p) (w : Writer) (wret : Int) :
    HandleInv (p.writeRaw w wret) := by
  unfold CRtmpPush.writeRaw
  split
  · next hs =>
      have hne : p.rtmp ≠ none := h.handle (Or.inl hs)
      have htr := h.toTraceInv.call (c := .write w p.rtmp wret) (fun _ => nofun) rfl
      have huses : srs.UsesLive (p.call (.write w p.rtmp wret)).calls := by
        refine always_snoc.2 ⟨h.uses, fun o ho => ?_⟩
        cases ho
        obtain ⟨k, hk⟩ := Option.ne_none_iff_exists'.1 hne
        exact ⟨k, hk, (h.owns k).2 hk⟩
      split
      · exact ⟨htr.congr rfl rfl, huses, fun _ => hne, nofun⟩
      · exact ⟨htr, huses, fun _ => hne, h.null⟩
  · exact h

theorem HandleInv.step (h : HandleInv p) (a : Act) : HandleInv (p.step a) := by
  cases a with
  | startPush => exact ⟨h.toTraceInv.congr rfl rfl, h.uses, h.handle, h.null⟩
  | stopPush =>
      simp only [CRtmpPush.step, CRtmpPush.stopPush]
      split
      · exact h
      · exact ⟨h.toTraceInv.congr rfl rfl, h.uses, h.handle, h.null⟩
  | writeH264RawData wret => exact h.writeRaw .video wret
  | writeAACRawData wret => exact h.writeRaw .audio wret
  | run o => exact h.runIter o

theorem exec_invariant {I : CRtmpPush → Prop} (hnew : I new)
    (hstep : ∀ p a, I p → I (p.step a)) (acts : List Act) : I (new.exec acts) :=
  List.foldlRecOn acts CRtmpPush.step hnew fun p hp a _ => hstep p a hp

theorem handleInv_exec (acts : List Act) : HandleInv (new.exec acts) :=
  exec_invariant handleInv_new (fun _ a h => h.step a) acts

/-- After every sequence of control calls, writes and turns of the loop, with
every answer of the library: CONNECTED and CONNERR come with a live handle
and the other two states with NULL, no connection is opened while one is
live, none is destroyed twice, and every write is made on a live one. -/
theorem rtmp_handle_invariant (acts : List Act) :
    let p := new.exec acts
    (p.status = .connected ∨ p.status = .connErr →
      ∃ h, p.rtmp = some h ∧ srs.Live p.calls h) ∧
    (p.status = .connInit ∨ p.status = .stopPush → p.rtmp = none) ∧
    Always (fun pre c => ∀ res, c = .create res → ∀ h, ¬ srs.Live pre h) p.calls ∧
    (∀ h, p.calls.countP (fun c => decide (srs.closes c = some h)) ≤ 1) ∧
    Always (fun pre c => ∀ w rtmp wret, c = .write w rtmp wret →
      ∃ h, rtmp = some h ∧ srs.Live pre h) p.calls := by
  have h := handleInv_exec acts
  refine ⟨fun hs => ?_, h.null, ?_, h.obeys.closed_once, ?_⟩
  · obtain ⟨k, hk⟩ := Option.ne_none_iff_exists'.1 (h.handle hs)
    exact ⟨k, hk, (h.owns k).2 hk⟩
  · exact h.quiet.mono fun pre c hc res hres k => (hc res hres).not_live
  · refine h.uses.mono fun pre c hc w rtmp wret hw => ?_
    subst hw
    exact hc rtmp rfl

end CRtmpPush

end IotCamera
