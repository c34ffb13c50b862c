import IotCamera.Rtmp.Threads
import IotCamera.Proofs.RtmpHandle

/-!
# What the interleaved pusher still keeps

Only the loop assigns `_rtmp`, and the only value another thread ever assigns
to `status` is CONNERR. So at each statement of the loop two things are
known whatever the others do: how the handle variable stands (`LoopPc.held`)
and which values the status byte can have, one of them always CONNERR
(`LoopPc.statuses`). That is the invariant of the file. It holds in every
interleaving, races included, and it says that connections are still opened
one at a time and destroyed once: what the missing lock breaks is who uses
them and why they are torn down, and that is `RtmpRace.lean`.

The last section closes the gap to the calls of `Rtmp/Push.lean`: a turn of
the loop that nobody interrupts is one turn there, a call that nobody
interrupts is one call, so every run of the one model is a run of the other.
-/

namespace IotCamera

open Trace Lts

/-- How `_rtmp` stands at a statement of the loop. -/
inductive Held
  | null
  | live
  /-- NULL or live -/
  | either
  /-- destroyed and not yet cleared -/
  | dangling
  /-- as between two steps of the uninterrupted object -/
  | byStatus
  deriving DecidableEq

def LoopPc.held : LoopPc → Held
  | .switch | .exitTest | .cleanupTest .runExit => .byStatus
  | .startTest | .setConnInit | .create | .reconnect | .setStopPush => .null
  | .setTimeout | .handshake | .connectApp | .publishStream | .setConnected
  | .destroy _ => .live
  | .cleanupTest .openFailed | .cleanupTest .connErr => .either
  | .clear _ => .dangling

def Status.all : List Status := [.connInit, .connected, .connErr, .stopPush]

theorem Status.mem_all (status : Status) : status ∈ Status.all := by
  cases status <;> decide

/-- The values `status` can have at a statement of the loop. -/
def LoopPc.statuses : LoopPc → List Status
  | .switch | .exitTest | .cleanupTest .runExit | .setStopPush => Status.all
  | .startTest | .setConnInit => [.stopPush, .connErr]
  | .create | .setTimeout | .handshake | .connectApp | .publishStream
  | .setConnected | .cleanupTest .openFailed | .destroy .openFailed
  | .clear .openFailed => [.connInit, .connErr]
  | .cleanupTest .connErr | .destroy .connErr | .clear .connErr | .reconnect =>
      [.connErr]
  | .destroy .runExit | .clear .runExit => [.connected, .connErr]

open CRtmpPush (TraceInv Act new)

/-- The meaning of `Held` for the fields of the object. -/
def Held.Ok (p : CRtmpPush) : Held → Prop
  | .null => TraceInv p ∧ p.rtmp = none
  | .live => TraceInv p ∧ p.rtmp ≠ none
  | .either => TraceInv p
  | .dangling => TraceInv { p with rtmp := none } ∧ p.rtmp ≠ none
  | .byStatus => TraceInv p ∧
      (p.status = .connected → p.rtmp ≠ none) ∧
      (p.status = .connInit ∨ p.status = .stopPush → p.rtmp = none)

namespace Threads

variable {s s' : Threads} {l : Label}

structure LoopInv (s : Threads) : Prop where
  held : s.loop.held.Ok s.obj
  status : s.obj.status ∈ s.loop.statuses

theorem loopInv_init : LoopInv init :=
  ⟨⟨CRtmpPush.traceInv_new, nofun, fun _ => rfl⟩, by decide⟩

/-- A destroyed handle leaves no live one, in whichever state it dangles. -/
theorem LoopInv.owns_none (h : LoopInv s)
    (hheld : s.loop.held = .dangling ∨ s.loop.held = .null) :
    srs.Owns s.obj.calls none := by
  have hok := h.held
  rcases hheld with hheld | hheld <;> rw [hheld] at hok
  · exact hok.1.owns
  · exact hok.2 ▸ hok.1.owns

/-- Anywhere else the variable and the trace agree. -/
theorem LoopInv.traceInv (h : LoopInv s) (hheld : s.loop.held ≠ .dangling) :
    TraceInv s.obj := by
  have hok := h.held
  cases hd : s.loop.held <;> rw [hd] at hok
  case dangling => exact absurd hd hheld
  case either => exact hok
  all_goals exact hok.1

/-! ## Steps of the other threads -/

theorem connErr_mem_statuses (pc : LoopPc) : .connErr ∈ pc.statuses := by
  cases pc with
  | cleanupTest site | destroy site | clear site => cases site <;> decide
  | _ => decide

theorem LoopInv.setConnErr (h : LoopInv s) : LoopInv (s.setStatus .connErr) := by
  refine ⟨?_, connErr_mem_statuses _⟩
  have hok := h.held
  show s.loop.held.Ok { s.obj with status := .connErr }
  cases hd : s.loop.held <;> rw [hd] at hok
  case either => exact hok.congr rfl rfl
  case byStatus => exact ⟨hok.1.congr rfl rfl, nofun, nofun⟩
  all_goals exact ⟨hok.1.congr rfl rfl, hok.2⟩

theorem LoopInv.write (h : LoopInv s) (w : Writer) (wret : Int) :
    LoopInv (s.call (.write w s.obj.rtmp wret)) := by
  refine ⟨?_, h.status⟩
  have hok := h.held
  show s.loop.held.Ok (s.obj.call (.write w s.obj.rtmp wret))
  cases hd : s.loop.held <;> rw [hd] at hok
  case either => exact hok.call (fun _ => nofun) rfl
  case dangling =>
    exact ⟨(hok.1.call (c := .write w s.obj.rtmp wret) (fun _ => nofun) rfl).congr
      rfl rfl, hok.2⟩
  all_goals exact ⟨hok.1.call (fun _ => nofun) rfl, hok.2⟩

theorem LoopInv.congr (h : LoopInv s) (hloop : s'.loop = s.loop)
    (hrtmp : s'.obj.rtmp = s.obj.rtmp) (hstatus : s'.obj.status = s.obj.status)
    (hcalls : s'.obj.calls = s.obj.calls) : LoopInv s' := by
  refine ⟨?_, by rw [hloop, hstatus]; exact h.status⟩
  have hok := h.held
  rw [hloop]
  cases hd : s.loop.held <;> rw [hd] at hok <;>
    simp only [Held.Ok, hrtmp, hstatus] at hok ⊢
  case either => exact hok.congr hrtmp hcalls
  case dangling => exact ⟨hok.1.congr rfl hcalls, hok.2⟩
  all_goals exact ⟨hok.1.congr hrtmp hcalls, hok.2⟩

theorem LoopInv.writerStep (h : LoopInv s) (w : Writer) (wret : Int) :
    LoopInv (s.writerStep w wret) := by
  unfold Threads.writerStep
  split
  · exact h.congr rfl rfl rfl rfl
  · exact (h.write w wret).congr rfl rfl rfl rfl
  · exact h.setConnErr.congr rfl rfl rfl rfl

/-! ## Steps of the loop -/

theorem LoopInv.call (h : LoopInv s) {c : Call} {pc : LoopPc}
    (hcreate : ∀ res, c ≠ .create res) (hclose : srs.closes c = none)
    (hlive : s.loop.held = .live) (hheld : pc.held = .live ∨ pc.held = .either)
    (hstatus : s.obj.status ∈ pc.statuses) : LoopInv ((s.call c).goto pc) := by
  refine ⟨?_, hstatus⟩
  have hok := h.held
  rw [hlive] at hok
  have htr := hok.1.call hcreate hclose
  show pc.held.Ok (s.obj.call c)
  rcases hheld with hheld | hheld <;> rw [hheld]
  · exact ⟨htr, hok.2⟩
  · exact htr

theorem LoopInv.switch (h : LoopInv s) (hpc : s.loop = .switch) :
    LoopInv (s.goto s.obj.status.branch) := by
  have hok := h.held
  rw [hpc] at hok
  obtain ⟨htr, hconn, hnull⟩ := hok
  have hmem : s.obj.status ∈ s.obj.status.branch.statuses := by
    cases s.obj.status <;> decide
  refine ⟨?_, hmem⟩
  cases hs : s.obj.status
  case connected => exact ⟨htr, hconn, hnull⟩
  case connErr => exact htr
  case connInit => exact ⟨htr, hnull (Or.inl hs)⟩
  case stopPush => exact ⟨htr, hnull (Or.inr hs)⟩

/-- Without a handle every status but CONNECTED is right between two steps. -/
theorem Held.Ok.byStatus {p : CRtmpPush} (h : Held.null.Ok p) (hne : p.status ≠ .connected) :
    Held.byStatus.Ok p :=
  ⟨h.1, fun hs => absurd hs hne, fun _ => h.2⟩

theorem LoopInv.cleanupTest {site : Site} (h : LoopInv s) (hpc : s.loop = .cleanupTest site) :
    LoopInv (s.goto (if s.obj.rtmp ≠ none then .destroy site else site.next)) := by
  have htr := h.traceInv (by rw [hpc]; cases site <;> decide)
  obtain ⟨hok, hstatus⟩ := h
  rw [hpc] at hok hstatus
  split
  · next hne =>
      refine ⟨⟨htr, hne⟩, ?_⟩
      cases site
      case runExit =>
        obtain ⟨-, -, hnull⟩ := hok
        simp only [goto, LoopPc.statuses] at hstatus ⊢
        cases hs : s.obj.status
        case connected | connErr => decide
        case connInit => exact absurd (hnull (Or.inl hs)) hne
        case stopPush => exact absurd (hnull (Or.inr hs)) hne
      all_goals exact hstatus
  · next hnull =>
      have hnull : s.obj.rtmp = none := Decidable.not_not.1 hnull
      cases site
      case openFailed =>
        refine ⟨Held.Ok.byStatus ⟨htr, hnull⟩ fun hs => ?_, Status.mem_all _⟩
        rw [show s.obj.status = .connected from hs] at hstatus
        exact absurd hstatus (by decide)
      all_goals exact ⟨⟨htr, hnull⟩, hstatus⟩

theorem LoopInv.clear {site : Site} (h : LoopInv s) (hpc : s.loop = .clear site) :
    LoopInv { s with obj := { s.obj with rtmp := none }, loop := site.next } := by
  obtain ⟨hok, hstatus⟩ := h
  rw [hpc] at hok hstatus
  cases site
  case openFailed =>
    refine ⟨Held.Ok.byStatus ⟨hok.1, rfl⟩ fun hs => ?_, Status.mem_all _⟩
    rw [show s.obj.status = .connected from hs] at hstatus
    exact absurd hstatus (by decide)
  case connErr => exact ⟨⟨hok.1, rfl⟩, hstatus⟩
  case runExit => exact ⟨⟨hok.1, rfl⟩, Status.mem_all _⟩

theorem LoopInv.loopStep (h : LoopInv s) (created : Bool) (ret : Int) :
    LoopInv (s.loopStep created ret) := by
  obtain ⟨hok, hstatus⟩ := id h
  cases hpc : s.loop with
  | switch =>
      simp only [Threads.loopStep, hpc]
      exact h.switch hpc
  | startTest =>
      simp only [Threads.loopStep, hpc]
      rw [hpc] at hok hstatus
      split
      · exact ⟨hok, hstatus⟩
      · refine ⟨Held.Ok.byStatus hok fun hs => ?_, Status.mem_all _⟩
        rw [show s.obj.status = .connected from hs] at hstatus
        exact absurd hstatus (by decide)
  | create =>
      simp only [Threads.loopStep, hpc]
      rw [hpc] at hok hstatus
      have htr := hok.1.create hok.2 created
      split
      · exact ⟨htr, hstatus⟩
      · next hne => exact ⟨⟨htr, hne⟩, hstatus⟩
  | setTimeout =>
      simp only [Threads.loopStep, hpc]
      rw [hpc] at hstatus
      exact h.call (fun _ => nofun) rfl (by rw [hpc]; rfl) (Or.inl rfl) hstatus
  | handshake =>
      simp only [Threads.loopStep, hpc]
      rw [hpc] at hstatus
      split
      · exact h.call (fun _ => nofun) rfl (by rw [hpc]; rfl) (Or.inr rfl) hstatus
      · exact h.call (fun _ => nofun) rfl (by rw [hpc]; rfl) (Or.inl rfl) hstatus
  | connectApp =>
      simp only [Threads.loopStep, hpc]
      rw [hpc] at hstatus
      split
      · exact h.call (fun _ => nofun) rfl (by rw [hpc]; rfl) (Or.inr rfl) hstatus
      · exact h.call (fun _ => nofun) rfl (by rw [hpc]; rfl) (Or.inl rfl) hstatus
  | publishStream =>
      simp only [Threads.loopStep, hpc]
      rw [hpc] at hstatus
      split
      · exact h.call (fun _ => nofun) rfl (by rw [hpc]; rfl) (Or.inl rfl) hstatus
      · exact h.call (fun _ => nofun) rfl (by rw [hpc]; rfl) (Or.inr rfl) hstatus
  | setConnected =>
      simp only [Threads.loopStep, hpc]
      rw [hpc] at hok
      exact ⟨⟨hok.1.congr rfl rfl, fun _ => hok.2, nofun⟩, Status.mem_all _⟩
  | cleanupTest site =>
      simp only [Threads.loopStep, hpc]
      exact h.cleanupTest hpc
  | destroy site =>
      simp only [Threads.loopStep, hpc]
      rw [hpc] at hok hstatus
      obtain ⟨k, hk⟩ := Option.ne_none_iff_exists'.1 hok.2
      refine ⟨⟨hok.1.destroy hk site, hok.2⟩, ?_⟩
      cases site <;> exact hstatus
  | clear site =>
      simp only [Threads.loopStep, hpc]
      exact h.clear hpc
  | setConnInit | reconnect | setStopPush =>
      simp only [Threads.loopStep, hpc]
      rw [hpc] at hok
      exact ⟨Held.Ok.byStatus ⟨hok.1.congr rfl rfl, hok.2⟩ nofun, Status.mem_all _⟩
  | exitTest =>
      simp only [Threads.loopStep, hpc]
      rw [hpc] at hok hstatus
      split <;> exact ⟨hok, hstatus⟩

/-! ## All interleavings -/

theorem step_control (hs : step s l = some s') (hl : ∀ b r, l ≠ .loop b r)
    (hw : ∀ w r, l ≠ .writer w r) :
    s'.loop = s.loop ∧ s'.writer = s.writer ∧ s'.obj.rtmp = s.obj.rtmp ∧
      s'.obj.status = s.obj.status ∧ s'.obj.calls = s.obj.calls := by
  cases l with
  | loop b r => exact absurd rfl (hl b r)
  | writer w r => exact absurd rfl (hw w r)
  | startPush | setExit =>
      simp only [step] at hs
      split at hs
      all_goals cases hs
      exact ⟨rfl, rfl, rfl, rfl, rfl⟩
  | stopPush =>
      simp only [step] at hs
      split at hs
      · split at hs <;> cases hs <;> exact ⟨rfl, rfl, rfl, rfl, rfl⟩
      · cases hs

theorem LoopInv.step (h : LoopInv s) (hs : Threads.step s l = some s') : LoopInv s' := by
  cases l with
  | loop b r => cases hs; exact h.loopStep b r
  | writer w r => cases hs; exact h.writerStep w r
  | startPush | stopPush | setExit =>
      obtain ⟨hloop, -, hrtmp, hstatus, hcalls⟩ :=
        step_control hs (fun _ _ => nofun) (fun _ _ => nofun)
      exact h.congr hloop hrtmp hstatus hcalls

theorem loopInv_run {ls : List Label} (hrun : Run step init ls s) : LoopInv s :=
  hrun.invariant (fun _ _ _ h hs => h.step hs) loopInv_init

/-! ## Nobody interrupts

The states are written out as their four fields, because a turn of the loop
leaves the other two threads where they are. -/

section Solo

variable {p : CRtmpPush} {wr : Writer → WriterPc} {ctl : ControlPc}

theorem reach_loop (created : Bool) (ret : Int) (h : s.loopStep created ret = s') :
    Reachable step s s' :=
  (Reachable.refl s).next (a := Label.loop created ret) (congrArg some h)

theorem reach_cleanup (site : Site) :
    Reachable step ⟨p, .cleanupTest site, wr, ctl⟩ ⟨p.cleanup site, site.next, wr, ctl⟩ := by
  by_cases h : p.rtmp = none
  · refine reach_loop true 0 ?_
    simp [loopStep, goto, CRtmpPush.cleanup, h]
  · have h₁ : Reachable step ⟨p, .cleanupTest site, wr, ctl⟩ ⟨p, .destroy site, wr, ctl⟩ :=
      reach_loop true 0 (by simp [loopStep, goto, h])
    have h₂ : Reachable step ⟨p, .destroy site, wr, ctl⟩
        ⟨p.call (.destroy p.rtmp site), .clear site, wr, ctl⟩ := reach_loop true 0 rfl
    refine (h₁.trans h₂).trans (reach_loop true 0 ?_)
    simp [loopStep, CRtmpPush.cleanup, h]

theorem reach_checkRunStatus :
    Reachable step ⟨p, .exitTest, wr, ctl⟩ ⟨p.checkRunStatus, .switch, wr, ctl⟩ := by
  by_cases h : p.runStatus = .exit
  · have h₁ : Reachable step ⟨p, .exitTest, wr, ctl⟩ ⟨p, .cleanupTest .runExit, wr, ctl⟩ :=
      reach_loop true 0 (by simp [loopStep, goto, h])
    refine (h₁.trans (reach_cleanup .runExit)).trans (reach_loop true 0 ?_)
    simp [loopStep, goto, setStatus, Site.next, CRtmpPush.checkRunStatus, h,
      CRtmpPush.deinit]
  · refine reach_loop true 0 ?_
    simp [loopStep, goto, CRtmpPush.checkRunStatus, h]

theorem reach_openUrl (o : OpenOutcome) :
    Reachable step ⟨p, .create, wr, ctl⟩
      ⟨(p.openUrl o).2,
        if (p.openUrl o).1 = 0 then .setConnected else .cleanupTest .openFailed, wr, ctl⟩ := by
  have h₁ : Reachable step ⟨p, .create, wr, ctl⟩
      ⟨p.create o.created,
        if (p.create o.created).rtmp = none then .cleanupTest .openFailed else .setTimeout,
        wr, ctl⟩ := reach_loop o.created 0 rfl
  refine h₁.trans ?_
  simp only [CRtmpPush.openUrl]
  generalize p.create o.created = p
  split
  · exact Reachable.refl _
  · -- one statement for each call, with its own answer
    have h₂ : Reachable step ⟨p, .setTimeout, wr, ctl⟩
        ⟨(p.call (.setTimeout p.rtmp)).call (.handshake p.rtmp),
          if o.handshake ≠ 0 then .cleanupTest .openFailed else .connectApp, wr, ctl⟩ :=
      (reach_loop true 0 rfl).trans (reach_loop true o.handshake rfl)
    refine h₂.trans ?_
    split
    · exact Reachable.refl _
    · refine (reach_loop true o.connectApp rfl).trans ?_
      simp only [loopStep, Threads.call, goto, CRtmpPush.call_rtmp]
      split
      · exact Reachable.refl _
      · exact reach_loop true o.publishStream rfl

/-- A turn of the loop that nobody interrupts is a turn of the object. -/
theorem reach_runIter (o : OpenOutcome) :
    Reachable step ⟨p, .switch, wr, ctl⟩ ⟨p.runIter o, .switch, wr, ctl⟩ := by
  have h₁ : Reachable step ⟨p, .switch, wr, ctl⟩ ⟨p, p.status.branch, wr, ctl⟩ :=
    reach_loop true 0 rfl
  refine h₁.trans ?_
  cases hs : p.status <;> simp only [CRtmpPush.runIter, hs, Status.branch]
  case stopPush =>
    split
    · next hr =>
        have h₂ : Reachable step ⟨p, .startTest, wr, ctl⟩ ⟨p, .setConnInit, wr, ctl⟩ :=
          reach_loop true 0 (by simp [loopStep, goto, hr])
        exact h₂.trans (reach_loop true 0 rfl)
    · next hr => exact reach_loop true 0 (by simp [loopStep, goto, hr])
  case connInit =>
    rw [CRtmpPush.init_eq]
    refine (reach_openUrl o).trans ?_
    split
    · exact (reach_loop true 0 rfl).trans reach_checkRunStatus
    · exact (reach_cleanup .openFailed).trans reach_checkRunStatus
  case connected => exact reach_checkRunStatus
  case connErr =>
    refine (reach_cleanup .connErr).trans ?_
    exact (reach_loop true 0 rfl).trans reach_checkRunStatus

theorem setWriter_idle {s : Threads} (h : s.writer = fun _ => .test) (w : Writer) :
    s.setWriter w .test = s := by
  obtain ⟨p, pc, wr, ctl⟩ := s
  simp only [setWriter, Threads.mk.injEq, true_and, and_true]
  funext v
  rw [show wr = fun _ => .test from h]
  simp

theorem reach_writeRaw (w : Writer) (wret : Int) (pc : LoopPc) :
    Reachable step ⟨p, pc, fun _ => .test, ctl⟩
      ⟨p.writeRaw w wret, pc, fun _ => .test, ctl⟩ := by
  have hstep : ∀ s s' : Threads, s.writerStep w wret = s' → Reachable step s s' :=
    fun s s' h => (Reachable.refl s).next (a := Label.writer w wret) (congrArg some h)
  have hidle : ∀ x : WriterPc,
      (fun v => if v = w then WriterPc.test else if v = w then x else .test) =
        fun _ => WriterPc.test := by
    intro x
    funext v
    split <;> rfl
  by_cases h : p.status = .connected
  · refine (hstep _ ⟨p, pc, fun v => if v = w then .call else .test, ctl⟩ ?_).trans ?_
    · simp [writerStep, setWriter, h]
    by_cases hret : wret = writeErr
    · refine (hstep _ ⟨p.call (.write w p.rtmp wret), pc,
        fun v => if v = w then .setConnErr p.rtmp else .test, ctl⟩ ?_).trans (hstep _ _ ?_)
      · simp only [writerStep, setWriter, Threads.call, if_true, if_pos hret]
        congr 1
        funext v
        split <;> rfl
      · simp only [writerStep, setWriter, setStatus, if_true, CRtmpPush.writeRaw, if_pos h,
          if_pos hret]
        rw [hidle (.setConnErr p.rtmp)]
    · refine hstep _ _ ?_
      simp only [writerStep, setWriter, Threads.call, if_true, CRtmpPush.writeRaw, if_pos h,
        if_neg hret]
      rw [hidle .call]
  · refine hstep _ _ ?_
    simp only [writerStep, CRtmpPush.writeRaw, if_neg h]
    exact setWriter_idle rfl w

theorem reach_act (a : Act) :
    Reachable step ⟨p, .switch, fun _ => .test, .idle⟩
      ⟨p.step a, .switch, fun _ => .test, .idle⟩ := by
  cases a with
  | startPush => exact (Reachable.refl _).next (a := .startPush) rfl
  | stopPush =>
      by_cases h : p.status = .stopPush
      · refine (Reachable.refl _).next (a := .stopPush) ?_
        simp [step, CRtmpPush.step, CRtmpPush.stopPush, h]
      · have h₁ : Reachable step ⟨p, .switch, fun _ => .test, .idle⟩
            ⟨p, .switch, fun _ => .test, .setExit⟩ :=
          (Reachable.refl _).next (a := .stopPush) (by simp [step, h])
        refine h₁.next (a := .setExit) ?_
        cases hs : p.status with
        | stopPush => exact absurd hs h
        | connInit | connected | connErr =>
            simp [step, setRunStatus, CRtmpPush.step, CRtmpPush.stopPush, hs]
  | writeH264RawData wret => exact reach_writeRaw .video wret .switch
  | writeAACRawData wret => exact reach_writeRaw .audio wret .switch
  | run o => exact reach_runIter o

end Solo

theorem exec_reachable (acts : List Act) :
    Reachable step init ⟨new.exec acts, .switch, fun _ => .test, .idle⟩ := by
  have hmain : ∀ (acts : List Act) (p : CRtmpPush),
      Reachable step ⟨p, .switch, fun _ => .test, .idle⟩
        ⟨p.exec acts, .switch, fun _ => .test, .idle⟩ := by
    intro acts
    induction acts with
    | nil => exact fun p => Reachable.refl _
    | cons a acts ih => exact fun p => (reach_act a).trans (ih (p.step a))
  exact hmain acts new

end Threads

end IotCamera
