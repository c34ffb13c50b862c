import IotCamera.Proofs.RtmpThreads

/-!
# The two races of the pusher

A writer tests `status` and then writes to `_rtmp`; nothing keeps the loop
from destroying the connection in between, or lets the status byte say so
before it has. The first half of the file finds the schedules in which that
happens. A write meets a dead handle only if the loop runs
`srs_rtmp_destroy` while a writer is between its test and its write, or a
writer finds CONNECTED after the destroy and before `status = STOPPUSH`. And
after either of those two steps the very next statement of that writer is a
write to a dead handle, so the condition leaves no slack.

The second half is about the writers' answer. A writer that saw its write
fail assigns `status = CONNERR` one statement later, and by then the status
byte may be about the next connection. As long as no such assignment lands on
a live connection other than the one its write was made on, the loop tears
down from CONNERR only what failed.
-/

namespace IotCamera

open Trace Lts

/-- The statements at which a CONNERR in the status byte is about the
connection in `_rtmp`. At the others the loop is opening a connection, or has
just given one up, and will assign `status` before it looks at it. -/
def LoopPc.settled : LoopPc → Bool
  | .switch | .exitTest => true
  | .cleanupTest site | .destroy site => site != .openFailed
  | _ => false

namespace Threads

open CRtmpPush (TraceInv)

variable {s s' : Threads} {l : Label}

/-! ## Writing to a destroyed connection -/

/-- The step does not pull the connection away from a writer: no connection
is destroyed while a writer is about to write, and no writer goes ahead on a
status that the loop has not taken back yet. -/
def WritersClear (s : Threads) : Label → Prop
  | .loop _ _ => ∀ site, s.loop = .destroy site → ∀ w, s.writer w ≠ .call
  | .writer w _ => s.writer w = .test → s.obj.status = .connected →
      s.loop ≠ .clear .runExit ∧ s.loop ≠ .setStopPush
  | _ => True

instance WritersClear.instDecidable (s : Threads) :
    ∀ l, Decidable (WritersClear s l)
  | .loop _ _ => inferInstanceAs
      (Decidable (∀ site, s.loop = .destroy site → ∀ w, s.writer w ≠ .call))
  | .writer w _ => inferInstanceAs (Decidable (s.writer w = .test →
      s.obj.status = .connected → s.loop ≠ .clear .runExit ∧ s.loop ≠ .setStopPush))
  | .startPush | .stopPush | .setExit => isTrue trivial

/-- A writer that is about to write has a live connection, and so did every
write before. -/
structure WriteInv (s : Threads) : Prop extends LoopInv s where
  uses : srs.UsesLive s.obj.calls
  about : ∀ w, s.writer w = .call → s.loop.held ≠ .dangling ∧ s.obj.rtmp ≠ none

theorem writeInv_init : WriteInv init := ⟨loopInv_init, always_nil, nofun⟩

/-- Where CONNECTED is possible there is a live connection, but for the two
statements that follow a destroy. -/
theorem LoopInv.live_of_connected (h : LoopInv s) (hs : s.obj.status = .connected)
    (hclear : s.loop ≠ .clear .runExit) (hstop : s.loop ≠ .setStopPush) :
    s.loop.held ≠ .dangling ∧ s.obj.rtmp ≠ none := by
  obtain ⟨hok, hstatus⟩ := h
  rw [hs] at hstatus
  cases hpc : s.loop with
  | switch | exitTest => rw [hpc] at hok; exact ⟨by decide, hok.2.1 hs⟩
  | cleanupTest site | destroy site | clear site =>
      cases site
      case runExit =>
        rw [hpc] at hok
        first
          | exact absurd hpc hclear
          | exact ⟨by decide, hok.2.1 hs⟩
          | exact ⟨by decide, hok.2⟩
      all_goals
        rw [hpc] at hstatus
        exact absurd hstatus (by decide)
  | setStopPush => exact absurd hpc hstop
  | _ => rw [hpc] at hstatus; exact absurd hstatus (by decide)

theorem loopStep_rtmp (created : Bool) (ret : Int) (hcreate : s.loop ≠ .create)
    (hclear : ∀ site, s.loop ≠ .clear site) :
    (s.loopStep created ret).obj.rtmp = s.obj.rtmp := by
  cases hpc : s.loop with
  | create => exact absurd hpc hcreate
  | clear site => exact absurd hpc (hclear site)
  | _ => simp only [Threads.loopStep, hpc]; rfl

theorem loopStep_dangling (created : Bool) (ret : Int)
    (h : (s.loopStep created ret).loop.held = .dangling) :
    ∃ site, s.loop = .destroy site := by
  cases hpc : s.loop with
  | destroy site => exact ⟨site, rfl⟩
  | switch =>
      simp only [Threads.loopStep, hpc, goto] at h
      cases hs : s.obj.status <;> rw [hs] at h <;> cases h
  | cleanupTest site | clear site =>
      simp only [Threads.loopStep, hpc, goto] at h
      cases site <;> first | cases h | (split at h <;> cases h)
  | startTest | create | handshake | connectApp | publishStream | exitTest =>
      simp only [Threads.loopStep, hpc, goto] at h
      split at h <;> cases h
  | setConnInit | setTimeout | setConnected | reconnect | setStopPush =>
      simp only [Threads.loopStep, hpc, goto] at h
      cases h

theorem loopStep_uses (created : Bool) (ret : Int) :
    CRtmpPush.Quiet s.obj (s.loopStep created ret).obj := by
  cases hpc : s.loop with
  | create =>
      simp only [Threads.loopStep, hpc]
      exact (CRtmpPush.Quiet.call (c := .create _) rfl).trans (.refl rfl)
  | setTimeout | handshake | connectApp | publishStream | destroy =>
      simp only [Threads.loopStep, hpc]
      exact CRtmpPush.Quiet.call rfl
  | _ => simp only [Threads.loopStep, hpc]; exact .refl rfl

@[simp] theorem loopStep_writer (created : Bool) (ret : Int) :
    (s.loopStep created ret).writer = s.writer := by
  cases hpc : s.loop <;> simp only [Threads.loopStep, hpc] <;> rfl

theorem WriteInv.loopStep (h : WriteInv s) (created : Bool) (ret : Int)
    (hclear : WritersClear s (.loop created ret)) :
    WriteInv (s.loopStep created ret) := by
  refine ⟨h.toLoopInv.loopStep created ret, (loopStep_uses created ret).usesLive h.uses,
    fun w hw => ?_⟩
  rw [loopStep_writer] at hw
  obtain ⟨hheld, hrtmp⟩ := h.about w hw
  -- the loop is at none of the statements that would take the handle away
  have hdestroy : ∀ site, s.loop ≠ .destroy site := fun site hpc => hclear site hpc w hw
  have hclr : ∀ site, s.loop ≠ .clear site := fun site hpc => hheld (by rw [hpc]; rfl)
  have hcreate : s.loop ≠ .create := by
    intro hpc
    have hok := h.held
    rw [hpc] at hok
    exact hrtmp hok.2
  refine ⟨fun hd => ?_, by rw [loopStep_rtmp created ret hcreate hclr]; exact hrtmp⟩
  obtain ⟨site, hpc⟩ := loopStep_dangling created ret hd
  exact hdestroy site hpc

theorem WriteInv.writerStep (h : WriteInv s) (w : Writer) (wret : Int)
    (hclear : WritersClear s (.writer w wret)) : WriteInv (s.writerStep w wret) := by
  have hloop := h.toLoopInv.writerStep w wret
  cases hpc : s.writer w <;> simp only [Threads.writerStep, hpc] at hloop ⊢
  case test =>
    refine ⟨hloop, h.uses, fun v hv => ?_⟩
    by_cases hvw : v = w
    · subst hvw
      simp only [setWriter, if_true] at hv
      split at hv
      · next hs =>
          obtain ⟨hc, hst⟩ := hclear hpc hs
          exact h.toLoopInv.live_of_connected hs hc hst
      · cases hv
    · simp only [setWriter, if_neg hvw] at hv
      exact h.about v hv
  case call =>
    obtain ⟨hheld, hrtmp⟩ := h.about w hpc
    have huses : srs.UsesLive (s.call (.write w s.obj.rtmp wret)).obj.calls := by
      refine always_snoc.2 ⟨h.uses, fun o ho => ?_⟩
      cases ho
      obtain ⟨k, hk⟩ := Option.ne_none_iff_exists'.1 hrtmp
      exact ⟨k, hk, ((h.traceInv hheld).owns k).2 hk⟩
    refine ⟨hloop, huses, fun v hv => ?_⟩
    by_cases hvw : v = w
    · exact ⟨hheld, hrtmp⟩
    · simp only [setWriter, if_neg hvw] at hv
      exact h.about v hv
  case setConnErr on =>
    refine ⟨hloop, h.uses, fun v hv => ?_⟩
    by_cases hvw : v = w
    · subst hvw
      simp only [setWriter, if_true] at hv
      cases hv
    · simp only [setWriter, if_neg hvw] at hv
      exact h.about v hv

theorem WriteInv.step (h : WriteInv s) (hclear : WritersClear s l)
    (hs : Threads.step s l = some s') : WriteInv s' := by
  cases l with
  | loop b r => cases hs; exact h.loopStep b r hclear
  | writer w r => cases hs; exact h.writerStep w r hclear
  | startPush | stopPush | setExit =>
      obtain ⟨hloop, hwriter, hrtmp, -, hcalls⟩ :=
        step_control hs (fun _ _ => nofun) (fun _ _ => nofun)
      refine ⟨h.toLoopInv.step hs, by rw [hcalls]; exact h.uses, fun w hw => ?_⟩
      rw [hwriter] at hw
      rw [hloop, hrtmp]
      exact h.about w hw

/-- A writer about to write with no live handle anywhere writes to a dead
one. -/
theorem dead_write {w : Writer} (hw : s.writer w = .call)
    (howns : srs.Owns s.obj.calls none) (wret : Int) :
    ¬ srs.UsesLive (s.writerStep w wret).obj.calls := by
  intro huses
  have hcalls : (s.writerStep w wret).obj.calls =
      s.obj.calls ++ [.write w s.obj.rtmp wret] := by
    simp only [Threads.writerStep, hw]
    rfl
  rw [hcalls] at huses
  obtain ⟨k, -, hlive⟩ := (always_snoc.1 huses).2 s.obj.rtmp rfl
  exact howns.not_live hlive

/-- In every interleaving whose steps all keep clear of the writers, every
write is made on a live connection. In any interleaving at all, a step that
does not is one statement away from a write to a dead handle: the next
statement of some writer is that write, whatever it answers. -/
theorem writes_live_of_clear (ls : List Label) (s : Threads) (hrun : Run step init ls s) :
    (Meets WritersClear step init ls → srs.UsesLive s.obj.calls) ∧
    (∀ l s', step s l = some s' → ¬ WritersClear s l →
      ∃ w, ∀ wret s'', step s' (.writer w wret) = some s'' →
        ¬ srs.UsesLive s''.obj.calls) := by
  constructor
  · intro hmeets
    have h : WriteInv s :=
      hrun.invariant_of_meets (fun _ _ _ h hc hs => h.step hc hs) hmeets writeInv_init
    exact h.uses
  · intro l s' hstep hclear
    have hinv : LoopInv s := loopInv_run hrun
    have hinv' : LoopInv s' := hinv.step hstep
    have key : ∃ w, s'.writer w = .call ∧ srs.Owns s'.obj.calls none := by
      cases l with
      | startPush | stopPush | setExit => exact absurd trivial hclear
      | loop b r =>
          obtain ⟨site, hpc, w, hw⟩ :
              ∃ site, s.loop = .destroy site ∧ ∃ w, s.writer w = .call := by
            refine Classical.byContradiction fun hno => hclear fun site hpc w hw => ?_
            exact hno ⟨site, hpc, w, hw⟩
          cases hstep
          refine ⟨w, by rw [loopStep_writer]; exact hw, hinv'.owns_none (Or.inl ?_)⟩
          simp only [Threads.loopStep, hpc]
          rfl
      | writer w r =>
          obtain ⟨hw, hs, hpc⟩ : s.writer w = .test ∧ s.obj.status = .connected ∧
              (s.loop = .clear .runExit ∨ s.loop = .setStopPush) := by
            refine Classical.byContradiction fun hno => hclear fun hw hs => ?_
            exact ⟨fun hpc => hno ⟨hw, hs, Or.inl hpc⟩,
              fun hpc => hno ⟨hw, hs, Or.inr hpc⟩⟩
          cases hstep
          have hstep' : s.writerStep w r = s.setWriter w .call := by
            simp only [Threads.writerStep, hw, if_pos hs]
          rw [hstep'] at hinv' ⊢
          refine ⟨w, by simp [setWriter], hinv'.owns_none ?_⟩
          rcases hpc with hpc | hpc
          · exact Or.inl (by simp [setWriter, hpc, LoopPc.held])
          · exact Or.inr (by simp [setWriter, hpc, LoopPc.held])
    obtain ⟨w, hw, howns⟩ := key
    refine ⟨w, fun wret s'' hs'' => ?_⟩
    cases hs''
    exact dead_write hw howns wret

/-- The statements of the loop from the constructor's state to CONNECTED,
after a start. -/
def connectLabels : List Label :=
  .startPush :: List.replicate 10 (.loop true 0)

/-- The video writer tests and writes, and after that the loop is stopped. -/
def writeThenStop : List Label :=
  connectLabels ++ [.writer .video 0, .writer .video 0, .stopPush, .setExit,
    .loop true 0, .loop true 0, .loop true 0]

theorem writes_live_then_stop :
    ∃ s, Run step init writeThenStop s ∧ srs.UsesLive s.obj.calls :=
  ⟨_, run_get (by decide),
    (writes_live_of_clear writeThenStop _ (run_get (by decide))).1 (by decide)⟩

/-- The video writer tests, the loop is stopped and destroys the connection,
and the video writer writes. -/
def testStopWrite : List Label :=
  connectLabels ++ [.writer .video 0, .stopPush, .setExit, .loop true 0,
    .loop true 0, .loop true 0, .writer .video 0]

theorem write_after_destroy :
    ∃ ls s, Run step init ls s ∧ ¬ srs.UsesLive s.obj.calls := by
  refine ⟨testStopWrite, _, run_get (by decide), fun h => ?_⟩
  obtain ⟨k, hk, hlive⟩ := h [.create (some 0), .setTimeout (some 0),
    .handshake (some 0), .connectApp (some 0), .publishStream (some 0),
    .destroy (some 0) .runExit] (.write .video (some 0) 0) [] rfl (some 0) rfl
  cases hk
  exact hlive.2 ⟨.destroy (some 0) .runExit, by decide, rfl⟩

/-! ## Tearing down the wrong connection -/

/-- A write made on `k` reported the code the writers recognise. -/
def FailedOn (calls : List Call) (k : Handle) : Prop :=
  ∃ w, Call.write w (some k) writeErr ∈ calls

/-- Every connection destroyed from the CONNERR case had a failed write of
its own before that. -/
def TornDownForFailure (calls : List Call) : Prop :=
  Always (fun pre c => ∀ k, c = .destroy (some k) .connErr → FailedOn pre k) calls

/-- The step does not blame a live connection for another one's failure: a
writer that assigns `status = CONNERR` in CONNECTED made its failed write on
the connection in `_rtmp`. -/
def ErrOnCurrent (s : Threads) : Label → Prop
  | .writer w _ =>
      match s.writer w with
      | .setConnErr on => s.obj.status = .connected →
          ∀ k ∈ s.obj.rtmp, srs.Live s.obj.calls k → on = some k
      | _ => True
  | _ => True

instance Live.instDecidable (calls : List Call) (k : Handle) :
    Decidable (srs.Live calls k) :=
  inferInstanceAs (Decidable ((∃ c ∈ calls, srs.opens c = some k) ∧
    ¬ ∃ c ∈ calls, srs.closes c = some k))

instance ErrOnCurrent.instDecidable (s : Threads) : ∀ l, Decidable (ErrOnCurrent s l)
  | .loop _ _ | .startPush | .stopPush | .setExit => isTrue trivial
  | .writer w _ =>
      match h : s.writer w with
      | .setConnErr on =>
          decidable_of_iff (s.obj.status = .connected →
            ∀ k ∈ s.obj.rtmp, srs.Live s.obj.calls k → on = some k)
            (by simp only [ErrOnCurrent, h])
      | .test | .call => isTrue (by simp only [ErrOnCurrent, h])

theorem FailedOn.append {as bs : List Call} {k : Handle} (h : FailedOn as k) :
    FailedOn (as ++ bs) k := by
  obtain ⟨w, hw⟩ := h
  exact ⟨w, List.mem_append_left _ hw⟩

theorem TornDownForFailure.snoc {calls : List Call} {c : Call}
    (h : TornDownForFailure calls) (hc : ∀ k, c ≠ .destroy (some k) .connErr) :
    TornDownForFailure (calls ++ [c]) :=
  always_snoc.2 ⟨h, fun k hk => absurd hk (hc k)⟩

structure TeardownInv (s : Threads) : Prop extends LoopInv s where
  torn : TornDownForFailure s.obj.calls
  pending : ∀ w k, s.writer w = .setConnErr (some k) → FailedOn s.obj.calls k
  err : s.obj.status = .connErr → s.loop.settled = true →
    ∀ k, s.obj.rtmp = some k → FailedOn s.obj.calls k

theorem teardownInv_init : TeardownInv init :=
  ⟨loopInv_init, always_nil, nofun, nofun⟩

theorem status_cases (htr : TraceInv s.obj)
    (hnull : s.obj.status = .connInit ∨ s.obj.status = .stopPush → s.obj.rtmp = none) :
    s.obj.status = .connErr ∨ s.obj.status = .connected ∧ TraceInv s.obj ∨
      s.obj.rtmp = none := by
  cases hs : s.obj.status with
  | connErr => exact Or.inl rfl
  | connected => exact Or.inr (Or.inl ⟨rfl, htr⟩)
  | connInit => exact Or.inr (Or.inr (hnull (Or.inl hs)))
  | stopPush => exact Or.inr (Or.inr (hnull (Or.inr hs)))

/-- At a settled statement the status byte is CONNERR, or CONNECTED with the
handle in place, or there is no handle. -/
theorem LoopInv.settled_cases (h : LoopInv s) (hset : s.loop.settled = true) :
    s.obj.status = .connErr ∨ s.obj.status = .connected ∧ TraceInv s.obj ∨
      s.obj.rtmp = none := by
  obtain ⟨hok, hstatus⟩ := h
  cases hpc : s.loop with
  | switch | exitTest =>
      rw [hpc] at hok
      obtain ⟨htr, -, hnull⟩ := hok
      exact status_cases htr hnull
  | cleanupTest site =>
      rw [hpc] at hok hset hstatus
      cases site
      case openFailed => cases hset
      case connErr => exact Or.inl (List.mem_singleton.1 hstatus)
      case runExit =>
        obtain ⟨htr, -, hnull⟩ := hok
        exact status_cases htr hnull
  | destroy site =>
      rw [hpc] at hok hset hstatus
      cases site
      case openFailed => cases hset
      case connErr => exact Or.inl (List.mem_singleton.1 hstatus)
      case runExit =>
        simp only [LoopPc.statuses, List.mem_cons, List.not_mem_nil, or_false] at hstatus
        rcases hstatus with hs | hs
        · exact Or.inr (Or.inl ⟨hs, hok.1⟩)
        · exact Or.inl hs
  | _ => rw [hpc] at hset; cases hset

/-- In the CONNERR case the loop destroys a handle that a write has failed on. -/
theorem TeardownInv.torn_loopStep (h : TeardownInv s) (created : Bool) (ret : Int) :
    TornDownForFailure (s.loopStep created ret).obj.calls := by
  cases hpc : s.loop with
  | destroy site =>
      simp only [Threads.loopStep, hpc]
      refine always_snoc.2 ⟨h.torn, fun k hk => ?_⟩
      injection hk with hk hsite
      subst hsite
      have hstatus := h.status
      rw [hpc] at hstatus
      exact h.err (List.mem_singleton.1 hstatus) (by rw [hpc]; rfl) k hk
  | create | setTimeout | handshake | connectApp | publishStream =>
      simp only [Threads.loopStep, hpc]
      exact h.torn.snoc fun k hk => by cases hk
  | _ => simp only [Threads.loopStep, hpc]; exact h.torn

/-- The status byte, the handle and the trace stay, or the new state says
nothing about them. -/
theorem TeardownInv.err_loopStep (h : TeardownInv s) (created : Bool) (ret : Int) :
    (s.loopStep created ret).obj.status = .connErr →
      (s.loopStep created ret).loop.settled = true → ∀ k,
        (s.loopStep created ret).obj.rtmp = some k →
          FailedOn (s.loopStep created ret).obj.calls k := by
  have hstay : (s.loopStep created ret).obj = s.obj → s.loop.settled = true →
      (s.loopStep created ret).obj.status = .connErr → ∀ k,
      (s.loopStep created ret).obj.rtmp = some k →
      FailedOn (s.loopStep created ret).obj.calls k := by
    intro hobj hset
    rw [hobj]
    exact fun hs => h.err hs hset
  cases hpc : s.loop with
  | switch | exitTest =>
      exact fun hs _ => hstay (by simp only [Threads.loopStep, hpc]; rfl)
        (by rw [hpc]; rfl) hs
  | cleanupTest site =>
      cases site
      case openFailed =>
        simp only [Threads.loopStep, hpc]
        split
        · intro _ hset
          cases hset
        · next hnull =>
            intro _ _ k hk
            have hnone : s.obj.rtmp = none := by simpa using hnull
            rw [show s.obj.rtmp = some k from hk] at hnone
            cases hnone
      all_goals
        exact fun hs _ => hstay (by simp only [Threads.loopStep, hpc]; rfl)
          (by rw [hpc]; rfl) hs
  | startTest =>
      have hok := h.held
      rw [hpc] at hok
      simp only [Threads.loopStep, hpc]
      intro _ _ k hk
      have hnull : s.obj.rtmp = none := hok.2
      rw [show s.obj.rtmp = some k from hk] at hnull
      cases hnull
  | create | handshake | connectApp | publishStream =>
      simp only [Threads.loopStep, hpc]
      split <;> (intro _ hset; cases hset)
  | clear site =>
      simp only [Threads.loopStep, hpc]
      intro _ _ k hk
      cases hk
  | setConnInit | setConnected | reconnect | setStopPush =>
      simp only [Threads.loopStep, hpc]
      intro hs
      cases hs
  | setTimeout | destroy =>
      simp only [Threads.loopStep, hpc]
      intro _ hset
      cases hset

theorem TeardownInv.loopStep (h : TeardownInv s) (created : Bool) (ret : Int) :
    TeardownInv (s.loopStep created ret) := by
  obtain ⟨ext, hext, -⟩ := loopStep_uses (s := s) created ret
  refine ⟨h.toLoopInv.loopStep created ret, h.torn_loopStep created ret, fun w k hw => ?_,
    h.err_loopStep created ret⟩
  rw [loopStep_writer] at hw
  rw [hext]
  exact (h.pending w k hw).append

theorem TeardownInv.writerStep (h : TeardownInv s) (w : Writer) (wret : Int)
    (hcur : ErrOnCurrent s (.writer w wret)) : TeardownInv (s.writerStep w wret) := by
  have hloop := h.toLoopInv.writerStep w wret
  cases hpc : s.writer w <;> simp only [Threads.writerStep, hpc] at hloop ⊢
  case test =>
    refine ⟨hloop, h.torn, fun v k hv => ?_, h.err⟩
    by_cases hvw : v = w
    · subst hvw
      simp only [setWriter, if_true] at hv
      split at hv <;> cases hv
    · simp only [setWriter, if_neg hvw] at hv
      exact h.pending v k hv
  case call =>
    refine ⟨hloop, h.torn.snoc (fun k hk => by cases hk), fun v k hv => ?_,
      fun hs hset k hk => (h.err hs hset k hk).append⟩
    by_cases hvw : v = w
    · subst hvw
      simp only [setWriter, if_true] at hv
      split at hv
      · next hret =>
          injection hv with hv
          exact ⟨v, List.mem_append_right _ (by rw [hv, hret]; exact List.mem_cons_self)⟩
      · cases hv
    · simp only [setWriter, if_neg hvw] at hv
      exact (h.pending v k hv).append
  case setConnErr on =>
    simp only [ErrOnCurrent, hpc] at hcur
    refine ⟨hloop, h.torn, fun v k hv => ?_, fun _ hset k hk => ?_⟩
    · by_cases hvw : v = w
      · subst hvw
        simp only [setWriter, if_true] at hv
        cases hv
      · simp only [setWriter, if_neg hvw] at hv
        exact h.pending v k hv
    · rcases h.toLoopInv.settled_cases hset with hs | ⟨hs, htr⟩ | hnull
      · exact h.err hs hset k hk
      · have hon := hcur hs k hk ((htr.owns k).2 hk)
        exact h.pending w k (by rw [hpc, hon])
      · rw [show s.obj.rtmp = some k from hk] at hnull
        cases hnull

theorem TeardownInv.step (h : TeardownInv s) (hcur : ErrOnCurrent s l)
    (hs : Threads.step s l = some s') : TeardownInv s' := by
  cases l with
  | loop b r => cases hs; exact h.loopStep b r
  | writer w r => cases hs; exact h.writerStep w r hcur
  | startPush | stopPush | setExit =>
      obtain ⟨hloop, hwriter, hrtmp, hstatus, hcalls⟩ :=
        step_control hs (fun _ _ => nofun) (fun _ _ => nofun)
      refine ⟨h.toLoopInv.step hs, by rw [hcalls]; exact h.torn, ?_, ?_⟩
      · rw [hwriter, hcalls]
        exact h.pending
      · rw [hstatus, hloop, hrtmp, hcalls]
        exact h.err

/-- In every interleaving in which no writer, in CONNECTED, blames the live
connection for a write that failed on another one, the loop destroys from
CONNERR only connections on which a write failed. -/
theorem torn_down_for_failure (ls : List Label) (s : Threads)
    (hrun : Run step init ls s) (hcur : Meets ErrOnCurrent step init ls) :
    TornDownForFailure s.obj.calls := by
  have h : TeardownInv s :=
    hrun.invariant_of_meets (fun _ _ _ h hc hs => h.step hc hs) hcur teardownInv_init
  exact h.torn

/-- One write fails and the loop tears its connection down. -/
def failAndTearDown : List Label :=
  connectLabels ++ [.writer .video 0, .writer .video 1009, .writer .video 0,
    .loop true 0, .loop true 0, .loop true 0, .loop true 0]

theorem torn_down_for_failure_once :
    ∃ s, Run step init failAndTearDown s ∧ TornDownForFailure s.obj.calls :=
  ⟨_, run_get (by decide),
    torn_down_for_failure failAndTearDown _ (run_get (by decide)) (by decide)⟩

/-- Both writers fail on connection 0, the audio writer's assignment waits
until the loop has reconnected, and connection 1 is torn down for it. -/
def lateConnErr : List Label :=
  connectLabels ++ [.writer .video 0, .writer .audio 0, .writer .video 1009,
    .writer .audio 1009, .writer .video 0] ++ List.replicate 16 (.loop true 0) ++
    [.writer .audio 0] ++ List.replicate 4 (.loop true 0)

theorem torn_down_without_failure :
    ∃ ls s, Run step init ls s ∧ ¬ TornDownForFailure s.obj.calls := by
  refine ⟨lateConnErr, _, run_get (by decide), fun h => ?_⟩
  obtain ⟨w, hw⟩ := h [.create (some 0), .setTimeout (some 0), .handshake (some 0),
    .connectApp (some 0), .publishStream (some 0), .write .video (some 0) 1009,
    .write .audio (some 0) 1009, .destroy (some 0) .connErr, .create (some 1),
    .setTimeout (some 1), .handshake (some 1), .connectApp (some 1),
    .publishStream (some 1)] (.destroy (some 1) .connErr) [] rfl 1 rfl
  cases w <;> exact absurd hw (by decide)

end Threads

end IotCamera
