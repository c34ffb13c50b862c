import IotCamera.Proofs.RtmpHandle

/-!
# Writing to a broken connection

The library reports seven socket-level failures and the writers recognise
one of them, `ERROR_SOCKET_WRITE`, by its number. After that one the status
byte is CONNERR until the loop has destroyed the connection, so nothing more
is written on it. After any of the other six the object stays CONNECTED and
the next frame goes to the same, broken, connection.
-/

namespace IotCamera

open Trace

/-- A write on `k` reported a socket-level failure. -/
def Broken (calls : List Call) (k : Handle) : Prop :=
  ∃ w wret, Call.write w (some k) wret ∈ calls ∧ wret ∈ socketFailures

/-- No write is made on a connection that an earlier write found broken. -/
def BrokenLeftAlone (calls : List Call) : Prop :=
  Always (fun pre c => ∀ w k wret, c = .write w (some k) wret → ¬ Broken pre k) calls

/-- Every socket-level failure a write reported is the code the writers
compare with. -/
def OnlyWriteErr (calls : List Call) : Prop :=
  ∀ w rtmp wret, Call.write w rtmp wret ∈ calls → wret ∈ socketFailures →
    wret = ERROR_SOCKET_WRITE

theorem Broken.append {as bs : List Call} {k : Handle} (h : Broken as k) :
    Broken (as ++ bs) k := by
  obtain ⟨w, wret, hmem, hfail⟩ := h
  exact ⟨w, wret, List.mem_append_left _ hmem, hfail⟩

theorem broken_append_of_no_write {as bs : List Call} {k : Handle}
    (hbs : ∀ c ∈ bs, srs.uses c = none) : Broken (as ++ bs) k ↔ Broken as k := by
  refine ⟨?_, .append⟩
  rintro ⟨w, wret, hmem, hfail⟩
  rcases List.mem_append.1 hmem with hmem | hmem
  · exact ⟨w, wret, hmem, hfail⟩
  · cases hbs _ hmem

theorem brokenLeftAlone_append {as bs : List Call}
    (hbs : ∀ c ∈ bs, srs.uses c = none) (h : BrokenLeftAlone as) :
    BrokenLeftAlone (as ++ bs) := by
  induction bs using snoc_induction with
  | nil => simpa using h
  | snoc bs c ih =>
      rw [← List.append_assoc]
      refine always_snoc.2 ⟨ih fun x hx => hbs x (List.mem_append_left _ hx), ?_⟩
      rintro w k wret rfl
      cases hbs _ (List.mem_append_right _ List.mem_cons_self)

theorem OnlyWriteErr.of_append {as bs : List Call} (h : OnlyWriteErr (as ++ bs)) :
    OnlyWriteErr as :=
  fun w rtmp wret hmem => h w rtmp wret (List.mem_append_left _ hmem)

namespace CRtmpPush

variable {p : CRtmpPush}

/-- Whatever connecting leaves in `_rtmp` is new. -/
theorem openUrl_rtmp {o : OpenOutcome} {k : Handle}
    (h : (p.openUrl o).2.rtmp = some k) : k = srs.opened p.calls := by
  have hcreate : (p.create o.created).rtmp = some k → k = srs.opened p.calls := by
    intro hk
    cases hc : o.created with
    | false => rw [hc] at hk; cases hk
    | true => rw [hc] at hk; exact (Option.some.inj hk).symm
  refine hcreate ?_
  simp only [openUrl] at h
  repeat' split at h
  all_goals exact h

theorem checkRunStatus_rtmp {k : Handle} (h : p.checkRunStatus.rtmp = some k) :
    p.rtmp = some k ∧ p.checkRunStatus = p := by
  unfold checkRunStatus at h ⊢
  split at h
  · rw [show ({ p.deinit .runExit with status := Status.stopPush } : CRtmpPush).rtmp =
      none from cleanup_rtmp] at h
    cases h
  · next hne => exact ⟨h, if_neg hne⟩

/-! ## The runs in which every failure is recognised -/

/-- A broken connection is left alone, and while it is still in `_rtmp` the
status is CONNERR. -/
structure BrokenInv (p : CRtmpPush) : Prop extends HandleInv p where
  leftAlone : BrokenLeftAlone p.calls
  status_of_broken : ∀ k, p.rtmp = some k → Broken p.calls k → p.status = .connErr

theorem BrokenInv.runIter (h : BrokenInv p) (o : OpenOutcome) :
    BrokenInv (p.runIter o) := by
  obtain ⟨ext, hcalls, hw⟩ := Quiet.runIter (p := p) o
  refine ⟨h.toHandleInv.runIter o, ?_, ?_⟩
  · rw [hcalls]
    exact brokenLeftAlone_append hw h.leftAlone
  intro k hk hbroken
  rw [hcalls, broken_append_of_no_write hw] at hbroken
  have hold : p.rtmp = some k → p.status = .connErr :=
    fun hk' => h.status_of_broken k hk' hbroken
  cases hs : p.status with
  | stopPush =>
      have hnull : (p.runIter o).rtmp = p.rtmp := by
        simp only [CRtmpPush.runIter, hs]
        split <;> rfl
      rw [hnull, h.null (Or.inr hs)] at hk
      cases hk
  | connInit =>
      simp only [CRtmpPush.runIter, hs, init_eq] at hk
      obtain ⟨hk', -⟩ := checkRunStatus_rtmp hk
      -- the connection is new, so nothing was written on it before
      split at hk'
      · obtain ⟨w, wret, hmem, -⟩ := hbroken
        obtain ⟨pre, post, hsplit⟩ := List.append_of_mem hmem
        obtain ⟨j, hj, hlive⟩ := h.uses pre _ post hsplit (some k) rfl
        obtain ⟨e, he, ho⟩ := hlive.1
        cases hj
        refine absurd ?_ h.numbered.fresh
        rw [← openUrl_rtmp hk', hsplit]
        exact ⟨e, List.mem_append_left _ he, ho⟩
      · rw [deinit, cleanup_rtmp] at hk'
        cases hk'
  | connected =>
      simp only [CRtmpPush.runIter, hs] at hk
      have := hold (checkRunStatus_rtmp hk).1
      rw [hs] at this
      cases this
  | connErr =>
      simp only [CRtmpPush.runIter, hs] at hk
      have hk' := (checkRunStatus_rtmp hk).1
      rw [show ({ p.deinit .connErr with status := Status.connInit } : CRtmpPush).rtmp =
        none from cleanup_rtmp] at hk'
      cases hk'

theorem BrokenInv.writeRaw (h : BrokenInv p) (w : Writer) (wret : Int)
    (honly : OnlyWriteErr (p.writeRaw w wret).calls) :
    BrokenInv (p.writeRaw w wret) := by
  refine ⟨h.toHandleInv.writeRaw w wret, ?_, ?_⟩
  all_goals
    by_cases hs : p.status = .connected
    case neg =>
      simp only [CRtmpPush.writeRaw, if_neg hs]
      first
        | exact h.leftAlone
        | exact h.status_of_broken
  · -- while CONNECTED the connection in `_rtmp` is not broken yet
    have hcalls : (p.writeRaw w wret).calls = p.calls ++ [.write w p.rtmp wret] := by
      simp only [CRtmpPush.writeRaw, if_pos hs]
      split <;> rfl
    rw [hcalls]
    refine always_snoc.2 ⟨h.leftAlone, ?_⟩
    rintro w' k wret' heq hbroken
    injection heq with _ hk _
    have := h.status_of_broken k hk hbroken
    rw [hs] at this
    cases this
  · by_cases hret : wret = writeErr
    · intro k _ _
      simp [CRtmpPush.writeRaw, hs, hret]
    · have heq : p.writeRaw w wret = p.call (.write w p.rtmp wret) := by
        simp [CRtmpPush.writeRaw, hs, hret]
      rw [heq] at honly ⊢
      rintro k hk ⟨w', wret', hmem, hfail⟩
      rcases List.mem_append.1 hmem with hmem | hmem
      · exact h.status_of_broken k hk ⟨w', wret', hmem, hfail⟩
      · injection List.mem_singleton.1 hmem with _ _ hret'
        subst hret'
        exact absurd (honly w _ wret' (List.mem_append_right _ List.mem_cons_self) hfail)
          hret

theorem step_calls (p : CRtmpPush) (a : Act) : ∃ ext, (p.step a).calls = p.calls ++ ext := by
  have hwrite : ∀ w wret, ∃ ext, (p.writeRaw w wret).calls = p.calls ++ ext := by
    intro w wret
    unfold writeRaw
    split
    · split <;> exact ⟨_, rfl⟩
    · exact ⟨[], by simp⟩
  cases a with
  | startPush => exact ⟨[], by simp [step, startPush]⟩
  | stopPush =>
      refine ⟨[], ?_⟩
      simp only [step, stopPush]
      split <;> simp
  | writeH264RawData wret => exact hwrite .video wret
  | writeAACRawData wret => exact hwrite .audio wret
  | run o =>
      obtain ⟨ext, hext, -⟩ := Quiet.runIter (p := p) o
      exact ⟨ext, hext⟩

theorem BrokenInv.step (h : BrokenInv p) (a : Act)
    (honly : OnlyWriteErr (p.step a).calls) : BrokenInv (p.step a) := by
  cases a with
  | startPush =>
      exact ⟨h.toHandleInv.step .startPush, h.leftAlone, h.status_of_broken⟩
  | stopPush =>
      refine ⟨h.toHandleInv.step .stopPush, ?_, ?_⟩
      all_goals
        simp only [CRtmpPush.step, stopPush]
        split
      · exact h.leftAlone
      · exact h.leftAlone
      · exact h.status_of_broken
      · exact h.status_of_broken
  | writeH264RawData wret => exact h.writeRaw .video wret honly
  | writeAACRawData wret => exact h.writeRaw .audio wret honly
  | run o => exact h.runIter o

theorem brokenInv_exec (acts : List Act) :
    OnlyWriteErr (new.exec acts).calls → BrokenInv (new.exec acts) := by
  refine exec_invariant (I := fun p => OnlyWriteErr p.calls → BrokenInv p) ?_ ?_ acts
  · exact fun _ => ⟨handleInv_new, always_nil, nofun⟩
  · intro p a ih honly
    obtain ⟨ext, hext⟩ := step_calls p a
    exact (ih (by rw [hext] at honly; exact honly.of_append)).step a honly

/-- In every run whose writes report no socket-level failure but
`ERROR_SOCKET_WRITE`, a broken connection is not written to again. The
condition is sharp: in every state that writes at all, a failure with
another code is followed by the next frame on the same connection. -/
theorem broken_left_alone (acts : List Act) :
    (OnlyWriteErr (new.exec acts).calls → BrokenLeftAlone (new.exec acts).calls) ∧
    (∀ w wret, (new.exec acts).status = .connected → wret ∈ socketFailures →
      wret ≠ ERROR_SOCKET_WRITE →
      ¬ BrokenLeftAlone (((new.exec acts).writeRaw w wret).writeRaw w 0).calls) := by
  refine ⟨fun honly => (brokenInv_exec acts honly).leftAlone, ?_⟩
  intro w wret hs hfail hne hleft
  obtain ⟨k, hk⟩ := Option.ne_none_iff_exists'.1 ((handleInv_exec acts).handle (Or.inl hs))
  generalize new.exec acts = p at hs hk hleft
  have hcalls : ((p.writeRaw w wret).writeRaw w 0).calls =
      (p.calls ++ [.write w (some k) wret]) ++ [.write w (some k) 0] := by
    have hne' : wret ≠ writeErr := hne
    simp [writeRaw, hs, hne', hk, show (0 : Int) ≠ writeErr by decide]
  rw [hcalls] at hleft
  exact (always_snoc.1 hleft).2 w k 0 rfl ⟨w, wret, by simp, hfail⟩

/-- Both halves at a connection on which the first video frame fails, once
with the recognised code and once with a timeout. -/
theorem broken_left_alone_first_frame :
    BrokenLeftAlone (new.exec [.startPush, .run ⟨true, 0, 0, 0⟩, .run ⟨true, 0, 0, 0⟩,
      .writeH264RawData 1009, .writeAACRawData 0]).calls ∧
    ¬ BrokenLeftAlone (((new.exec [.startPush, .run ⟨true, 0, 0, 0⟩,
      .run ⟨true, 0, 0, 0⟩]).writeRaw .video ERROR_SOCKET_TIMEOUT).writeRaw .video 0).calls := by
  refine ⟨(broken_left_alone _).1 ?_, (broken_left_alone _).2 .video _ (by decide)
    (by decide) (by decide)⟩
  have hcalls : (new.exec [.startPush, .run ⟨true, 0, 0, 0⟩, .run ⟨true, 0, 0, 0⟩,
      .writeH264RawData 1009, .writeAACRawData 0]).calls =
      [.create (some 0), .setTimeout (some 0), .handshake (some 0), .connectApp (some 0),
        .publishStream (some 0), .write .video (some 0) 1009] := by
    decide
  intro w rtmp wret hmem _
  rw [hcalls] at hmem
  simp only [List.mem_cons, Call.write.injEq, reduceCtorEq, List.not_mem_nil, or_false,
    false_or] at hmem
  exact hmem.2.2

/-- A timeout of the video writer, and the audio writer goes on writing to the
same connection. -/
theorem broken_written_again :
    ∃ acts : List Act, ¬ BrokenLeftAlone (new.exec acts).calls := by
  refine ⟨[.startPush, .run ⟨true, 0, 0, 0⟩, .run ⟨true, 0, 0, 0⟩,
    .writeH264RawData ERROR_SOCKET_TIMEOUT, .writeAACRawData 0], fun h => ?_⟩
  refine h [.create (some 0), .setTimeout (some 0), .handshake (some 0),
    .connectApp (some 0), .publishStream (some 0),
    .write .video (some 0) ERROR_SOCKET_TIMEOUT] _ [] rfl .audio 0 0 rfl ?_
  exact ⟨.video, ERROR_SOCKET_TIMEOUT, by decide, by decide⟩

end CRtmpPush

end IotCamera
