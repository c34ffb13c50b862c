import IotCamera.Proofs.H264Scan

/-!
# One picture in a piece

While the file is open, the stream is where `m_bytesUsed` says, which is where
the last piece ended, and every piece has at least four bytes. A call that
finds a piece returns it and moves on by its length.

There is one picture in the piece since the first scan stops at the first one
and the second at the next. The jump by four between the two skips nothing:
whatever begins in these bytes is the start code of the same header, in its
shorter form. That is `code_overlap`.
-/

namespace IotCamera

open AnnexB Lts

namespace H264File

variable {content buf : List Byte} {bufSize pos e a i : Nat} {s s' : H264File}
  {answer : FrameAnswer} {inBufSize : Int}

/-! ## Windows -/

theorem length_fread :
    (fread content bufSize pos).length = min bufSize (content.length - pos) := by
  rw [fread, List.length_take, List.length_drop]

theorem length_fread_le : (fread content bufSize pos).length ≤ bufSize := by
  rw [length_fread]
  exact Nat.min_le_left _ _

/-- In the window is what is in the file. -/
theorem fread_get (hi : i < (fread content bufSize pos).length) :
    (fread content bufSize pos)[i]? = (content.drop pos)[i]? := by
  rw [length_fread] at hi
  rw [fread, List.getElem?_take_of_lt (by omega)]

theorem take_fread (he : e ≤ (fread content bufSize pos).length) :
    (fread content bufSize pos).take e = (content.drop pos).take e := by
  rw [length_fread] at he
  rw [fread, List.take_take, Nat.min_eq_left (by omega)]

theorem Piece.bounds (h : Piece buf a e) : a + 4 ≤ e ∧ e + 6 ≤ buf.length := by
  have hlower := h.stop.lower
  have hupper := h.stop.upper
  omega

theorem Open.bounds (h : Open buf a) : a + 6 ≤ buf.length := by
  have hupper := h.start.upper
  omega

/-! ## The end of a call -/

/-- What is copied of so many bytes. -/
def copied (i : Nat) (inBufSize : Int) : Int := if i ≤ inBufSize then i else inBufSize

theorem copied_eq (h : (i : Int) ≤ inBufSize) : copied i inBufSize = i := if_pos h

theorem deliver_piece : s.deliver buf inBufSize e true true =
    if copied e inBufSize < 0 then none
    else (s.advance false e).map fun x => (⟨some x.2.toNat, x.2, x.1⟩,
      ⟨copied e inBufSize, buf.take (copied e inBufSize).toNat, some false⟩) := rfl

theorem deliver_open (h : 0 < s.count) : s.deliver buf inBufSize i true false =
    if copied buf.length inBufSize < 0 then none
    else some (opened,
      ⟨copied buf.length inBufSize, buf.take (copied buf.length inBufSize).toNat, some true⟩) := by
  unfold deliver
  simp only [Bool.not_false, Bool.and_self, h, decide_true]
  rfl

theorem deliver_lost (h : ¬ 0 < s.count) :
    s.deliver buf inBufSize i true false = some (s.close, ⟨-1, [], some false⟩) := by
  unfold deliver
  simp only [h, decide_false, Bool.and_false]
  rfl

/-! ## Where the stream is -/

/-- The file is open, and read up to `pos`. -/
structure At (content : List Byte) (s : H264File) (pos : Nat) : Prop where
  file : s.file = some pos
  used : s.bytesUsed = pos
  inside : pos = 0 ∨ pos + 6 ≤ content.length
  count : 0 ≤ s.count
  pieces : 4 * s.count ≤ pos

/-- Closed, or open and read up to some place. -/
def Synced (content : List Byte) (s : H264File) : Prop :=
  s.file = none ∨ ∃ pos, At content s pos

theorem opened_at : At content opened 0 := ⟨rfl, rfl, Or.inl rfl, Int.le_refl 0, Int.le_refl 0⟩

theorem close_file (h : s.file = some pos) : s.close = ⟨none, 0, 0⟩ := by
  unfold close
  rw [h]

/-- Another piece has been read, and the file up to `pos`. -/
def moved (s : H264File) (pos : Nat) : H264File := ⟨some pos, pos, s.count + 1⟩

theorem At.advance_eq (h : At content s pos) (he : 4 ≤ e) (hfit : pos + e < 2147483648) :
    s.advance false e = some (s.count + 1, ((pos + e : Nat) : Int)) := by
  have hused := h.used
  have hcount := h.count
  have hpieces := h.pieces
  unfold advance
  rw [if_neg Bool.false_ne_true, hused, CInt.int_eq (by omega) (by omega), Option.bind_some,
    CInt.int_eq (by omega) (by omega), Option.map_some, Nat.cast_add]

theorem At.next (h : At content s pos) (he : 4 ≤ e) (hlen : pos + e + 6 ≤ content.length) :
    At content (s.moved (pos + e)) (pos + e) where
  file := rfl
  used := rfl
  inside := Or.inr hlen
  count := by
    have hcount := h.count
    show 0 ≤ s.count + 1
    omega
  pieces := by
    have hpieces := h.pieces
    show 4 * (s.count + 1) ≤ ((pos + e : Nat) : Int)
    omega

/-- The number of bytes read has to be an `int`. -/
theorem At.advance_some {x : Int × Int} (h : At content s pos)
    (hadvance : s.advance false e = some x) : pos + e < 2147483648 := by
  unfold advance at hadvance
  rw [if_neg Bool.false_ne_true] at hadvance
  obtain ⟨count, -, hused⟩ := Option.bind_eq_some_iff.1 hadvance
  obtain ⟨used, hint, -⟩ := Option.map_eq_some_iff.1 hused
  have hbounds := CInt.int_bounds hint
  rw [h.used] at hbounds
  omega

/-- The second attempt at a window that was empty gives an empty one again. -/
theorem At.readFrame_eq (h : At content s pos) : readFrame content bufSize s inBufSize =
    if (fread content bufSize pos).length = 0 then some (⟨none, 0, 0⟩, ⟨-1, [], none⟩)
    else s.cut (fread content bufSize pos) inBufSize := by
  have hinside := h.inside
  unfold readFrame
  rw [h.file]
  dsimp only
  by_cases hempty : (fread content bufSize pos).length = 0
  · have hagain : (fread content bufSize 0).length = 0 := by
      rw [length_fread] at hempty ⊢
      omega
    rw [if_pos hempty, if_pos hempty, if_pos hagain]
    rfl
  · rw [if_neg hempty, if_neg hempty]

/-- A piece that is found is delivered, and the file is read on behind it. -/
theorem At.cut_piece (h : At content s pos) (hpiece : Piece buf a e)
    (hfit : pos + e < 2147483648) : s.cut buf inBufSize =
      if copied e inBufSize < 0 then none
      else some (s.moved (pos + e),
        ⟨copied e inBufSize, buf.take (copied e inBufSize).toNat, some false⟩) := by
  have hbounds := hpiece.bounds
  rw [H264File.cut_piece hpiece, deliver_piece, h.advance_eq (by omega) hfit, Option.map_some,
    Int.toNat_natCast]
  rfl

/-- A window in which a picture does not end is the last piece, if there was
one before. -/
theorem cut_last (hopen : Open buf a) (hcount : 0 < s.count) : s.cut buf inBufSize =
    if copied buf.length inBufSize < 0 then none
    else some (opened,
      ⟨copied buf.length inBufSize, buf.take (copied buf.length inBufSize).toNat, some true⟩) := by
  rw [cut_open hopen, deliver_open hcount]

theorem At.cut_lost (h : At content s pos) (hopen : Open buf a) (hcount : ¬ 0 < s.count) :
    s.cut buf inBufSize = some (⟨none, 0, 0⟩, ⟨-1, [], some false⟩) := by
  rw [H264File.cut_open hopen, deliver_lost hcount, close_file h.file]

theorem At.cut_missing (h : At content s pos) (hmissing : Missing (Start buf) 0 (buf.length - 5)) :
    s.cut buf inBufSize = some (⟨none, 0, 0⟩, ⟨-1, [], some false⟩) := by
  rw [H264File.cut_missing hmissing, close_file h.file]

/-- What a call with a result does: it gives up, or it delivers a piece, or it
takes the window for the last one. -/
theorem At.readFrame_cases (h : At content s pos)
    (hread : readFrame content bufSize s inBufSize = some (s', answer)) :
    (s'.file = none ∧ answer.endOfFrame ≠ some true) ∨
    (∃ a e, Piece (fread content bufSize pos) a e ∧ pos + e < 2147483648 ∧
      s' = s.moved (pos + e) ∧ answer = ⟨copied e inBufSize,
        (fread content bufSize pos).take (copied e inBufSize).toNat, some false⟩) ∨
    (0 < s.count ∧ (∃ a, Open (fread content bufSize pos) a) ∧ s' = opened ∧
      answer = ⟨copied (fread content bufSize pos).length inBufSize,
        (fread content bufSize pos).take
          (copied (fread content bufSize pos).length inBufSize).toNat, some true⟩) := by
  have hgives : ∀ {t : H264File} {r : FrameAnswer}, some (t, r) = some (s', answer) →
      t.file = none → r.endOfFrame ≠ some true →
      s'.file = none ∧ answer.endOfFrame ≠ some true := by
    intro t r heq hclosed hend
    obtain ⟨rfl, rfl⟩ := Prod.mk.inj (Option.some.inj heq)
    exact ⟨hclosed, hend⟩
  rw [h.readFrame_eq] at hread
  split at hread
  · exact Or.inl (hgives hread rfl (by simp))
  rcases window_cases (fread content bufSize pos) with hmissing | ⟨a, e, hpiece⟩ | ⟨a, hopen⟩
  · rw [h.cut_missing hmissing] at hread
    exact Or.inl (hgives hread rfl (by simp))
  · have hfit : pos + e < 2147483648 := by
      rw [H264File.cut_piece hpiece, deliver_piece] at hread
      split at hread
      · cases hread
      · obtain ⟨x, hx, -⟩ := Option.map_eq_some_iff.1 hread
        exact h.advance_some hx
    rw [h.cut_piece hpiece hfit] at hread
    split at hread
    · cases hread
    · obtain ⟨rfl, rfl⟩ := Prod.mk.inj (Option.some.inj hread)
      exact Or.inr (Or.inl ⟨a, e, hpiece, hfit, rfl, rfl⟩)
  · by_cases hcount : 0 < s.count
    · rw [cut_last hopen hcount] at hread
      split at hread
      · cases hread
      · obtain ⟨rfl, rfl⟩ := Prod.mk.inj (Option.some.inj hread)
        exact Or.inr (Or.inr ⟨hcount, ⟨a, hopen⟩, rfl, rfl⟩)
    · rw [h.cut_lost hopen hcount] at hread
      exact Or.inl (hgives hread rfl (by simp))

/-! ## Runs of calls -/

/-- A call, with the size of its buffer. -/
def call (content : List Byte) (bufSize : Nat) (s : H264File) (inBufSize : Int) :
    Option H264File := (readFrame content bufSize s inBufSize).map Prod.fst

theorem window_le (h : Piece (fread content bufSize pos) a e) :
    pos + e + 6 ≤ content.length := by
  have hbounds := h.bounds
  have hlen := hbounds.2
  rw [length_fread] at hlen
  omega

theorem synced_call (h : Synced content s) (hcall : call content bufSize s inBufSize = some s') :
    Synced content s' := by
  obtain ⟨⟨t, answer⟩, hread, rfl⟩ := Option.map_eq_some_iff.1 hcall
  rcases h with hclosed | ⟨pos, hat⟩
  · rw [readFrame, hclosed] at hread
    obtain rfl := (Prod.mk.inj (Option.some.inj hread)).1
    exact Or.inl hclosed
  · rcases hat.readFrame_cases hread with
      ⟨hclosed, -⟩ | ⟨a, e, hpiece, -, rfl, -⟩ | ⟨-, -, rfl, -⟩
    · exact Or.inl hclosed
    · have hbounds := hpiece.bounds
      exact Or.inr ⟨pos + e, hat.next (by omega) (window_le hpiece)⟩
    · exact Or.inr ⟨0, opened_at⟩

theorem synced_run {calls : List Int} (hrun : Run (call content bufSize) opened calls s) :
    Synced content s :=
  hrun.invariant (fun _ _ _ h hcall => synced_call h hcall) (Or.inr ⟨0, opened_at⟩)

/-! ## The picture in a piece -/

/-- A first slice with its header at `h`, and a start code of it that begins
in the first `n` bytes. -/
def PictureIn (w : List Byte) (n h : Nat) : Prop :=
  FirstSlice w h ∧ ∃ p, p < n ∧ ∃ k, Code w p k ∧ h = p + k

/-- In a piece there is one, and all of its start code and header. -/
theorem Piece.picture (h : Piece buf a e) :
    ∃ x, x < e ∧ PictureIn buf e x ∧ ∀ y, PictureIn buf e y → y = x := by
  have hbounds := h.bounds
  obtain ⟨n, hcode, hslice⟩ := h.start.holds
  obtain ⟨m, hend, -⟩ := h.stop.holds
  have hn := hcode.le
  have hm := hend.ge
  have hinside : a + n < e := by
    have hne : a + n ≠ e := by
      intro heq
      have hzero := hend.zero (k := 0) (by omega)
      rw [Nat.add_zero, ← heq] at hzero
      exact hslice.ne_zero hzero
    omega
  refine ⟨a + n, hinside, ⟨hslice, a, by omega, n, hcode, rfl⟩, ?_⟩
  intro y hy
  obtain ⟨hslice', p, hp, k, hcode', rfl⟩ := hy
  have hstart : Start buf p := ⟨k, hcode', hslice'⟩
  by_cases hbefore : p < a
  · exact absurd hstart (h.start.least p (Nat.zero_le p) hbefore)
  by_cases hjump : p < a + 4
  · exact code_overlap hcode hslice hcode' (by omega) hjump
  · exact absurd hstart.isEnd (h.stop.least p (by omega) hp)

/-- What the window has of a piece, the file has. -/
theorem Piece.in_file (h : Piece (fread content bufSize pos) a e) :
    (∃ x, x < e ∧ PictureIn (content.drop pos) e x ∧
      ∀ y, PictureIn (content.drop pos) e y → y = x) ∧ End (content.drop pos) e := by
  have hbounds := h.bounds
  have hagree : ∀ i, i < (fread content bufSize pos).length →
      (fread content bufSize pos)[i]? = (content.drop pos)[i]? := fun i hi => fread_get hi
  have hpicture : ∀ y, PictureIn (fread content bufSize pos) e y ↔
      PictureIn (content.drop pos) e y := by
    intro y
    constructor
    · intro hy
      obtain ⟨hslice, p, hp, k, hcode, rfl⟩ := hy
      have hk := hcode.le
      exact ⟨(firstSlice_congr hagree (by omega)).1 hslice, p, hp, k,
        (code_congr hagree (by omega)).1 hcode, rfl⟩
    · intro hy
      obtain ⟨hslice, p, hp, k, hcode, rfl⟩ := hy
      have hk := hcode.le
      exact ⟨(firstSlice_congr hagree (by omega)).2 hslice, p, hp, k,
        (code_congr hagree (by omega)).2 hcode, rfl⟩
  refine ⟨?_, (end_congr hagree (by omega)).1 h.stop.holds⟩
  obtain ⟨x, hx, hin, honly⟩ := h.picture
  exact ⟨x, hx, (hpicture x).1 hin, fun y hy => honly y ((hpicture y).2 hy)⟩

/-- A call has returned the next `n` bytes of the file, which are a piece with
one picture, and has moved on behind them. -/
structure OnePicture (content : List Byte) (s s' : H264File) (answer : FrameAnswer)
    (pos n : Nat) : Prop where
  read_from : s.file = some pos
  size : answer.ret = n
  bytes : answer.bytes = (content.drop pos).take n
  picture : ∃ x, x < n ∧ PictureIn (content.drop pos) n x ∧
    ∀ y, PictureIn (content.drop pos) n y → y = x
  follows : End (content.drop pos) n
  next : s'.file = some (pos + n)

/-- For every file of less than 2³¹ bytes, after any calls: a call with a large
enough buffer has a result, so that it has looked at no byte behind the
window, and if it returns a piece before the last, there is one picture in
it. -/
theorem one_picture_in_a_piece {calls : List Int} (hfile : content.length < 2147483648)
    (hrun : Run (call content bufSize) opened calls s) (hsize : (bufSize : Int) ≤ inBufSize) :
    ∃ s' answer, readFrame content bufSize s inBufSize = some (s', answer) ∧
      (0 < answer.ret → answer.endOfFrame ≠ some true →
        ∃ pos n, OnePicture content s s' answer pos n) := by
  rcases synced_run hrun with hclosed | ⟨pos, hat⟩
  · refine ⟨s, ⟨-1, [], none⟩, ?_, ?_⟩
    · unfold readFrame
      rw [hclosed]
    · intro hret
      exact absurd hret (by decide)
  · have hlen : (fread content bufSize pos).length ≤ bufSize := length_fread_le
    rw [hat.readFrame_eq]
    by_cases hempty : (fread content bufSize pos).length = 0
    · rw [if_pos hempty]
      exact ⟨_, _, rfl, fun hret => absurd hret (by decide)⟩
    rw [if_neg hempty]
    rcases window_cases (fread content bufSize pos) with hmissing | ⟨a, e, hpiece⟩ | ⟨a, hopen⟩
    · exact ⟨_, _, hat.cut_missing hmissing, fun hret => absurd hret (by decide)⟩
    · have hbounds := hpiece.bounds
      have hend := window_le hpiece
      have hcopied : copied e inBufSize = e := copied_eq (by omega)
      refine ⟨_, _, by rw [hat.cut_piece hpiece (by omega), hcopied, if_neg (by omega)], ?_⟩
      intro _ _
      obtain ⟨hpicture, hfollows⟩ := hpiece.in_file
      refine ⟨pos, e, hat.file, rfl, ?_, hpicture, hfollows, rfl⟩
      show (fread content bufSize pos).take (e : Int).toNat = _
      rw [Int.toNat_natCast, take_fread (by omega)]
    · by_cases hcount : 0 < s.count
      · have hcopied : copied (fread content bufSize pos).length inBufSize =
            (fread content bufSize pos).length := copied_eq (by omega)
        refine ⟨opened, _, by rw [cut_last hopen hcount, hcopied, if_neg (by omega)], ?_⟩
        intro _ hlast
        exact absurd rfl hlast
      · exact ⟨_, _, hat.cut_lost hopen hcount, fun hret => absurd hret (by decide)⟩

/-- Three pictures, and the second call. -/
theorem one_picture_in_second_piece : ∃ content s s' answer pos n,
    Run (call content 64) opened [64] s ∧ readFrame content 64 s 64 = some (s', answer) ∧
      OnePicture content s s' answer pos n := by
  let content : List Byte := [0, 0, 0, 1, 0x67, 9, 0, 0, 0, 1, 0x65, 0x88, 7,
    0, 0, 1, 0x41, 0x9a, 1, 2, 3, 0, 0, 0, 1, 0x41, 0x9a, 8, 8]
  have hrun : Run (call content 64) opened [64] ⟨some 13, 13, 1⟩ := run_single.2 (by decide)
  have hread : readFrame content 64 ⟨some 13, 13, 1⟩ 64 =
      some (⟨some 21, 21, 2⟩, ⟨8, [0, 0, 1, 0x41, 0x9a, 1, 2, 3], some false⟩) := by decide
  obtain ⟨s', answer, hread', hpiece⟩ :=
    one_picture_in_a_piece (by decide) hrun (Int.le_refl 64)
  obtain ⟨rfl, rfl⟩ := Prod.mk.inj (Option.some.inj (hread.symm.trans hread'))
  obtain ⟨pos, n, h⟩ := hpiece (by decide) (by decide)
  exact ⟨content, _, _, _, pos, n, hrun, hread, h⟩

end H264File

end IotCamera
