import IotCamera.Proofs.H264Pieces

/-!
# Which files are read whole

A reader that goes on until the end of the file is set has the whole file only
if `readFrame` takes the last piece for the last one, and nothing before it.
It takes a piece for the last one if no other picture is in sight: in the
window, which is `m_bufSize` bytes, and with five bytes after its start code.
A piece before the last has to leave room for these, or the window itself is
taken for the last piece. A file of one picture has no piece before the last
one, and then there is not a last one either. What has no picture in it at the
end of a file is not delivered.

`Rest` says what the rest of a file has to be after a piece, from the last
piece backwards. Its two cases are the two ways a call can go on.
-/

namespace IotCamera

open AnnexB

namespace H264File

/-- Calling again and again, with a buffer as large as the window, one gets
these bytes up to the call that sets the end of the file, and with it. -/
inductive ReadsToEnd (content : List Byte) (bufSize : Nat) : H264File → List Byte → Prop
  | last {s s' : H264File} {answer : FrameAnswer}
      (hread : readFrame content bufSize s bufSize = some (s', answer))
      (hend : answer.endOfFrame = some true) : ReadsToEnd content bufSize s answer.bytes
  | more {s s' : H264File} {answer : FrameAnswer} {bytes : List Byte}
      (hread : readFrame content bufSize s bufSize = some (s', answer))
      (hgoes : answer.endOfFrame ≠ some true) (hrest : ReadsToEnd content bufSize s' bytes) :
      ReadsToEnd content bufSize s (answer.bytes ++ bytes)

/-- What the rest of a file is after so many bytes, when at least one piece
has been read: pieces that leave room in the window, and a picture that does
not end and fits the window. -/
inductive Rest (bufSize : Nat) : Nat → List Byte → Prop
  | last {pos a : Nat} {rest : List Byte} (hopen : Open rest a) (hfit : rest.length ≤ bufSize) :
      Rest bufSize pos rest
  | piece {pos a e : Nat} {rest : List Byte} (hpiece : Piece rest a e) (hroom : e + 6 ≤ bufSize)
      (hfit : pos + e < 2147483648) (hrest : Rest bufSize (pos + e) (rest.drop e)) :
      Rest bufSize pos rest

/-- The file has a piece that leaves room in the window, and another one. -/
def InPieces (bufSize : Nat) (content : List Byte) : Prop :=
  ∃ a e, Piece content a e ∧ e + 6 ≤ bufSize ∧ e < 2147483648 ∧ Rest bufSize e (content.drop e)

variable {content bytes : List Byte} {bufSize pos a e : Nat} {s : H264File}

/-! ## A window and the file -/

theorem Piece.congr {w w' : List Byte} (h : Piece w a e) (hlen : e + 6 ≤ w'.length)
    (hagree : ∀ i, i < e + 6 → w[i]? = w'[i]?) : Piece w' a e := by
  have hbounds := h.bounds
  exact ⟨h.start.congr (by omega) fun i hi => start_congr hagree (by omega),
    h.stop.congr (by omega) fun i hi => end_congr hagree (by omega)⟩

/-- A piece of the window is one of the file. -/
theorem Piece.of_window (h : Piece (fread content bufSize pos) a e) :
    Piece (content.drop pos) a e ∧ e + 6 ≤ bufSize := by
  have hbounds := h.bounds
  have hlen := hbounds.2
  rw [length_fread] at hlen
  refine ⟨h.congr ?_ fun i hi => fread_get (by omega), by omega⟩
  rw [List.length_drop]
  omega

/-- A piece of the file is one of the window, if there is room. -/
theorem Piece.to_window (h : Piece (content.drop pos) a e) (hroom : e + 6 ≤ bufSize) :
    Piece (fread content bufSize pos) a e := by
  have hbounds := h.bounds
  have hlen := hbounds.2
  rw [List.length_drop] at hlen
  have hwindow : e + 6 ≤ (fread content bufSize pos).length := by
    rw [length_fread]
    omega
  exact h.congr hwindow fun i hi => (fread_get (by omega)).symm

theorem fread_all (h : (content.drop pos).length ≤ bufSize) :
    fread content bufSize pos = content.drop pos := List.take_of_length_le h

/-! ## One call -/

theorem not_reads_closed (h : ReadsToEnd content bufSize s bytes) : s.file ≠ none := by
  induction h with
  | last hread hend =>
      intro hclosed
      rw [readFrame, hclosed] at hread
      obtain ⟨rfl, rfl⟩ := Prod.mk.inj (Option.some.inj hread)
      cases hend
  | more hread hgoes hrest ih =>
      intro hclosed
      rw [readFrame, hclosed] at hread
      obtain ⟨rfl, rfl⟩ := Prod.mk.inj (Option.some.inj hread)
      exact ih hclosed

/-- What a call does that does not give up. -/
theorem At.readFrame_some {s' : H264File} {answer : FrameAnswer} (h : At content s pos)
    (hread : readFrame content bufSize s bufSize = some (s', answer))
    (hgoes : s'.file = none → answer.endOfFrame = some true) :
    (∃ a e, Piece (fread content bufSize pos) a e ∧ pos + e < 2147483648 ∧
      s' = s.moved (pos + e) ∧ answer = ⟨e, (content.drop pos).take e, some false⟩) ∨
    (0 < s.count ∧ (∃ a, Open (fread content bufSize pos) a) ∧ s' = opened ∧
      answer.bytes = fread content bufSize pos ∧ answer.endOfFrame = some true) := by
  have hlen : (fread content bufSize pos).length ≤ bufSize := length_fread_le
  rcases h.readFrame_cases hread with
    ⟨hclosed, hend⟩ | ⟨a, e, hpiece, hfit, hmoved, rfl⟩ | ⟨hcount, hopen, hopened, rfl⟩
  · exact absurd (hgoes hclosed) hend
  · left
    have hbounds := hpiece.bounds
    have hcopied : copied e bufSize = e := copied_eq (by omega)
    refine ⟨a, e, hpiece, hfit, hmoved, ?_⟩
    rw [hcopied, Int.toNat_natCast, take_fread (by omega)]
  · right
    have hcopied : copied (fread content bufSize pos).length bufSize =
        (fread content bufSize pos).length := copied_eq (by omega)
    refine ⟨hcount, hopen, hopened, ?_, rfl⟩
    rw [hcopied, Int.toNat_natCast, List.take_length]

/-- The next call of a reader that gets the rest of the file: it finds a piece
and goes on, or what it takes for the last piece is the rest. -/
theorem ReadsToEnd.next (h : ReadsToEnd content bufSize s (content.drop pos))
    (hat : At content s pos) :
    (∃ a e, Piece (content.drop pos) a e ∧ e + 6 ≤ bufSize ∧ pos + e < 2147483648 ∧
      ReadsToEnd content bufSize (s.moved (pos + e)) (content.drop (pos + e))) ∨
    (0 < s.count ∧ (∃ a, Open (content.drop pos) a) ∧ (content.drop pos).length ≤ bufSize) := by
  generalize hbytes : content.drop pos = bytes at h
  cases h with
  | last hread hend =>
      rcases hat.readFrame_some hread (fun _ => hend) with ⟨a, e, hpiece, hfit, rfl, rfl⟩ |
        ⟨hcount, ⟨a, hopen⟩, rfl, hwindow, -⟩
      · cases hend
      · right
        rw [hwindow] at hbytes ⊢
        exact ⟨hcount, ⟨a, hopen⟩, length_fread_le⟩
  | more hread hgoes hrest =>
      rcases hat.readFrame_some hread (fun hclosed => absurd hclosed (not_reads_closed hrest)) with
        ⟨a, e, hpiece, hfit, rfl, rfl⟩ | ⟨hcount, ⟨a, hopen⟩, rfl, hwindow, hend⟩
      · left
        obtain ⟨hpiece', hroom⟩ := hpiece.of_window
        rw [← hbytes]
        refine ⟨a, e, hpiece', hroom, hfit, ?_⟩
        have hsplit := List.take_append_drop e (content.drop pos)
        rw [List.drop_drop] at hsplit
        rw [List.append_cancel_left (hsplit.trans hbytes)]
        exact hrest
      · exact absurd hend hgoes

/-! ## The whole file -/

theorem At.rest_of_reads (hat : At content s pos) (hcount : 0 < s.count)
    (h : ReadsToEnd content bufSize s (content.drop pos)) :
    Rest bufSize pos (content.drop pos) := by
  induction hn : content.length - pos using Nat.strong_induction_on generalizing pos s with
  | _ n ih =>
    rcases h.next hat with ⟨a, e, hpiece, hroom, hfit, hrest⟩ | ⟨-, ⟨a, hopen⟩, hlen⟩
    · have hbounds := hpiece.bounds
      rw [List.length_drop] at hbounds
      have hat' : At content (s.moved (pos + e)) (pos + e) :=
        hat.next (by omega) (by omega)
      have hcount' : 0 < (s.moved (pos + e)).count := by
        show 0 < s.count + 1
        omega
      refine .piece hpiece hroom hfit ?_
      rw [List.drop_drop]
      exact ih _ (by omega) hat' hcount' hrest rfl
    · exact .last hopen hlen

/-- The call that finds the next piece of the file. -/
theorem At.readFrame_piece (h : At content s pos) (hpiece : Piece (content.drop pos) a e)
    (hroom : e + 6 ≤ bufSize) (hfit : pos + e < 2147483648) :
    readFrame content bufSize s bufSize =
      some (s.moved (pos + e), ⟨e, (content.drop pos).take e, some false⟩) := by
  have hwindow := hpiece.to_window hroom
  have hbounds := hwindow.bounds
  have hcopied : copied e bufSize = e := copied_eq (by omega)
  rw [h.readFrame_eq, if_neg (by omega), h.cut_piece hwindow hfit, hcopied, if_neg (by omega),
    Int.toNat_natCast, take_fread (by omega)]

/-- The call that takes the rest of the file for the last piece. -/
theorem At.readFrame_last (h : At content s pos) (hcount : 0 < s.count)
    (hopen : Open (content.drop pos) a) (hlen : (content.drop pos).length ≤ bufSize) :
    readFrame content bufSize s bufSize =
      some (opened, ⟨(content.drop pos).length, content.drop pos, some true⟩) := by
  have hbounds := hopen.bounds
  have hcopied : copied (content.drop pos).length bufSize = (content.drop pos).length :=
    copied_eq (by omega)
  rw [h.readFrame_eq, fread_all hlen, if_neg (by omega), cut_last hopen hcount, hcopied,
    if_neg (by omega), Int.toNat_natCast, List.take_length]

theorem At.reads_of_rest (hat : At content s pos) (hcount : 0 < s.count)
    (h : Rest bufSize pos bytes) (hbytes : bytes = content.drop pos) :
    ReadsToEnd content bufSize s bytes := by
  induction h generalizing s with
  | last hopen hlen =>
      subst hbytes
      exact .last (hat.readFrame_last hcount hopen hlen) rfl
  | @piece pos a e rest hpiece hroom hfit _ ih =>
      subst hbytes
      have hbounds := hpiece.bounds
      rw [List.length_drop] at hbounds
      have hcount' : 0 < (s.moved (pos + e)).count := by
        show 0 < s.count + 1
        omega
      have hrest := ih (hat.next (by omega) (by omega)) hcount' List.drop_drop
      have hmore := ReadsToEnd.more (hat.readFrame_piece hpiece hroom hfit) (by simp) hrest
      rw [List.take_append_drop] at hmore
      exact hmore

/-- The first piece, and where the reader is behind it. -/
theorem moved_at (hpiece : Piece content a e) :
    At content (opened.moved e) e ∧ 0 < (opened.moved e).count := by
  have hbounds := hpiece.bounds
  have hnext : At content (opened.moved (0 + e)) (0 + e) :=
    opened_at.next (by omega) (by omega)
  rw [Nat.zero_add] at hnext
  exact ⟨hnext, Int.zero_lt_one⟩

/-- For every file and every size of the window: calling `readFrame` until it
sets the end of the file gives the whole file exactly if the file is made of
pieces that fit. -/
theorem reads_whole_iff : ReadsToEnd content bufSize opened content ↔ InPieces bufSize content := by
  constructor
  · intro h
    have hopened : At content opened 0 := opened_at
    rw [← List.drop_zero (l := content)] at h
    rcases h.next hopened with ⟨a, e, hpiece, hroom, hfit, hrest⟩ | ⟨hcount, -⟩
    · rw [List.drop_zero] at hpiece
      rw [Nat.zero_add] at hfit hrest
      obtain ⟨hat, hcount⟩ := moved_at hpiece
      exact ⟨a, e, hpiece, hroom, hfit, hat.rest_of_reads hcount hrest⟩
    · exact absurd hcount (by decide)
  · intro h
    obtain ⟨a, e, hpiece, hroom, hfit, hrest⟩ := h
    obtain ⟨hat, hcount⟩ := moved_at hpiece
    have hpiece' : Piece (content.drop 0) a e := hpiece
    have hread := opened_at.readFrame_piece hpiece' hroom (by omega)
    rw [Nat.zero_add, List.drop_zero] at hread
    have hmore := ReadsToEnd.more hread (by simp) (hat.reads_of_rest hcount hrest rfl)
    rw [List.take_append_drop] at hmore
    exact hmore

/-- Two parameter sets and one picture, read with a window as large as
`H264File` makes it. The picture is never delivered. -/
theorem one_picture_not_read : ∃ content : List Byte,
    (∃ p, Start content p) ∧ ¬ ReadsToEnd content 500000 opened content := by
  let content : List Byte := [0, 0, 0, 1, 0x67, 0x42, 0, 0, 0, 1, 0x68, 0xce,
    0, 0, 0, 1, 0x65, 0x88, 0x84, 0x21]
  have hslice : firstSlice content 16 = some true := by decide
  have hcode : startCode content 12 = some (some 4) := by decide
  have hnone : ∀ h, h < 15 → firstSlice content h = some false := by decide
  refine ⟨content, ⟨12, 4, ?_, ?_⟩, ?_⟩
  · obtain ⟨o, ho, hspec⟩ := startCode_spec (show 12 + 4 ≤ content.length by decide)
    rw [hcode, Option.some.injEq] at ho
    exact (hspec 4).1 ho.symm
  · obtain ⟨b, hb, hspec⟩ := firstSlice_says (show 16 + 2 ≤ content.length by decide)
    rw [hslice, Option.some.injEq] at hb
    exact hspec.1 hb.symm
  · intro h
    obtain ⟨a, e, hpiece, -⟩ := reads_whole_iff.1 h
    have hbounds := hpiece.bounds
    have hlen : e + 6 ≤ 20 := hbounds.2
    -- a piece needs six bytes behind it, so its picture is not the only one
    obtain ⟨n, hn, hfirst⟩ := hpiece.start.holds
    have hle := hn.le
    obtain ⟨b, hb, hspec⟩ := firstSlice_says (show a + n + 2 ≤ content.length by
      show a + n + 2 ≤ 20
      omega)
    rw [hnone (a + n) (by omega), Option.some.injEq] at hb
    exact absurd (hspec.2 hfirst) (by rw [← hb]; decide)

end H264File

end IotCamera
