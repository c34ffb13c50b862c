import IotCamera.Rtsp.AnnexB
import IotCamera.Rtsp.H264File

/-!
# What the scans find

A turn of a scan looks at no more than six bytes, the one at its place and the
five after it, and the scans stop five bytes before the end of the window. So
every turn has a result, and it says whether a picture starts there, or can
end there. That leaves three kinds of windows: those in which no picture
starts, those with a piece at their beginning, and those in which a picture
starts and does not end.
-/

namespace IotCamera

open AnnexB

namespace H264File

variable {buf : List Byte} {s : H264File} {i h a e : Nat} {inBufSize : Int}

theorem bytesAt_says (l : List Byte) (hi : i + l.length ≤ buf.length) :
    Says (bytesAt buf i l) (Matches buf i l) := by
  induction l generalizing i with
  | nil =>
      refine ⟨true, rfl, ?_⟩
      simp [Matches]
  | cons b l ih =>
      rw [List.length_cons] at hi
      have hlt : i < buf.length := by omega
      have hget : buf[i]? = some buf[i] := List.getElem?_eq_getElem hlt
      have hcons : Matches buf i (b :: l) ↔ buf[i] = b ∧ Matches buf (i + 1) l := by
        constructor
        · intro hm
          refine ⟨?_, ?_⟩
          · have h0 := hm 0 (Nat.succ_pos _)
            rw [Nat.add_zero, hget] at h0
            exact Option.some.inj h0
          · intro k hk
            have hnext := hm (k + 1) (Nat.succ_lt_succ hk)
            rw [← Nat.add_assoc, Nat.add_right_comm] at hnext
            exact hnext
        · intro hm k hk
          cases k with
          | zero => rw [Nat.add_zero, hget, hm.1]; rfl
          | succ k =>
              rw [← Nat.add_assoc, Nat.add_right_comm]
              exact hm.2 k (Nat.lt_of_succ_lt_succ hk)
      unfold Says bytesAt
      rw [hget, Option.bind_some, hcons]
      by_cases heq : buf[i] = b
      · rw [if_pos heq]
        simp only [heq, true_and]
        exact ih (by omega)
      · rw [if_neg heq]
        exact ⟨false, rfl, by simp [heq]⟩

/-- `startCode` finds the start code, if there is one. -/
theorem startCode_spec (hi : i + 4 ≤ buf.length) :
    ∃ o, startCode buf i = some o ∧ ∀ n, o = some n ↔ Code buf i n := by
  have hthree : Says (bytesAt buf i [0, 0, 1]) (Matches buf i [0, 0, 1]) :=
    bytesAt_says _ (Nat.le_trans (Nat.le_succ _) hi)
  have hfour : Says (bytesAt buf i [0, 0, 0, 1]) (Matches buf i [0, 0, 0, 1]) :=
    bytesAt_says _ hi
  obtain ⟨three, hthree, h3⟩ := hthree
  obtain ⟨four, hfour, h4⟩ := hfour
  unfold startCode
  rw [hthree, Option.bind_some]
  cases three with
  | true =>
      have hcode : Code buf i 3 := .three (h3.1 rfl)
      refine ⟨some 3, rfl, fun n => ?_⟩
      rw [Option.some.injEq]
      exact ⟨fun h => h ▸ hcode, fun h => hcode.unique h⟩
  | false =>
      rw [if_neg Bool.false_ne_true, hfour, Option.map_some]
      cases four with
      | true =>
          have hcode : Code buf i 4 := .four (h4.1 rfl)
          refine ⟨some 4, rfl, fun n => ?_⟩
          rw [Option.some.injEq]
          exact ⟨fun h => h ▸ hcode, fun h => hcode.unique h⟩
      | false =>
          refine ⟨none, rfl, fun n => ⟨fun h => absurd h (by simp), fun h => ?_⟩⟩
          cases h with
          | three hm => exact absurd (h3.2 hm) (by decide)
          | four hm => exact absurd (h4.2 hm) (by decide)

theorem firstSlice_says (hh : h + 2 ≤ buf.length) :
    Says (firstSlice buf h) (FirstSlice buf h) := by
  have hc : buf[h]? = some buf[h] := List.getElem?_eq_getElem (by omega)
  have hd : buf[h + 1]? = some buf[h + 1] := List.getElem?_eq_getElem (by omega)
  have hslice : FirstSlice buf h ↔ (buf[h] &&& 0x1F = 0x5 ∨ buf[h] &&& 0x1F = 0x1) ∧
      buf[h + 1] &&& 0x80 = 0x80 := by
    unfold FirstSlice
    rw [hc, hd]
    constructor
    · rintro ⟨c, d, ⟨⟩, ⟨⟩, htype, hbit⟩
      exact ⟨htype, hbit⟩
    · intro hboth
      exact ⟨_, _, rfl, rfl, hboth.1, hboth.2⟩
  unfold Says firstSlice
  rw [hc, hd, Option.bind_some, Option.map_some, hslice]
  by_cases htype : buf[h] &&& 0x1F = 0x5 ∨ buf[h] &&& 0x1F = 0x1
  · rw [if_pos htype]
    refine ⟨_, rfl, ?_⟩
    rw [decide_eq_true_iff]
    exact (and_iff_right htype).symm
  · rw [if_neg htype]
    exact ⟨false, rfl, iff_of_false Bool.false_ne_true fun hboth => htype hboth.1⟩

theorem boundary_says (hh : h + 2 ≤ buf.length) : Says (boundary buf h) (Boundary buf h) := by
  have hc : buf[h]? = some buf[h] := List.getElem?_eq_getElem (by omega)
  have hleading : Leading buf h ↔
      buf[h] &&& 0x1F = 0x7 ∨ buf[h] &&& 0x1F = 0x8 ∨ buf[h] &&& 0x1F = 0x6 := by
    unfold Leading
    rw [hc]
    constructor
    · rintro ⟨c, ⟨⟩, htype⟩
      exact htype
    · intro htype
      exact ⟨_, rfl, htype⟩
  unfold Says boundary Boundary
  rw [hc, Option.bind_some, hleading]
  by_cases htype : buf[h] &&& 0x1F = 0x7 ∨ buf[h] &&& 0x1F = 0x8 ∨ buf[h] &&& 0x1F = 0x6
  · rw [if_pos htype]
    exact ⟨true, rfl, iff_of_true rfl (Or.inl htype)⟩
  · rw [if_neg htype, or_iff_right htype]
    exact firstSlice_says hh

/-- No turn of a scan looks behind the window. -/
theorem scan_decides {header : List Byte → Nat → Option Bool} {H : List Byte → Nat → Prop}
    (hheader : ∀ h, h + 2 ≤ buf.length → Says (header buf h) (H buf h)) (lo : Nat) :
    Decides (scan header buf) (NalAt H buf) lo (buf.length - 5) := by
  intro i _ hi
  have hlook : i + 4 ≤ buf.length := by omega
  obtain ⟨o, ho, hcode⟩ := startCode_spec hlook
  unfold scan
  rw [ho, Option.bind_some]
  cases o with
  | none =>
      refine ⟨false, rfl, iff_of_false Bool.false_ne_true ?_⟩
      intro hnal
      obtain ⟨n, hn, -⟩ := hnal
      cases (hcode n).2 hn
  | some n =>
      have hn : Code buf i n := (hcode n).1 rfl
      have hle := hn.le
      obtain ⟨b, hb, hH⟩ := hheader (i + n) (by omega)
      refine ⟨b, hb, hH.trans ⟨fun h => ⟨n, hn, h⟩, fun hnal => ?_⟩⟩
      obtain ⟨m, hm, h⟩ := hnal
      exact hn.unique hm ▸ h

/-! ## Three kinds of windows -/

/-- Where in a window a picture starts first, and where the piece ends. -/
structure Piece (w : List Byte) (a e : Nat) : Prop where
  start : First (Start w) 0 (w.length - 5) a
  stop : First (End w) (a + 4) (w.length - 5) e

/-- Where in a window a picture starts that does not end. -/
structure Open (w : List Byte) (a : Nat) : Prop where
  start : First (Start w) 0 (w.length - 5) a
  stop : Missing (End w) (a + 4) (w.length - 5)

theorem cut_missing (h : Missing (Start buf) 0 (buf.length - 5)) :
    s.cut buf inBufSize = some (s.close, ⟨-1, [], some false⟩) := by
  unfold cut
  rw [search_missing (scan_decides (fun _ => firstSlice_says) 0) h, Option.bind_some]
  show (search (max 0 (buf.length - 5)) (buf.length - 5) (scan boundary buf)).bind _ = _
  rw [search_done (Nat.le_max_right _ _)]
  rfl

theorem cut_piece (h : Piece buf a e) :
    s.cut buf inBufSize = s.deliver buf inBufSize e true true := by
  unfold cut
  rw [search_first (scan_decides (fun _ => firstSlice_says) 0) h.start, Option.bind_some]
  show (search (a + 4) (buf.length - 5) (scan boundary buf)).bind _ = _
  rw [search_first (scan_decides (fun _ => boundary_says) _) h.stop, Option.bind_some]

theorem cut_open (h : Open buf a) : s.cut buf inBufSize =
    s.deliver buf inBufSize (max (a + 4) (buf.length - 5)) true false := by
  unfold cut
  rw [search_first (scan_decides (fun _ => firstSlice_says) 0) h.start, Option.bind_some]
  show (search (a + 4) (buf.length - 5) (scan boundary buf)).bind _ = _
  rw [search_missing (scan_decides (fun _ => boundary_says) _) h.stop, Option.bind_some]

theorem window_cases (buf : List Byte) : Missing (Start buf) 0 (buf.length - 5) ∨
    (∃ a e, Piece buf a e) ∨ ∃ a, Open buf a := by
  rcases first_or_missing (Start buf) 0 (buf.length - 5) with ⟨a, ha⟩ | hmissing
  · rcases first_or_missing (End buf) (a + 4) (buf.length - 5) with ⟨e, he⟩ | hopen
    · exact Or.inr (Or.inl ⟨a, e, ha, he⟩)
    · exact Or.inr (Or.inr ⟨a, ha, hopen⟩)
  · exact Or.inl hmissing

end H264File

end IotCamera
