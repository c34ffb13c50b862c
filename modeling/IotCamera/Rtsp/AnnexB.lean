import IotCamera.Lib.Memory
import Mathlib.Tactic.Common

/-!
# Byte streams of NAL units

What a start code is, and a header, without a program that looks for one. A
start code has three or four bytes. The one of four bytes has the one of three
in it, one byte further on, so that a header can have two start codes. With a
header that is not zero there is nothing else that overlaps, which is
`code_overlap`: a start code that begins in the four bytes of another one, or
in the header after it, is the shorter code of the same header.

All of it depends on a few bytes from the start code on. Two streams that
agree on these agree on what is there.
-/

namespace AnnexB

/-- The bytes of `l`, from `p` on. -/
def Matches (w : List Byte) (p : Nat) (l : List Byte) : Prop :=
  ∀ k, k < l.length → w[p + k]? = l[k]?

/-- A start code of `n` bytes at `p`. -/
inductive Code (w : List Byte) (p : Nat) : Nat → Prop
  | three (h : Matches w p [0, 0, 1]) : Code w p 3
  | four (h : Matches w p [0, 0, 0, 1]) : Code w p 4

/-- The first slice of a picture: type 5 or 1, and the first bit of the slice
header is set. -/
def FirstSlice (w : List Byte) (h : Nat) : Prop :=
  ∃ c d, w[h]? = some c ∧ w[h + 1]? = some d ∧ (c &&& 0x1F = 0x5 ∨ c &&& 0x1F = 0x1) ∧
    d &&& 0x80 = 0x80

/-- A sequence or picture parameter set, or an SEI. -/
def Leading (w : List Byte) (h : Nat) : Prop :=
  ∃ c, w[h]? = some c ∧ (c &&& 0x1F = 0x7 ∨ c &&& 0x1F = 0x8 ∨ c &&& 0x1F = 0x6)

/-- What a picture ends at. -/
def Boundary (w : List Byte) (h : Nat) : Prop := Leading w h ∨ FirstSlice w h

/-- A start code at `p`, and a header of some kind after it. -/
def NalAt (H : List Byte → Nat → Prop) (w : List Byte) (p : Nat) : Prop :=
  ∃ n, Code w p n ∧ H w (p + n)

/-- Where a picture starts. -/
abbrev Start : List Byte → Nat → Prop := NalAt FirstSlice

/-- Where one can end. -/
abbrev End : List Byte → Nat → Prop := NalAt Boundary

variable {w w' : List Byte} {H : List Byte → Nat → Prop} {p q m n k h : Nat}

theorem Start.isEnd (hp : Start w p) : End w p := by
  obtain ⟨n, hcode, hslice⟩ := hp
  exact ⟨n, hcode, Or.inr hslice⟩

theorem Code.le (hc : Code w p n) : n ≤ 4 := by
  cases hc <;> decide

theorem Code.ge (hc : Code w p n) : 3 ≤ n := by
  cases hc <;> decide

/-! ## The bytes of a start code -/

/-- A start code has zeros, then a one, and that is where its header is. -/
theorem Code.zero (hc : Code w p n) (hk : k + 1 < n) : w[p + k]? = some 0 := by
  cases hc with
  | three hm =>
      have hcases : k = 0 ∨ k = 1 := by omega
      rcases hcases with rfl | rfl
      · exact hm 0 (by decide)
      · exact hm 1 (by decide)
  | four hm =>
      have hcases : k = 0 ∨ k = 1 ∨ k = 2 := by omega
      rcases hcases with rfl | rfl | rfl
      · exact hm 0 (by decide)
      · exact hm 1 (by decide)
      · exact hm 2 (by decide)

theorem Code.one (hc : Code w p n) : w[p + (n - 1)]? = some 1 := by
  cases hc with
  | three hm => exact hm 2 (by decide)
  | four hm => exact hm 3 (by decide)

theorem FirstSlice.ne_zero (hs : FirstSlice w h) : w[h]? ≠ some 0 := by
  obtain ⟨c, d, hc, -, htype, -⟩ := hs
  intro hzero
  obtain rfl := Option.some.inj (hc.symm.trans hzero)
  revert htype
  decide

theorem Code.unique (hp : Code w p n) (hp' : Code w p m) : n = m := by
  have hone := hp.one
  have hone' := hp'.one
  have hge := hp.ge
  have hge' := hp'.ge
  rcases Nat.lt_trichotomy n m with hlt | heq | hgt
  · rw [hp'.zero (by omega)] at hone
    exact absurd hone (by decide)
  · exact heq
  · rw [hp.zero (by omega)] at hone'
    exact absurd hone' (by decide)

/-- A start code that begins between the beginning of another one and the
header after it is the shorter code of the same header. Its two zeros are not
the one of the other code, and not the header. -/
theorem code_overlap (hp : Code w p n) (hslice : FirstSlice w (p + n)) (hq : Code w q m)
    (hle : p ≤ q) (hlt : q < p + 4) : q + m = p + n := by
  have hn := hp.le
  have hn' := hp.ge
  have hm := hq.le
  have hm' := hq.ge
  have hnot_one : ∀ k, k + 1 < m → q + k ≠ p + (n - 1) := by
    intro k hk heq
    have hzero := hq.zero hk
    rw [heq, hp.one] at hzero
    exact absurd hzero (by decide)
  have hnot_header : q ≠ p + n := by
    intro heq
    have hzero := hq.zero (k := 0) (by omega)
    rw [Nat.add_zero, heq] at hzero
    exact hslice.ne_zero hzero
  have hfirst := hnot_one 0 (by omega)
  have hle_one : p + (n - 1) ≤ q + (m - 1) := by
    by_contra hcon
    have hzero := hp.zero (k := q + (m - 1) - p) (by omega)
    rw [show p + (q + (m - 1) - p) = q + (m - 1) by omega, hq.one] at hzero
    exact absurd hzero (by decide)
  have hge_one : q + (m - 1) ≤ p + (n - 1) := by
    by_contra hcon
    exact hnot_one (p + (n - 1) - q) (by omega) (by omega)
  omega

/-! ## Streams that agree -/

section Agree

variable (hagree : ∀ i, i < k → w[i]? = w'[i]?)
include hagree

theorem matches_congr {l : List Byte} (hp : p + l.length ≤ k) :
    Matches w p l ↔ Matches w' p l := by
  have hbyte : ∀ i, i < l.length → w[p + i]? = w'[p + i]? :=
    fun i hi => hagree (p + i) (by omega)
  constructor
  · intro h i hi
    rw [← hbyte i hi, h i hi]
  · intro h i hi
    rw [hbyte i hi, h i hi]

theorem code_congr (hp : p + 4 ≤ k) : Code w p n ↔ Code w' p n := by
  have h3 : Matches w p [0, 0, 1] ↔ Matches w' p [0, 0, 1] :=
    matches_congr hagree (Nat.le_trans (Nat.le_succ _) hp)
  have h4 : Matches w p [0, 0, 0, 1] ↔ Matches w' p [0, 0, 0, 1] := matches_congr hagree hp
  constructor
  · intro h
    cases h with
    | three hm => exact .three (h3.1 hm)
    | four hm => exact .four (h4.1 hm)
  · intro h
    cases h with
    | three hm => exact .three (h3.2 hm)
    | four hm => exact .four (h4.2 hm)

theorem firstSlice_congr (hh : h + 2 ≤ k) : FirstSlice w h ↔ FirstSlice w' h := by
  unfold FirstSlice
  rw [hagree h (by omega), hagree (h + 1) (by omega)]

theorem boundary_congr (hh : h + 2 ≤ k) : Boundary w h ↔ Boundary w' h := by
  unfold Boundary Leading
  rw [firstSlice_congr hagree hh, hagree h (by omega)]

theorem nalAt_congr (hH : ∀ h, h + 2 ≤ k → (H w h ↔ H w' h)) (hp : p + 6 ≤ k) :
    NalAt H w p ↔ NalAt H w' p := by
  refine exists_congr fun n => ?_
  have hcode : Code w p n ↔ Code w' p n := code_congr hagree (by omega)
  constructor
  · intro h
    have hn := h.1.le
    exact ⟨hcode.1 h.1, (hH (p + n) (by omega)).1 h.2⟩
  · intro h
    have hn := h.1.le
    exact ⟨hcode.2 h.1, (hH (p + n) (by omega)).2 h.2⟩

theorem start_congr (hp : p + 6 ≤ k) : Start w p ↔ Start w' p :=
  nalAt_congr hagree (fun _ hh => firstSlice_congr hagree hh) hp

theorem end_congr (hp : p + 6 ≤ k) : End w p ↔ End w' p :=
  nalAt_congr hagree (fun _ hh => boundary_congr hagree hh) hp

end Agree

end AnnexB
