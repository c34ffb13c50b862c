import IotCamera.Proofs.YuvPlanes
import Mathlib.Algebra.BigOperators.Pi

/-!
# What the converter by blocks writes

`rgb32_to_i420` walks two rows at a time, and its six pointers move together:
before block `(r, c)` each of them is a fixed distance from `r * pair w + 2 * c`
pixels, where `pair w` is what a pair of rows takes. The source pointers and
the luma pointers keep the same distance, so that a byte of luma that is
stored is always the luma of the pixel with its number. What an odd width
changes is `pair w`, which is a pixel short of two rows: the walk stays on the
picture, shears, and passes over a pixel in each pair.

`i420` says what is stored for any size, as runs; the rest is arithmetic of
where the runs lie.
-/

namespace IotCamera

open Log (run tally_put run_succ run_succ_succ)

variable {w h r c n k e o : Nat} {src : Block} {q : List Colour}

/-! ## Averages -/

namespace Colour

/-- The sums of the channels. -/
def total (q : List Colour) : Colour where
  R := (q.map Colour.R).sum
  G := (q.map Colour.G).sum
  B := (q.map Colour.B).sum

/-- The truncated average of four, channel by channel. -/
def mean (q : List Colour) : Colour where
  R := (total q).R.tdiv 4
  G := (total q).G.tdiv 4
  B := (total q).B.tdiv 4

/-- The sums are `short`. -/
structure Fits (s : Colour) : Prop where
  R : CInt.FitsShort s.R
  G : CInt.FitsShort s.G
  B : CInt.FitsShort s.B

theorem total_range (hq : ∀ x ∈ q, Bytes x) :
    (0 ≤ (total q).R ∧ (total q).R ≤ 255 * q.length) ∧
      (0 ≤ (total q).G ∧ (total q).G ≤ 255 * q.length) ∧
      0 ≤ (total q).B ∧ (total q).B ≤ 255 * q.length := by
  induction q with
  | nil => simp [total]
  | cons x q ih =>
      obtain ⟨hR, hG, hB⟩ := hq x List.mem_cons_self
      have hrest := ih fun y hy => hq y (List.mem_cons_of_mem x hy)
      simp only [total, List.map_cons, List.sum_cons, List.length_cons, Nat.cast_succ] at hrest ⊢
      omega

theorem fits_total (hq : ∀ x ∈ q, Bytes x) (hlen : q.length ≤ 4) : Fits (total q) := by
  obtain ⟨hR, hG, hB⟩ := total_range hq
  refine ⟨?_, ?_, ?_⟩ <;> (unfold CInt.FitsShort; omega)

theorem bytes_mean (hq : ∀ x ∈ q, Bytes x) (hlen : q.length ≤ 4) : Bytes (mean q) := by
  obtain ⟨hR, hG, hB⟩ := total_range hq
  have hbyte : ∀ z : Int, 0 ≤ z → z ≤ 255 * q.length → 0 ≤ z.tdiv 4 ∧ z.tdiv 4 ≤ 255 := by
    intro z hlo hhi
    rw [Int.tdiv_eq_ediv_of_nonneg hlo]
    omega
  exact ⟨hbyte _ hR.1 hR.2, hbyte _ hG.1 hG.2, hbyte _ hB.1 hB.2⟩

theorem add_eq {a b s : Colour} (hR : s.R = a.R + b.R) (hG : s.G = a.G + b.G)
    (hB : s.B = a.B + b.B) (hs : Fits s) : a.add b = s := by
  obtain ⟨sR, sG, sB⟩ := s
  obtain rfl : sR = a.R + b.R := hR
  obtain rfl : sG = a.G + b.G := hG
  obtain rfl : sB = a.B + b.B := hB
  rw [add, CInt.toInt_short hs.R, CInt.toInt_short hs.G, CInt.toInt_short hs.B]

theorem quarter_total (hq : ∀ x ∈ q, Bytes x) (hlen : q.length ≤ 4) :
    (total q).quarter = mean q := by
  obtain ⟨hR, hG, hB⟩ := bytes_mean hq hlen
  have hshort : ∀ z : Int, 0 ≤ z ∧ z ≤ 255 → (CInt.short z).toInt = z := fun z hz =>
    CInt.toInt_short ⟨by omega, by omega⟩
  rw [quarter, mean]
  congr 1
  · exact hshort _ hR
  · exact hshort _ hG
  · exact hshort _ hB

/-- Four pixels added up one by one in `short` and divided have their mean. -/
theorem quarter_add {a b x y : Colour} (ha : a.Bytes) (hb : b.Bytes) (hx : x.Bytes)
    (hy : y.Bytes) : (((a.add b).add x).add y).quarter = mean [a, b, x, y] := by
  have hq : ∀ z ∈ [a, b, x, y], Bytes z := by simp [ha, hb, hx, hy]
  have h₂ : a.add b = total [a, b] :=
    add_eq (by simp [total]) (by simp [total]) (by simp [total])
      (fits_total (fun z hz => hq z (List.mem_of_mem_take (i := 2) hz)) (by simp))
  have h₃ : (total [a, b]).add x = total [a, b, x] :=
    add_eq (by simp [total, add_assoc]) (by simp [total, add_assoc]) (by simp [total, add_assoc])
      (fits_total (fun z hz => hq z (List.mem_of_mem_take (i := 3) hz)) (by simp))
  have h₄ : (total [a, b, x]).add y = total [a, b, x, y] :=
    add_eq (by simp [total, add_assoc]) (by simp [total, add_assoc]) (by simp [total, add_assoc])
      (fits_total hq (by simp))
  rw [h₂, h₃, h₄, quarter_total hq (by simp)]

end Colour

/-! ## One block -/

/-- The pixels of the block whose rows start at `e` and `o`. -/
def quad (src : Block) (e o : Nat) : List Colour :=
  [colourAt src 4 e, colourAt src 4 (e + 1), colourAt src 4 o, colourAt src 4 (o + 1)]

theorem pixel32_eq (hsize : 4 * n + 2 < src.size) :
    pixel32 src (4 * n : Nat) = some (colourAt src 4 n) := by
  have hone : ((4 * n : Nat) : Int) + 1 = (4 * n + 1 : Nat) := rfl
  have htwo : ((4 * n : Nat) : Int) + 2 = (4 * n + 2 : Nat) := rfl
  rw [pixel32, hone, htwo, fetch_eq (by omega), fetch_eq (by omega), fetch_eq hsize]
  rfl

/-- The luma byte of a pixel. -/
def luma32 (src : Block) (n : Nat) : Byte := uchar (colourAt src 4 n).Y

theorem blockStep_eq {out : Log Byte} {u v : Nat} (hsize : 4 * (o + 1) + 2 < src.size)
    (heo : e ≤ o) :
    blockStep src ⟨out, (4 * e : Nat), (4 * o : Nat), e, o, u, v⟩ =
      some ⟨(((((out.put e (luma32 src e)).put (e + 1 : Nat) (luma32 src (e + 1))).put o
          (luma32 src o)).put (o + 1 : Nat) (luma32 src (o + 1))).put u
            (uchar (Colour.mean (quad src e o)).U)).put v (uchar (Colour.mean (quad src e o)).V),
        (4 * (e + 2) : Nat), (4 * (o + 2) : Nat), (e + 2 : Nat), (o + 2 : Nat), (u + 1 : Nat),
        (v + 1 : Nat)⟩ := by
  have heven : ((4 * e : Nat) : Int) + 4 = (4 * (e + 1) : Nat) := rfl
  have hodd : ((4 * o : Nat) : Int) + 4 = (4 * (o + 1) : Nat) := rfl
  rw [blockStep]
  dsimp only
  rw [heven, hodd, pixel32_eq (by omega), pixel32_eq (by omega), pixel32_eq (by omega),
    pixel32_eq hsize]
  simp only [Option.bind_eq_bind, Option.bind_some]
  rw [Colour.quarter_add (bytes_colourAt ..) (bytes_colourAt ..) (bytes_colourAt ..)
    (bytes_colourAt ..)]
  rfl

/-! ## The walk -/

/-- The pixels a pair of rows takes. -/
def pair (w : Nat) : Nat := 2 * (w / 2) + w

/-- The pixels of the `s`th block. -/
def blockAt (src : Block) (w s : Nat) : List Colour :=
  quad src (s / (w / 2) * pair w + 2 * (s % (w / 2)))
    (s / (w / 2) * pair w + 2 * (s % (w / 2)) + w)

/-- `n` stores of luma from a pixel on. -/
def lumaRun (src : Block) (start n : Nat) : Int → Multiset Byte :=
  run start n fun m => luma32 src (start + m)

theorem blockAt_eq (hc : c < w / 2) :
    blockAt src w (r * (w / 2) + c) =
      quad src (r * pair w + 2 * c) (r * pair w + 2 * c + w) := by
  have hdiv : (r * (w / 2) + c) / (w / 2) = r := by
    rw [Nat.mul_comm, Nat.mul_add_div (by omega), Nat.div_eq_of_lt hc, Nat.add_zero]
  have hmod : (r * (w / 2) + c) % (w / 2) = c := by
    rw [Nat.mul_comm, Nat.mul_add_mod, Nat.mod_eq_of_lt hc]
  rw [blockAt, hdiv, hmod]

theorem lumaRun_two : lumaRun src e (n + 2) = lumaRun src e n +
    Pi.single ((e + n : Nat) : Int) {luma32 src (e + n)} +
    Pi.single ((e + n + 1 : Nat) : Int) {luma32 src (e + n + 1)} := run_succ_succ

theorem lumaRun_zero : lumaRun src e 0 = 0 := Log.run_zero

/-- The state before block `(r, c)`. -/
structure WalkAt (src : Block) (w h r c : Nat) (s : Walk) : Prop where
  srcEven : s.srcEven = (4 * (r * pair w + 2 * c) : Nat)
  srcOdd : s.srcOdd = (4 * (r * pair w + 2 * c + w) : Nat)
  dstYEven : s.dstYEven = (r * pair w + 2 * c : Nat)
  dstYOdd : s.dstYOdd = (r * pair w + 2 * c + w : Nat)
  dstU : s.dstU = (w * h + (r * (w / 2) + c) : Nat)
  dstV : s.dstV = (w * h + w * h / 4 + (r * (w / 2) + c) : Nat)
  tally : s.out.tally = ∑ i ∈ Finset.range r,
      (lumaRun src (i * pair w) (2 * (w / 2)) + lumaRun src (i * pair w + w) (2 * (w / 2))) +
    (lumaRun src (r * pair w) (2 * c) + lumaRun src (r * pair w + w) (2 * c)) +
    (run (w * h : Nat) (r * (w / 2) + c) (fun s => uchar (Colour.mean (blockAt src w s)).U) +
      run (w * h + w * h / 4 : Nat) (r * (w / 2) + c)
        fun s => uchar (Colour.mean (blockAt src w s)).V)

/-- A block lies in the picture. -/
theorem block_lt (hr : r < h / 2) (hc : c < w / 2) :
    r * pair w + 2 * c + w + 1 < w * h := by
  have hpair : r * pair w ≤ r * (2 * w) := Nat.mul_le_mul_left r (by unfold pair; omega)
  have hrows : 2 * (r + 1) * w ≤ h * w := Nat.mul_le_mul_right w (by omega)
  have hmul : 2 * (r + 1) * w = r * (2 * w) + 2 * w := by ring
  rw [Nat.mul_comm w]
  omega

theorem blockStep_spec {t : Walk} (hsize : src.size = 4 * (w * h)) (hr : r < h / 2)
    (hc : c < w / 2) (ht : WalkAt src w h r c t) :
    ∃ t', blockStep src t = some t' ∧ WalkAt src w h r (c + 1) t' := by
  have hlt := block_lt hr hc
  obtain ⟨out, srcEven, srcOdd, dstYEven, dstYOdd, dstU, dstV⟩ := t
  obtain ⟨rfl, rfl, rfl, rfl, rfl, rfl, htally⟩ := ht
  have hodd : r * pair w + w + 2 * c = r * pair w + 2 * c + w := Nat.add_right_comm ..
  have hnext : r * pair w + 2 * (c + 1) + w = r * pair w + 2 * c + w + 2 := by omega
  refine ⟨_, blockStep_eq (by omega) (by omega), rfl, ?_, rfl, ?_, rfl, rfl, ?_⟩
  · rw [hnext]
  · rw [hnext]
  · rw [tally_put, tally_put, tally_put, tally_put, tally_put, tally_put, htally, Nat.mul_succ,
      lumaRun_two, lumaRun_two, hodd, ← Nat.add_assoc (r * (w / 2)), run_succ, run_succ,
      blockAt_eq hc, Nat.cast_add (w * h), Nat.cast_add (w * h + w * h / 4)]
    abel

theorem stride_eq (hstride : 4 * w < 2147483648) :
    CInt.int ((w : Int) * 4) = some ((4 * w : Nat) : Int) := by
  have hmul : (w : Int) * 4 = ((4 * w : Nat) : Int) := by omega
  rw [hmul]
  exact CInt.int_eq (by omega) (by omega)

theorem rowEnd_spec {t : Walk} (hstride : 4 * w < 2147483648)
    (ht : WalkAt src w h r (w / 2) t) :
    ∃ t', rowEnd w t = some t' ∧ WalkAt src w h (r + 1) 0 t' := by
  obtain ⟨out, srcEven, srcOdd, dstYEven, dstYOdd, dstU, dstV⟩ := t
  obtain ⟨rfl, rfl, rfl, rfl, rfl, rfl, htally⟩ := ht
  have hpair : (r + 1) * pair w + 2 * 0 = r * pair w + 2 * (w / 2) + w := by
    rw [Nat.succ_mul, pair]
    omega
  have hblocks : (r + 1) * (w / 2) + 0 = r * (w / 2) + w / 2 := Nat.succ_mul ..
  refine ⟨_, by rw [rowEnd, stride_eq hstride]; rfl, ?_, ?_, ?_, ?_, ?_, ?_, ?_⟩
  · rw [hpair, Nat.mul_add 4 _ w]
    rfl
  · rw [hpair, Nat.mul_add 4 (r * pair w + 2 * (w / 2) + w) w]
    rfl
  · rw [hpair]
    rfl
  · rw [hpair]
    rfl
  · rw [hblocks]
  · rw [hblocks]
  · rw [htally, hblocks, Finset.sum_range_succ, Nat.mul_zero, lumaRun_zero, lumaRun_zero]
    abel

/-- What `rgb32_to_i420` stores, for any size whose products fit: two rows of
luma for each pair, and a sample in each plane for each block. -/
theorem rgb32_to_i420_spec (hsize : src.size = 4 * (w * h)) (hfit : w * h < 2147483648)
    (hstride : 4 * w < 2147483648) :
    ∃ out, rgb32_to_i420 w h src [] = some (0, out) ∧
      out.tally = ∑ i ∈ Finset.range (h / 2),
          (lumaRun src (i * pair w) (2 * (w / 2)) + lumaRun src (i * pair w + w) (2 * (w / 2))) +
        (run (w * h : Nat) (h / 2 * (w / 2))
            (fun s => uchar (Colour.mean (blockAt src w s)).U) +
          run (w * h + w * h / 4 : Nat) (h / 2 * (w / 2))
            fun s => uchar (Colour.mean (blockAt src w s)).V) := by
  have hframe : CInt.int ((w : Int) * h) = some ((w * h : Nat) : Int) := by
    rw [← Nat.cast_mul]
    exact CInt.int_eq (by omega) (by omega)
  have hquarter : ((w * h : Nat) : Int) + ((w * h : Nat) : Int) >>> (2 : Nat) =
      ((w * h + w * h / 4 : Nat) : Int) := by
    rw [Int.shiftRight_eq_div_pow]
    omega
  have hhalf : ∀ n : Nat, ((n : Int).tdiv 2).toNat = n / 2 := fun n => by
    rw [Int.tdiv_eq_ediv_of_nonneg (Int.natCast_nonneg _)]
    omega
  have hstart : WalkAt src w h 0 0
      ⟨[], 0, (4 * w : Nat), 0, w, (w * h : Nat), (w * h + w * h / 4 : Nat)⟩ :=
    ⟨by simp, by simp, by simp, by simp, by simp, by simp, by
      simp [Log.tally_nil, lumaRun_zero, Log.run_zero]⟩
  have hloop : ∃ t, forLoop 0 (h / 2)
      (fun _ s => (forLoop 0 (w / 2) (fun _ => blockStep src) s).bind (rowEnd w))
      ⟨[], 0, (4 * w : Nat), 0, w, (w * h : Nat), (w * h + w * h / 4 : Nat)⟩ = some t ∧
      WalkAt src w h (h / 2) 0 t :=
    forLoop_rows (I := WalkAt src w h) hstart
      (fun r c t hr hc hI => blockStep_spec hsize hr hc hI)
      fun r t _ hI => rowEnd_spec hstride hI
  obtain ⟨t, ht, hend⟩ := hloop
  refine ⟨t.out, ?_, ?_⟩
  · rw [rgb32_to_i420, stride_eq hstride, Option.bind_eq_bind, Option.bind_some, hframe,
      Option.bind_some, hquarter, hhalf, hhalf, ht]
    rfl
  · rw [hend.tally, Nat.mul_zero, lumaRun_zero, lumaRun_zero, Nat.add_zero, add_zero, add_zero]

/-! ## Where the luma lies -/

theorem lumaRun_add : lumaRun src e (n + k) = lumaRun src e n + lumaRun src (e + n) k := by
  rw [lumaRun, Log.run_add, lumaRun, lumaRun, Nat.cast_add]
  congr 1
  exact Log.run_congr fun m _ => by rw [Nat.add_assoc]

theorem lumaRun_in (hk : k < n) : lumaRun src e n (e + k : Nat) = {luma32 src (e + k)} := by
  rw [lumaRun, Nat.cast_add]
  exact Log.run_in hk

theorem lumaRun_first (hk : k < n) : lumaRun src 0 n k = {luma32 src k} := by
  have hin : lumaRun src 0 n (0 + k : Nat) = {luma32 src (0 + k)} := lumaRun_in hk
  rwa [Nat.zero_add] at hin

theorem lumaRun_out (hk : k < e ∨ e + n ≤ k) : lumaRun src e n k = 0 :=
  Log.run_out (by omega)

/-- On an even width the rows of the pairs make one run. -/
theorem lumaRun_rows (hw : w % 2 = 0) : ∑ i ∈ Finset.range n,
      (lumaRun src (i * pair w) (2 * (w / 2)) + lumaRun src (i * pair w + w) (2 * (w / 2))) =
    lumaRun src 0 (n * (2 * w)) := by
  have hrow : 2 * (w / 2) = w := by omega
  have hpair : pair w = w + w := by rw [pair, hrow]
  induction n with
  | zero => rw [Finset.sum_range_zero, Nat.zero_mul, lumaRun_zero]
  | succ n ih =>
      rw [Finset.sum_range_succ, ih, hrow, hpair, Nat.two_mul, ← lumaRun_add, Nat.succ_mul,
        lumaRun_add (e := 0), Nat.zero_add]

theorem storedAs_uchar {out : Log Byte} {k z : Int} (ht : out.tally k = {uchar z})
    (hlo : 16 ≤ z) (hhi : z ≤ 240) : StoredAs out k z :=
  ⟨uchar z, Log.stored_eq_singleton.2 ht, toNat_uchar (by omega) (by omega)⟩

/-! ## Even sizes -/

/-- The block in rows `2 * r` and `2 * r + 1` and columns `2 * c` and
`2 * c + 1`. -/
def block (src : Block) (w r c : Nat) : List Colour :=
  [colourAt src 4 (2 * r * w + 2 * c), colourAt src 4 (2 * r * w + (2 * c + 1)),
    colourAt src 4 ((2 * r + 1) * w + 2 * c), colourAt src 4 ((2 * r + 1) * w + (2 * c + 1))]

theorem block_eq (hw : w % 2 = 0) (hc : c < w / 2) :
    blockAt src w (r * (w / 2) + c) = block src w r c := by
  have hpair : r * pair w = 2 * r * w := by
    have hw₂ : 2 * (w / 2) = w := by omega
    rw [pair, hw₂]
    ring
  have hodd : 2 * r * w + 2 * c + w = (2 * r + 1) * w + 2 * c := by ring
  rw [blockAt_eq hc, hpair, hodd]
  rfl

theorem bytes_block : ∀ x ∈ block src w r c, x.Bytes := by
  simp [block, bytes_colourAt]

theorem rgb32_to_i420_even (w h : Nat) (src : Block) (hw : w % 2 = 0) (hh : h % 2 = 0)
    (hfit : w * h < 2147483648) (hstride : 4 * w < 2147483648)
    (hsize : src.size = 4 * (w * h)) :
    ∃ out, rgb32_to_i420 w h src [] = some (0, out) ∧ out.Fills (w * h * 3 / 2) ∧
      (∀ i j, i < h → j < w →
        StoredAs out (i * w + j : Nat) (colourAt src 4 (i * w + j)).Y) ∧
      ∀ r c, r < h / 2 → c < w / 2 →
        StoredAs out (w * h + r * (w / 2) + c : Nat) (Colour.mean (block src w r c)).U ∧
        StoredAs out (w * h + w * h / 4 + r * (w / 2) + c : Nat)
          (Colour.mean (block src w r c)).V ∧
        ∀ k, Colour.Fits (Colour.total ((block src w r c).take k)) := by
  obtain ⟨out, hout, htally⟩ := rgb32_to_i420_spec hsize hfit hstride
  have hrows : h / 2 * (2 * w) = w * h := by
    rw [Nat.mul_left_comm, ← Nat.mul_assoc, Nat.mul_div_cancel' (Nat.dvd_of_mod_eq_zero hh),
      Nat.mul_comm]
  obtain ⟨hblocks, hbytes⟩ := chroma_even hw hh
  have hchroma : chroma w h = h / 2 * (w / 2) := by
    have hh₂ : (h + 1) / 2 = h / 2 := by omega
    have hw₂ : (w + 1) / 2 = w / 2 := by omega
    rw [chroma, hh₂, hw₂]
  rw [hblocks] at hbytes
  rw [lumaRun_rows hw, hrows, ← hchroma, hblocks] at htally
  refine ⟨out, hout, ?_, fun i j hi hj => ?_, fun r c hr hc => ?_⟩
  · rw [← add_assoc] at htally
    rw [hbytes, Nat.two_mul, ← Nat.add_assoc]
    exact Log.fills_three htally
  · have hcell := cell_lt hi hj
    obtain ⟨hlo, hhi⟩ := Colour.Y_range (bytes_colourAt src 4 (i * w + j))
    refine storedAs_uchar ?_ hlo (by omega)
    rw [htally, Pi.add_apply, Pi.add_apply, Log.run_out (by omega), Log.run_out (by omega),
      add_zero, add_zero]
    exact lumaRun_first hcell
  · have hlt : r * (w / 2) + c < w * h / 4 := by
      rw [← hblocks, hchroma, Nat.mul_comm (h / 2)]
      exact cell_lt hr hc
    have hmean : (Colour.mean (block src w r c)).Bytes := Colour.bytes_mean bytes_block le_rfl
    obtain ⟨hUlo, hUhi⟩ := Colour.U_range hmean
    obtain ⟨hVlo, hVhi⟩ := Colour.V_range hmean
    refine ⟨storedAs_uchar ?_ hUlo hUhi, storedAs_uchar ?_ hVlo hVhi, fun k => ?_⟩
    · rw [htally, Pi.add_apply, lumaRun, Log.run_out (by omega), zero_add, ← block_eq hw hc,
        Nat.add_assoc, Nat.cast_add]
      exact Log.runs_fst hlt (by omega)
    · rw [htally, Pi.add_apply, lumaRun, Log.run_out (by omega), zero_add, ← block_eq hw hc,
        Nat.add_assoc (w * h + w * h / 4), Nat.cast_add (w * h + w * h / 4)]
      exact Log.runs_snd hlt (by omega)
    · exact Colour.fits_total (fun x hx => bytes_block x (List.mem_of_mem_take hx))
        ((List.length_take_le' k _).trans le_rfl)

theorem rgb32_to_i420_even_block : ∃ out,
    rgb32_to_i420 (2 : Nat) (2 : Nat) ⟨16, fun _ => 255⟩ [] = some (0, out) ∧ out.Fills 6 ∧
      StoredAs out 3 235 := by
  obtain ⟨out, hout, hfills, hluma, -⟩ :=
    rgb32_to_i420_even 2 2 ⟨16, fun _ => 255⟩ rfl rfl (by decide) (by decide) rfl
  exact ⟨out, hout, hfills, hluma 1 1 (by decide) (by decide)⟩

/-- A picture of 2³² pixels has no frame size. -/
theorem rgb32_to_i420_overflow : ¬ ∀ (w h : Nat) (src : Block), w % 2 = 0 → h % 2 = 0 →
    src.size = 4 * (w * h) →
    ∃ out, rgb32_to_i420 w h src [] = some (0, out) ∧ out.Fills (w * h * 3 / 2) ∧
      (∀ i j, i < h → j < w →
        StoredAs out (i * w + j : Nat) (colourAt src 4 (i * w + j)).Y) ∧
      ∀ r c, r < h / 2 → c < w / 2 →
        StoredAs out (w * h + r * (w / 2) + c : Nat) (Colour.mean (block src w r c)).U ∧
        StoredAs out (w * h + w * h / 4 + r * (w / 2) + c : Nat)
          (Colour.mean (block src w r c)).V ∧
        ∀ k, Colour.Fits (Colour.total ((block src w r c).take k)) := by
  intro hall
  obtain ⟨out, hout, -⟩ := hall 65536 65536 ⟨17179869184, fun _ => 0⟩ rfl rfl rfl
  have hnone : CInt.int (((65536 : Nat) : Int) * ((65536 : Nat) : Int)) = none := rfl
  have hstride : CInt.int (((65536 : Nat) : Int) * 4) = some 262144 := rfl
  rw [rgb32_to_i420, hstride, Option.bind_eq_bind, Option.bind_some, hnone] at hout
  cases hout

/-! ## Any size -/

/-- The byte is this number in the end, whatever it was before. -/
def LeftAs (out : Log Byte) (k : Int) (z : Int) : Prop :=
  ∃ b, out.last? k = some b ∧ (b.toNat : Int) = z

theorem leftAs_luma {out : Log Byte} (ht : out.tally n = {luma32 src n}) :
    LeftAs out n (colourAt src 4 n).Y := by
  obtain ⟨hlo, hhi⟩ := Colour.Y_range (bytes_colourAt src 4 n)
  exact ⟨luma32 src n, Log.last?_eq_some ht, toNat_uchar (by omega) (by omega)⟩

theorem rgb32_to_i420_fit {out : Int × Log Byte} (hout : rgb32_to_i420 w h src [] = some out) :
    w * h < 2147483648 ∧ 4 * w < 2147483648 := by
  simp only [rgb32_to_i420, Option.bind_eq_bind, Option.bind_eq_some_iff] at hout
  obtain ⟨_, hstride, _, hframe, -⟩ := hout
  have hw := (CInt.int_bounds hstride).2
  have hf := (CInt.int_bounds hframe).2
  rw [← Nat.cast_mul] at hf
  omega

/-- The pixel a second pair of an odd width passes over. -/
theorem passed_over (hw : w % 2 = 1) (hw₂ : 2 ≤ w) (n : Nat) :
    (∑ i ∈ Finset.range n, (lumaRun src (i * pair w) (2 * (w / 2)) +
      lumaRun src (i * pair w + w) (2 * (w / 2)))) (2 * w + (w - 2) : Nat) = 0 := by
  rw [Finset.sum_apply]
  refine Finset.sum_eq_zero fun i _ => ?_
  have hpair : pair w = w - 1 + w := by unfold pair; omega
  have hrow : 2 * (w / 2) = w - 1 := by omega
  rw [Pi.add_apply, hpair, hrow]
  rcases i with _ | _ | i
  · rw [lumaRun_out (by omega), lumaRun_out (by omega), add_zero]
  · rw [lumaRun_out (by omega), lumaRun_out (by omega), add_zero]
  · have hfar : 2 * (w - 1 + w) ≤ (i + 1 + 1) * (w - 1 + w) := Nat.mul_le_mul_right _ (by omega)
    rw [lumaRun_out (by omega), lumaRun_out (by omega), add_zero]

/-- One pair of rows has all its luma, whatever the width. -/
theorem first_pair {i j : Nat} (hi : i < 2) (hj : j < 2 * (w / 2)) :
    (lumaRun src 0 (2 * (w / 2)) + lumaRun src w (2 * (w / 2))) (i * w + j : Nat) =
      {luma32 src (i * w + j)} := by
  rw [Pi.add_apply]
  rcases i with _ | i
  · rw [Nat.zero_mul, Nat.zero_add, lumaRun_first hj, lumaRun_out (by omega), add_zero]
  · have hi₀ : i = 0 := by omega
    rw [hi₀, Nat.zero_add, Nat.one_mul, lumaRun_out (by omega), lumaRun_in hj, zero_add]

theorem rgb32_to_i420_luma_iff (w h : Nat) (src : Block) (hw : 2 ≤ w) (hh : 2 ≤ h)
    (hsize : src.size = 4 * (w * h)) :
    (∃ out, rgb32_to_i420 w h src [] = some (0, out) ∧
      ∀ i j, i < 2 * (h / 2) → j < 2 * (w / 2) →
        LeftAs out (i * w + j : Nat) (colourAt src 4 (i * w + j)).Y) ↔
    (w % 2 = 0 ∨ h < 4) ∧ w * h < 2147483648 ∧ 4 * w < 2147483648 := by
  refine ⟨fun ⟨out, hout, hluma⟩ => ?_, fun ⟨hsmall, hfit, hstride⟩ => ?_⟩
  · obtain ⟨hfit, hstride⟩ := rgb32_to_i420_fit hout
    refine ⟨?_, hfit, hstride⟩
    by_contra hodd
    obtain ⟨out', hout', htally⟩ := rgb32_to_i420_spec hsize hfit hstride
    obtain rfl : out' = out := congrArg Prod.snd (Option.some.inj (hout'.symm.trans hout))
    have hcell := cell_lt (i := 2) (j := w - 2) (w := w) (h := h) (by omega) (by omega)
    have hnone : out'.tally (2 * w + (w - 2) : Nat) = 0 := by
      rw [htally, Pi.add_apply, passed_over (by omega) hw, Pi.add_apply, Log.run_out (by omega),
        Log.run_out (by omega), add_zero, add_zero]
    obtain ⟨b, hb, -⟩ := hluma 2 (w - 2) (by omega) (by omega)
    rw [Log.last?_eq_none hnone] at hb
    cases hb
  · obtain ⟨out, hout, htally⟩ := rgb32_to_i420_spec hsize hfit hstride
    refine ⟨out, hout, fun i j hi hj => leftAs_luma ?_⟩
    have hcell := cell_lt (i := i) (j := j) (w := w) (h := h) (by omega) (by omega)
    rw [htally, Pi.add_apply, Pi.add_apply, Log.run_out (by omega), Log.run_out (by omega),
      add_zero, add_zero]
    rcases hsmall with hw₂ | hh₄
    · have hin := cell_lt (w := w) hi (by omega : j < w)
      have hrows : h / 2 * (2 * w) = w * (2 * (h / 2)) := by ring
      rw [lumaRun_rows hw₂, hrows]
      exact lumaRun_first hin
    · have hone : h / 2 = 1 := by omega
      rw [hone] at hi
      rw [hone, Finset.sum_range_one, Nat.zero_mul, Nat.zero_add]
      exact first_pair (by omega) hj

/-- Three by four pixels: the last luma byte of the third row is missing. -/
theorem rgb32_to_i420_luma_three : ¬ ∃ out,
    rgb32_to_i420 (3 : Nat) (4 : Nat) ⟨48, fun _ => 0⟩ [] = some (0, out) ∧
      ∀ i j, i < 4 → j < 2 →
        LeftAs out (i * 3 + j : Nat) (colourAt ⟨48, fun _ => 0⟩ 4 (i * 3 + j)).Y := by
  intro hluma
  have hsmall :=
    (rgb32_to_i420_luma_iff 3 4 ⟨48, fun _ => 0⟩ (by decide) (by decide) rfl).1 hluma
  exact absurd hsmall.1 (by decide)

theorem rgb32_to_i420_luma_pair : ∃ out,
    rgb32_to_i420 (3 : Nat) (3 : Nat) ⟨36, fun _ => 0⟩ [] = some (0, out) ∧
      ∀ i j, i < 2 → j < 2 →
        LeftAs out (i * 3 + j : Nat) (colourAt ⟨36, fun _ => 0⟩ 4 (i * 3 + j)).Y :=
  (rgb32_to_i420_luma_iff 3 3 ⟨36, fun _ => 0⟩ (by decide) (by decide) rfl).2
    ⟨Or.inr (by decide), by decide, by decide⟩

end IotCamera
