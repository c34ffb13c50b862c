import IotCamera.Lib.Sha2
import IotCamera.Mqtt.Auth

/-!
# The hash is SHA-256

A block first: 64 rounds over a schedule that is stored as it is computed, and
the invariant of the loop says that both are where those of the standard are.
Then the context. After any input, `Holds` says what is in it: the length in
two words, the hash value after the whole blocks, and in the buffer what did
not fill a block. A part moves `Holds` on to the input with the part behind
it, whatever was left before, so it does not matter how an input is cut into
parts. The padding and the length are two more parts.
-/

namespace IotCamera

open CString Packed

namespace Auth

variable {ctx : Sha256Context} {data input xs ys : List UInt8} {x y z : uint32_t} {n : Nat}

/-! ## The macros -/

theorem and_ones (x : uint32_t) : x &&& 0xFFFFFFFF = x := BitVec.and_allOnes

theorem ROTR_eq (h : n < 32) : ROTR x n = x.rotateRight n := by
  rw [ROTR, SHR, and_ones, BitVec.rotateRight_eq_rotateRightAux_of_lt h, BitVec.rotateRightAux]

theorem S0_eq : S0 x = Sha2.sigma0 x := by
  simp only [S0, ROTR_eq, SHR, and_ones, Sha2.sigma0, Nat.reduceLT]

theorem S1_eq : S1 x = Sha2.sigma1 x := by
  simp only [S1, ROTR_eq, SHR, and_ones, Sha2.sigma1, Nat.reduceLT]

theorem S2_eq : S2 x = Sha2.Sigma0 x := by
  simp only [S2, ROTR_eq, Sha2.Sigma0, Nat.reduceLT]

theorem S3_eq : S3 x = Sha2.Sigma1 x := by
  simp only [S3, ROTR_eq, Sha2.Sigma1, Nat.reduceLT]

theorem F0_eq : F0 x y z = Sha2.Maj x y z := by
  ext i hi
  simp only [F0, Sha2.Maj, BitVec.getElem_or, BitVec.getElem_and, BitVec.getElem_xor]
  cases x[i] <;> cases y[i] <;> cases z[i] <;> rfl

theorem F1_eq : F1 x y z = Sha2.Ch x y z := by
  ext i hi
  simp only [F1, Sha2.Ch, BitVec.getElem_and, BitVec.getElem_xor, BitVec.getElem_not]
  cases x[i] <;> cases y[i] <;> cases z[i] <;> rfl

theorem K_eq : K = Sha2.K := by
  rw [Sha2.K, Sha2.primes_eq]
  decide +kernel

/-! ## Words and bytes -/

/-- A byte taken up by a word. -/
theorem shift_or_byte (w : uint32_t) (b : UInt8) :
    w <<< 8 ||| BitVec.ofNat 32 b.toNat = BitVec.ofNat 32 (256 * w.toNat + b.toNat) := by
  have hb : b.toNat < 256 := b.toNat_lt
  have hw := w.isLt
  have hmod : w.toNat <<< 8 % 2 ^ 32 = (w.toNat % 2 ^ 24) <<< 8 := by
    rw [Nat.shiftLeft_eq, Nat.shiftLeft_eq]
    omega
  apply BitVec.eq_of_toNat_eq
  rw [BitVec.toNat_or, BitVec.toNat_shiftLeft, hmod, BitVec.toNat_ofNat,
    Nat.mod_eq_of_lt (show b.toNat < 2 ^ 32 by omega), ← Nat.shiftLeft_add_eq_or_of_lt hb,
    Nat.shiftLeft_eq, BitVec.toNat_ofNat]
  omega

theorem GET_UINT32_BE_eq {t : Nat} (h : 4 * t + 4 ≤ data.length) :
    GET_UINT32_BE data (4 * t) = some (Sha2.word data t) := by
  have h0 : 4 * t < data.length := by omega
  have h1 : 4 * t + 1 < data.length := by omega
  have h2 : 4 * t + 1 + 1 < data.length := by omega
  have h3 : 4 * t + 1 + 1 + 1 < data.length := by omega
  have hbytes : (data.drop (4 * t)).take 4 =
      [data[4 * t], data[4 * t + 1], data[4 * t + 1 + 1], data[4 * t + 1 + 1 + 1]] := by
    rw [List.drop_eq_getElem_cons h0, List.drop_eq_getElem_cons h1, List.drop_eq_getElem_cons h2,
      List.drop_eq_getElem_cons h3]
    rfl
  have hhorner (b0 b1 b2 b3 : uint32_t) : b0 <<< 24 ||| b1 <<< 16 ||| b2 <<< 8 ||| b3 =
      ((b0 <<< 8 ||| b1) <<< 8 ||| b2) <<< 8 ||| b3 := by
    simp only [BitVec.shiftLeft_or_distrib, ← BitVec.shiftLeft_add]
  have hword : BitVec.ofNat 32 (256 * (BitVec.ofNat 32 (256 * (BitVec.ofNat 32
      (256 * (BitVec.ofNat 32 data[4 * t].toNat).toNat + data[4 * t + 1].toNat)).toNat +
      data[4 * t + 1 + 1].toNat)).toNat + data[4 * t + 1 + 1 + 1].toNat) =
      Sha2.word data t := by
    rw [Sha2.word, hbytes]
    apply BitVec.eq_of_toNat_eq
    simp only [BitVec.toNat_ofNat, beNat, List.reverse_cons, List.reverse_nil, List.nil_append,
      List.cons_append, leNat]
    omega
  rw [GET_UINT32_BE, List.getElem?_eq_getElem h0, List.getElem?_eq_getElem h1,
    List.getElem?_eq_getElem h2, List.getElem?_eq_getElem h3]
  simp only [Option.bind_eq_bind, Option.bind_some]
  rw [hhorner, shift_or_byte, shift_or_byte, shift_or_byte, hword]

theorem PUT_UINT32_BE_eq (w : uint32_t) (b : List UInt8) (i : Nat) :
    PUT_UINT32_BE w b i = putBytes b i (beBytes 4 w.toNat) := by
  have h (k : Nat) : UInt8.ofNat (w >>> (8 * k)).toNat = UInt8.ofNat (w.toNat / 256 ^ k) := by
    rw [BitVec.toNat_ushiftRight, Nat.shiftRight_eq_div_pow, Nat.pow_mul]
  have h3 := h 3
  have h2 := h 2
  have h1 := h 1
  simp only [Nat.reduceMul, Nat.reducePow] at h1 h2 h3
  rw [PUT_UINT32_BE, h1, h2, h3, beBytes]
  simp only [leBytes, List.reverse_cons, List.reverse_nil, List.nil_append, List.cons_append,
    Nat.div_div_eq_div_mul, Nat.reduceMul]

/-! ## A block -/

/-- The words of `A` under their names. -/
def words (A : Vector uint32_t 8) : Sha2.Words :=
  let w i := A.toList.getD i 0
  ⟨w 0, w 1, w 2, w 3, w 4, w 5, w 6, w 7⟩

theorem words_turn (A : Vector uint32_t 8) (w k : uint32_t) :
    words (turn (P A w k)) = Sha2.round (words A) k w := by
  obtain ⟨⟨l⟩, hl⟩ := A
  match l, hl with
  | [a, b, c, d, e, f, g, h], _ =>
      simp [words, turn, P, Sha2.round, S2_eq, S3_eq, F0_eq, F1_eq]

theorem words_add (A B : Vector uint32_t 8) :
    words (A.zipWith (· + ·) B) = (words A).add (words B) := by
  obtain ⟨⟨l⟩, hl⟩ := A
  obtain ⟨⟨r⟩, hr⟩ := B
  match l, hl, r, hr with
  | [a, b, c, d, e, f, g, h], _, [a', b', c', d', e', f', g', h'], _ =>
      simp [words, Sha2.Words.add]

theorem R_eq {W : List uint32_t} (h : 16 ≤ W.length) :
    R W W.length = some (Sha2.next data W) := by
  have hget (k : Nat) (hk : 0 < k) : W[W.length - k]? = some (W.getD (W.length - k) 0) := by
    have hlt : W.length - k < W.length := by omega
    rw [List.getD_eq_getElem?_getD, List.getElem?_eq_getElem hlt, Option.getD_some]
  rw [R, hget 2 (by decide), hget 7 (by decide), hget 15 (by decide), hget 16 (by decide),
    Sha2.next]
  simp only [Option.bind_eq_bind, Option.bind_some, S0_eq, S1_eq, if_neg (Nat.not_lt.2 h)]

theorem processRound_take {i : Nat} (s : List uint32_t × Vector uint32_t 8) :
    processRound (data.take 64) i s = processRound data i s := by
  have hget (h : i < 16) : GET_UINT32_BE (data.take 64) (4 * i) = GET_UINT32_BE data (4 * i) := by
    have htake (k : Nat) (hk : k < 64) : (data.take 64)[k]? = data[k]? := by
      rw [List.getElem?_take, if_pos hk]
    rw [GET_UINT32_BE, GET_UINT32_BE, htake _ (by omega), htake _ (by omega), htake _ (by omega),
      htake _ (by omega)]
  rw [processRound, processRound]
  split
  · next h => rw [hget h]
  · rfl

theorem process_spec (ctx : Sha256Context) (h : data.length = 64) :
    ∃ A, words A = Sha2.compress (words ctx.state) data ∧
      utils_sha256_process ctx data = some { ctx with state := A } := by
  obtain ⟨s, hs, -, hA⟩ : ∃ s : List uint32_t × Vector uint32_t 8,
      forLoop 0 64 (processRound data) ([], ctx.state) = some s ∧ s.1 = Sha2.schedule data 64 ∧
        words s.2 = Sha2.rounds (words ctx.state) data 64 := by
    refine forLoop_spec (I := fun i (s : List uint32_t × Vector uint32_t 8) =>
      s.1 = Sha2.schedule data i ∧ words s.2 = Sha2.rounds (words ctx.state) data i)
      (Nat.zero_le _) ⟨rfl, rfl⟩ fun i s _ hi hI => ?_
    obtain ⟨hW, hA⟩ := hI
    have hlen : s.1.length = i := by rw [hW, Sha2.length_schedule]
    have hiK : i < Sha2.K.length := by rw [Sha2.length_K]; exact hi
    have hw : (if i < 16 then GET_UINT32_BE data (4 * i) else R s.1 i) =
        some (Sha2.next data s.1) := by
      split
      · next h16 => rw [GET_UINT32_BE_eq (by omega), Sha2.next, hlen, if_pos h16]
      · next h16 => rw [← hlen, R_eq (by omega)]
    refine ⟨(s.1 ++ [Sha2.next data s.1], turn (P s.2 (Sha2.next data s.1) Sha2.K[i])), ?_, ?_, ?_⟩
    · rw [processRound, hw, K_eq, List.getElem?_eq_getElem hiK]
      rfl
    · rw [hW, Sha2.schedule]
    · rw [words_turn, Sha2.rounds_succ hiK, hA, hW]
  refine ⟨ctx.state.zipWith (· + ·) s.2, ?_, ?_⟩
  · rw [words_add, hA, Sha2.compress]
  · rw [utils_sha256_process, hs]
    rfl

/-- A block at the front of what can be read. -/
theorem process_append (h : xs.length = 64) :
    utils_sha256_process ctx (xs ++ ys) = utils_sha256_process ctx xs := by
  have htake : (xs ++ ys).take 64 = xs := by rw [← h, List.take_left]
  have hloop : forLoop 0 64 (processRound (xs ++ ys)) ([], ctx.state) =
      forLoop 0 64 (processRound xs) ([], ctx.state) := by
    refine forLoop_congr (fun i s _ _ => ?_) _
    rw [← processRound_take, htake]
  rw [utils_sha256_process, hloop, utils_sha256_process]

theorem updateBlocks_spec (ctx : Sha256Context) (xs ys : List UInt8) :
    ∃ A, words A = absorb Sha2.compress 64 (words ctx.state) xs ∧
      updateBlocks ctx (xs ++ ys) xs.length =
        some ({ ctx with state := A }, remainder 64 xs ++ ys, (remainder 64 xs).length) := by
  induction xs using block_induction (show 0 < 64 by decide) generalizing ctx with
  | short xs h =>
      refine ⟨ctx.state, by rw [absorb_of_lt h], ?_⟩
      rw [updateBlocks, if_neg (by omega), remainder_of_lt h]
  | cons b xs hb ih =>
      obtain ⟨A, hA, hprocess⟩ : ∃ A, words A = Sha2.compress (words ctx.state) b ∧
        utils_sha256_process ctx b = some { ctx with state := A } := process_spec ctx hb
      obtain ⟨B, hB, hrest⟩ := ih { ctx with state := A }
      have hlen : (b ++ xs).length - 64 = xs.length := by rw [List.length_append]; omega
      have hdrop : (b ++ (xs ++ ys)).drop 64 = xs ++ ys := by rw [← hb, List.drop_left]
      refine ⟨B, ?_, ?_⟩
      · rw [absorb_cons (by decide) hb, hB, hA]
      · rw [updateBlocks, if_pos (by rw [List.length_append]; omega), List.append_assoc,
          process_append hb, hprocess, hlen, hdrop, remainder_cons (by decide) hb]
        exact hrest

/-! ## The context -/

/-- The context after the input `done`. -/
structure Holds (ctx : Sha256Context) (done : List UInt8) : Prop where
  total0 : ctx.total0 = BitVec.ofNat 32 done.length
  total1 : ctx.total1 = BitVec.ofNat 32 (done.length / 4294967296)
  state : words ctx.state = absorb Sha2.compress 64 Sha2.H0 done
  size : ctx.buffer.length = 64
  buffer : ctx.buffer.take (done.length % 64) = remainder 64 done
  is224 : ctx.is224 = 0

variable {done : List UInt8} {ilen : uint32_t}

theorem holds_starts (h : ctx.buffer.length = 64) : Holds (utils_sha256_starts ctx) [] := by
  have hH0 : words #v[0x6A09E667, 0xBB67AE85, 0x3C6EF372, 0xA54FF53A, 0x510E527F, 0x9B05688C,
      0x1F83D9AB, 0x5BE0CD19] = Sha2.H0 := by
    decide +kernel
  refine { total0 := rfl, total1 := rfl, state := ?_, size := h, buffer := rfl, is224 := rfl }
  rw [absorb_of_lt (by decide)]
  exact hH0

theorem Holds.left (h : Holds ctx done) : (ctx.total0 &&& 0x3F).toNat = done.length % 64 := by
  rw [h.total0, BitVec.toNat_and, BitVec.toNat_ofNat,
    show (0x3F : uint32_t).toNat = 2 ^ 6 - 1 from rfl, Nat.and_two_pow_sub_one_eq_mod]
  omega

/-- The context with the length of its input in two words. -/
def counted (ctx : Sha256Context) (k : Nat) : Sha256Context :=
  { ctx with total0 := BitVec.ofNat 32 k, total1 := BitVec.ofNat 32 (k / 4294967296) }

theorem Holds.total (h : Holds ctx done) (hlen : xs.length = ilen.toNat) :
    (ctx.total0 + ilen) &&& 0xFFFFFFFF = BitVec.ofNat 32 (done ++ xs).length ∧
    (if BitVec.ofNat 32 (done ++ xs).length < ilen then ctx.total1 + 1 else ctx.total1) =
      BitVec.ofNat 32 ((done ++ xs).length / 4294967296) := by
  have hn := ilen.isLt
  have hlt : BitVec.ofNat 32 (done.length + ilen.toNat) < ilen ↔
      (done.length + ilen.toNat) % 4294967296 < ilen.toNat := by
    rw [BitVec.lt_def, BitVec.toNat_ofNat]
  rw [List.length_append, hlen]
  constructor
  · rw [and_ones, h.total0]
    apply BitVec.eq_of_toNat_eq
    simp
  · simp only [hlt, h.total1]
    apply BitVec.eq_of_toNat_eq
    split <;> simp <;> omega

/-- Once the blocks of a part are in the state, and the rest in the buffer. -/
theorem Holds.extend (h : Holds ctx done) {A : Vector uint32_t 8} {buffer : List UInt8}
    (hA : words A = absorb Sha2.compress 64 (words ctx.state) (remainder 64 done ++ xs))
    (hsize : buffer.length = 64)
    (htake : buffer.take ((remainder 64 (remainder 64 done ++ xs)).length) =
      remainder 64 (remainder 64 done ++ xs)) :
    Holds { counted ctx (done ++ xs).length with state := A, buffer := buffer } (done ++ xs) := by
  have happend : remainder 64 (done ++ xs) = remainder 64 (remainder 64 done ++ xs) :=
    remainder_append (by decide)
  refine { total0 := rfl, total1 := rfl, state := ?_, size := hsize, buffer := ?_,
           is224 := h.is224 }
  · rw [hA, h.state, ← absorb_append (by decide)]
  · rw [← length_remainder, happend]
    exact htake

/-- A part that does not reach the end of the block in the buffer, or finds it
empty. -/
theorem absorb_behind (h : done.length % 64 = 0 ∨ done.length % 64 + xs.length < 64)
    (s : Sha2.Words) :
    absorb Sha2.compress 64 s xs = absorb Sha2.compress 64 s (remainder 64 done ++ xs) ∧
      remainder 64 done ++ remainder 64 xs = remainder 64 (remainder 64 done ++ xs) := by
  have hrem : (remainder 64 done).length = done.length % 64 := length_remainder
  rcases h with h | h
  · rw [List.eq_nil_of_length_eq_zero (hrem.trans h)]
    exact ⟨rfl, rfl⟩
  · have hshort : (remainder 64 done ++ xs).length < 64 := by
      rw [List.length_append, hrem]
      exact h
    have hxs : xs.length < 64 := by omega
    rw [absorb_of_lt hshort, absorb_of_lt hxs, remainder_of_lt hshort, remainder_of_lt hxs]
    exact ⟨rfl, rfl⟩

/-- The buffer filled up from the front of what can be read. -/
theorem Holds.fill (h : Holds ctx done) (hlen : xs.length = 64 - done.length % 64) :
    memcpy ctx.buffer (done.length % 64) (xs ++ ys) (64 - done.length % 64) =
      some (remainder 64 done ++ xs) := by
  have hrem : (remainder 64 done).length = done.length % 64 := length_remainder
  have hput := putBytes_append (s := remainder 64 done) (t := xs)
    (u := ctx.buffer.drop (done.length % 64))
    (by rw [List.length_append, List.length_drop, h.size]; omega)
  have hnil : (ctx.buffer.drop (done.length % 64)).drop xs.length = [] := by
    apply List.eq_nil_of_length_eq_zero
    rw [List.length_drop, List.length_drop, h.size]
    omega
  rw [← h.buffer, List.take_append_drop, h.buffer, hrem, hnil, List.append_nil] at hput
  rw [memcpy, if_pos (by rw [List.length_append]; omega), ← hlen, List.take_left, hput]

/-- The last step of `utils_sha256_update`: what does not fill a block goes
behind what is in the buffer. -/
theorem store_rest (ctx : Sha256Context) (ys : List UInt8) {left : Nat}
    (hsize : ctx.buffer.length = 64) (h : left + xs.length < 64) :
    ∃ buffer, (if 0 < xs.length then do
        let buffer ← memcpy ctx.buffer left (xs ++ ys) xs.length
        some { ctx with buffer := buffer }
      else some ctx) = some { ctx with buffer := buffer } ∧ buffer.length = 64 ∧
      buffer.take (left + xs.length) = ctx.buffer.take left ++ xs := by
  split
  · next hpos =>
      have hput := putBytes_append (s := ctx.buffer.take left) (t := xs) (u := ctx.buffer.drop left)
        (by rw [List.take_append_drop, List.length_take]; omega)
      have hleft : (ctx.buffer.take left).length = left := by rw [List.length_take]; omega
      rw [List.take_append_drop, hleft] at hput
      refine ⟨ctx.buffer.take left ++ xs ++ (ctx.buffer.drop left).drop xs.length, ?_, ?_, ?_⟩
      · rw [memcpy, if_pos (by rw [List.length_append]; omega), List.take_left, hput]
        rfl
      · rw [length_putBytes hput, hsize]
      · have hlen : left + xs.length = (ctx.buffer.take left ++ xs).length := by
          rw [List.length_append, hleft]
        rw [hlen, List.take_left]
  · next hzero =>
      obtain rfl : xs = [] := List.eq_nil_of_length_eq_zero (by omega)
      exact ⟨ctx.buffer, rfl, hsize, by simp⟩

/-- The part of `utils_sha256_update` behind the block in the buffer. -/
theorem rest_spec (ctx : Sha256Context) (xs ys : List UInt8) {left : Nat}
    (hsize : ctx.buffer.length = 64) (h : left = 0 ∨ left + xs.length < 64) :
    ∃ A buffer, (updateBlocks ctx (xs ++ ys) xs.length).bind (fun s =>
        if 0 < s.2.2 then do
          let buffer ← memcpy s.1.buffer left s.2.1 s.2.2
          some { s.1 with buffer := buffer }
        else some s.1) = some { ctx with state := A, buffer := buffer } ∧
      words A = absorb Sha2.compress 64 (words ctx.state) xs ∧ buffer.length = 64 ∧
      buffer.take (left + (remainder 64 xs).length) = ctx.buffer.take left ++ remainder 64 xs := by
  obtain ⟨A, hA, hblocks⟩ := updateBlocks_spec ctx xs ys
  have hroom : left + (remainder 64 xs).length < 64 := by
    rw [length_remainder]
    rcases h with h | h <;> omega
  obtain ⟨buffer, hstore, hlen, htake⟩ := store_rest { ctx with state := A } ys
    hsize hroom
  exact ⟨A, buffer, by rw [hblocks]; exact hstore, hA, hlen, htake⟩

/-- A part of the input. -/
theorem update_spec (xs ys : List UInt8) (h : Holds ctx done) (hlen : xs.length = ilen.toNat) :
    ∃ ctx', utils_sha256_update ctx (xs ++ ys) ilen = some ctx' ∧ Holds ctx' (done ++ xs) := by
  by_cases hzero : ilen = 0
  · obtain rfl : xs = [] := List.eq_nil_of_length_eq_zero (by rw [hlen, hzero]; rfl)
    exact ⟨ctx, by rw [utils_sha256_update, if_pos hzero], by rwa [List.append_nil]⟩
  obtain ⟨htotal0, htotal1⟩ := h.total hlen
  have hrem : (remainder 64 done).length = done.length % 64 := length_remainder
  rw [utils_sha256_update, if_neg hzero]
  simp only [h.left, htotal0, htotal1]
  by_cases hfill : done.length % 64 ≠ 0 ∧ 64 - done.length % 64 ≤ ilen.toNat
  · -- the block in the buffer is filled
    obtain ⟨b, xs', rfl, hblen⟩ : ∃ b xs', xs = b ++ xs' ∧ b.length = 64 - done.length % 64 :=
      ⟨_, _, (List.take_append_drop (64 - done.length % 64) xs).symm, by
        rw [List.length_take]
        omega⟩
    have hblock : (remainder 64 done ++ b).length = 64 := by
      rw [List.length_append, hrem]
      omega
    have hdrop : (b ++ (xs' ++ ys)).drop (64 - done.length % 64) = xs' ++ ys := by
      rw [← hblen, List.drop_left]
    have hrestlen : ilen.toNat - (64 - done.length % 64) = xs'.length := by
      rw [List.length_append] at hlen
      omega
    obtain ⟨A, hA, hprocess⟩ := process_spec { counted ctx (done ++ (b ++ xs')).length with
      buffer := remainder 64 done ++ b } hblock
    obtain ⟨B, buffer, hrest, hB, hsize, htake⟩ := rest_spec
      { counted ctx (done ++ (b ++ xs')).length with
        state := A
        buffer := remainder 64 done ++ b } xs' ys hblock (Or.inl rfl)
    refine ⟨_, ?_, h.extend (A := B) ?_ hsize ?_⟩
    · rw [if_pos hfill, List.append_assoc b, h.fill hblen, hdrop, hrestlen]
      simp only [counted] at hprocess hrest
      simp only [Option.bind_eq_bind, Option.bind_some, hprocess]
      exact hrest
    · rw [hB, hA, ← List.append_assoc (remainder 64 done), absorb_cons (by decide) hblock]
      rfl
    · rw [← List.append_assoc (remainder 64 done), remainder_cons (by decide) hblock]
      simpa using htake
  · -- it is not, or there is none
    have hleft : done.length % 64 = 0 ∨ done.length % 64 + xs.length < 64 := by omega
    obtain ⟨B, buffer, hrest, hB, hsize, htake⟩ := rest_spec
      (counted ctx (done ++ xs).length) xs ys h.size hleft
    obtain ⟨habsorb, hremainder⟩ := absorb_behind hleft (words ctx.state)
    refine ⟨_, ?_, h.extend (hB.trans habsorb) hsize ?_⟩
    · rw [if_neg hfill, ← hlen]
      exact hrest
    · rw [← hremainder, List.length_append, hrem, htake]
      exact congrArg (· ++ _) h.buffer

/-! ## The end of the input -/

/-- The length in bits. -/
theorem Holds.bits (h : Holds ctx done) (msglen : List UInt8) (hlen : msglen.length = 8) :
    ((PUT_UINT32_BE (ctx.total0 >>> 29 ||| ctx.total1 <<< 3) msglen 0).bind fun msglen =>
      PUT_UINT32_BE (ctx.total0 <<< 3) msglen 4) = some (beBytes 8 (8 * done.length)) := by
  have hhigh : (ctx.total0 >>> 29 ||| ctx.total1 <<< 3).toNat =
      8 * done.length / 4294967296 % 4294967296 := by
    have hlt : done.length % 4294967296 / 536870912 < 2 ^ 3 := by omega
    have hshift : (done.length / 4294967296 % 4294967296) <<< 3 % 2 ^ 32 =
        (done.length / 4294967296 % 536870912) <<< 3 := by
      rw [Nat.shiftLeft_eq, Nat.shiftLeft_eq]
      omega
    rw [h.total0, h.total1, BitVec.or_comm, BitVec.toNat_or, BitVec.toNat_shiftLeft,
      BitVec.toNat_ushiftRight, BitVec.toNat_ofNat, BitVec.toNat_ofNat, Nat.shiftRight_eq_div_pow]
    simp only [Nat.reducePow] at hshift ⊢
    rw [hshift, ← Nat.shiftLeft_add_eq_or_of_lt hlt, Nat.shiftLeft_eq]
    omega
  have hlow : (ctx.total0 <<< 3).toNat = 8 * done.length % 4294967296 := by
    rw [h.total0, BitVec.toNat_shiftLeft, BitVec.toNat_ofNat, Nat.shiftLeft_eq]
    omega
  have h1 : putBytes msglen 0 (beBytes 4 (8 * done.length / 4294967296)) =
      some (beBytes 4 (8 * done.length / 4294967296) ++ msglen.drop 4) := by
    have hput := putBytes_append (s := []) (t := beBytes 4 (8 * done.length / 4294967296))
      (u := msglen) (by rw [length_beBytes, List.nil_append, hlen]; decide)
    rwa [length_beBytes, List.nil_append] at hput
  have h2 := putBytes_append (s := beBytes 4 (8 * done.length / 4294967296))
    (t := beBytes 4 (8 * done.length)) (u := msglen.drop 4)
    (by rw [List.length_append, length_beBytes, length_beBytes, List.length_drop]; omega)
  have hnil : (msglen.drop 4).drop 4 = [] := by
    apply List.eq_nil_of_length_eq_zero
    rw [List.length_drop, List.length_drop, hlen]
  rw [length_beBytes, length_beBytes, hnil, List.append_nil] at h2
  have hmod (n : Nat) : beBytes 4 (n % 4294967296) = beBytes 4 n := beBytes_mod 4 n
  rw [PUT_UINT32_BE_eq, hhigh, hmod, h1, Option.bind_some, PUT_UINT32_BE_eq, hlow, hmod, h2]
  exact congrArg some (beBytes_add 4 4 _).symm

/-- What `utils_sha256_finish` takes from its table of padding. -/
theorem take_padding {last : uint32_t} (h : last.toNat < 64) :
    (if last < 56 then 56 - last else 120 - last).toNat ≤ 64 ∧
    sha256_padding.take (if last < 56 then 56 - last else 120 - last).toNat =
      0x80 :: List.replicate ((119 - last.toNat) % 64) 0 := by
  have hpadn : (if last < 56 then 56 - last else 120 - last).toNat =
      (119 - last.toNat) % 64 + 1 := by
    split <;> bv_omega
  rw [hpadn]
  refine ⟨by omega, ?_⟩
  rw [sha256_padding, List.take_succ_cons, List.take_replicate, Nat.min_eq_left (by omega)]

theorem bytes_words (A : Vector uint32_t 8) :
    (words A).bytes = A.toList.flatMap fun w => beBytes 4 w.toNat := by
  obtain ⟨⟨l⟩, hl⟩ := A
  match l, hl with
  | [a, b, c, d, e, f, g, h], _ => rfl

/-- The words of the state in the output. -/
theorem output_spec {output : List UInt8} (h : 32 ≤ output.length) (A : Vector uint32_t 8) :
    ((forLoop 0 7 (fun i output => do PUT_UINT32_BE (← A[i]?) output (4 * i)) output).bind
      fun output => PUT_UINT32_BE A[7] output 28) = some ((words A).bytes ++ output.drop 32) := by
  have hput (i : Nat) (hi : i < 8) : PUT_UINT32_BE A[i]
      ((A.toList.take i).flatMap (fun w => beBytes 4 w.toNat) ++ output.drop (4 * i)) (4 * i) =
      some ((A.toList.take (i + 1)).flatMap (fun w => beBytes 4 w.toNat) ++
        output.drop (4 * (i + 1))) := by
    have hi' : i < A.toList.length := by rw [Vector.length_toList]; exact hi
    have hlen : ((A.toList.take i).flatMap fun w => beBytes 4 w.toNat).length = 4 * i := by
      rw [length_flatMap_beBytes, List.length_take]
      omega
    have hput := putBytes_append (s := (A.toList.take i).flatMap fun w => beBytes 4 w.toNat)
      (t := beBytes 4 A[i].toNat) (u := output.drop (4 * i))
      (by rw [List.length_append, hlen, length_beBytes, List.length_drop]; omega)
    rw [hlen, length_beBytes, List.drop_drop] at hput
    rw [PUT_UINT32_BE_eq, hput, List.take_succ_eq_append_getElem hi', List.flatMap_append]
    rw [List.flatMap_singleton, Vector.getElem_toList, Nat.mul_succ]
  obtain ⟨out, hout, hI⟩ : ∃ out, forLoop 0 7
      (fun i output => do PUT_UINT32_BE (← A[i]?) output (4 * i)) output = some out ∧
      out = (A.toList.take 7).flatMap (fun w => beBytes 4 w.toNat) ++ output.drop (4 * 7) :=
    forLoop_spec (I := fun i out => out = (A.toList.take i).flatMap (fun w => beBytes 4 w.toNat) ++
      output.drop (4 * i)) (Nat.zero_le _) rfl fun i t _ hi hI => by
        refine ⟨_, ?_, rfl⟩
        rw [hI, Vector.getElem?_eq_getElem (by omega)]
        exact hput i (by omega)
  have htake : A.toList.take 8 = A.toList := List.take_of_length_le (by simp)
  have h7 := hput 7 (by decide)
  rw [hout, hI, Option.bind_some]
  rw [htake] at h7
  rw [h7, bytes_words]

theorem finish_spec {output : List UInt8} (h : Holds ctx done) (hout : 32 ≤ output.length) :
    ∃ ctx', utils_sha256_finish ctx output = some (ctx', Sha2.sha256 done ++ output.drop 32) := by
  have hlast : (ctx.total0 &&& 0x3F).toNat < 64 := by
    rw [h.left]
    exact Nat.mod_lt _ (by decide)
  obtain ⟨hpadn, hpadding⟩ := take_padding hlast
  obtain ⟨padn, heq⟩ : ∃ padn, padn = (if ctx.total0 &&& 0x3F < 56 then
      56 - (ctx.total0 &&& 0x3F) else 120 - (ctx.total0 &&& 0x3F)) := ⟨_, rfl⟩
  rw [← heq] at hpadn hpadding
  have hlen : (sha256_padding.take padn.toNat).length = padn.toNat := by
    rw [List.length_take, sha256_padding, List.length_cons, List.length_replicate]
    omega
  obtain ⟨ctx1, hctx1, h1⟩ := update_spec _ (sha256_padding.drop padn.toNat) h hlen
  obtain ⟨ctx2, hctx2, h2⟩ := update_spec (beBytes 8 (8 * done.length)) [] h1
    (show (beBytes 8 (8 * done.length)).length = (8 : uint32_t).toNat from length_beBytes 8 _)
  rw [List.take_append_drop] at hctx1
  rw [List.append_nil] at hctx2
  have hbits := h.bits (List.replicate 8 0) List.length_replicate
  obtain ⟨msglen, hmsg, hmsglen⟩ := Option.bind_eq_some_iff.1 hbits
  have hbytes : (words ctx2.state).bytes = Sha2.sha256 done := by
    rw [h2.state, Sha2.sha256, hpadding, h.left, List.append_assoc, Sha2.padding]
  obtain ⟨out, hloop, hword⟩ := Option.bind_eq_some_iff.1 (output_spec hout ctx2.state)
  simp only [Option.bind_eq_bind] at hloop
  refine ⟨ctx2, ?_⟩
  rw [utils_sha256_finish, hmsg]
  simp only [Option.bind_eq_bind, Option.bind_some, hmsglen, ← heq, hctx1, hctx2]
  rw [hloop, Option.bind_some, if_pos h2.is224, hword, hbytes]
  rfl

theorem utils_sha256_spec {output : List UInt8} (hlen : ilen.toNat ≤ input.length)
    (hout : 32 ≤ output.length) :
    utils_sha256 input ilen output =
      some (Sha2.sha256 (input.take ilen.toNat) ++ output.drop 32) := by
  have hstart : Holds (utils_sha256_starts utils_sha256_init) [] := holds_starts rfl
  have htake : (input.take ilen.toNat).length = ilen.toNat := by
    rw [List.length_take, Nat.min_eq_left hlen]
  obtain ⟨ctx1, hctx1, h1⟩ := update_spec _ (input.drop ilen.toNat) hstart htake
  rw [List.take_append_drop] at hctx1
  obtain ⟨ctx2, hctx2⟩ := finish_spec h1 hout
  rw [utils_sha256]
  simp only [Option.bind_eq_bind, Option.bind_some, hctx1, hctx2, List.nil_append]

/-- The input in parts: of each, what can be read and how much of it is. -/
def updateAll (ctx : Sha256Context) (parts : List (List UInt8 × uint32_t)) :
    Option Sha256Context :=
  parts.foldlM (fun ctx part => utils_sha256_update ctx part.1 part.2) ctx

theorem updateAll_spec {parts : List (List UInt8 × uint32_t)} (h : Holds ctx done)
    (hread : ∀ part ∈ parts, part.2.toNat ≤ part.1.length) :
    ∃ ctx', updateAll ctx parts = some ctx' ∧
      Holds ctx' (done ++ parts.flatMap fun part => part.1.take part.2.toNat) := by
  induction parts generalizing ctx done with
  | nil => exact ⟨ctx, rfl, by rwa [List.flatMap_nil, List.append_nil]⟩
  | cons part parts ih =>
      have hpart := hread part List.mem_cons_self
      have hlen : (part.1.take part.2.toNat).length = part.2.toNat := by
        rw [List.length_take, Nat.min_eq_left hpart]
      obtain ⟨ctx1, hctx1, h1⟩ := update_spec _ (part.1.drop part.2.toNat) h hlen
      rw [List.take_append_drop] at hctx1
      obtain ⟨ctx2, hctx2, h2⟩ := ih h1 fun p hp => hread p (List.mem_cons_of_mem part hp)
      refine ⟨ctx2, ?_, ?_⟩
      · rw [updateAll, List.foldlM_cons, hctx1]
        exact hctx2
      · rwa [List.flatMap_cons, ← List.append_assoc]

/-- However the input is cut, and whatever the context was used for before. -/
theorem sha256_of_parts {parts : List (List UInt8 × uint32_t)} {output : List UInt8}
    (hctx : ctx.buffer.length = 64) (hread : ∀ part ∈ parts, part.2.toNat ≤ part.1.length)
    (hout : 32 ≤ output.length) :
    ∃ ctx' ctx'', updateAll (utils_sha256_starts ctx) parts = some ctx' ∧
      utils_sha256_finish ctx' output = some (ctx'',
        Sha2.sha256 (parts.flatMap fun part => part.1.take part.2.toNat) ++ output.drop 32) := by
  obtain ⟨ctx', hctx', h'⟩ := updateAll_spec (holds_starts hctx) hread
  obtain ⟨ctx'', hctx''⟩ := finish_spec h' hout
  exact ⟨ctx', ctx'', hctx', hctx''⟩

/-- A text in two parts, the second with more behind it that can be read. -/
theorem sha256_of_two_parts : ∃ ctx' ctx'',
    updateAll (utils_sha256_starts utils_sha256_init) [([97], 1), ([98, 99, 100], 2)] =
      some ctx' ∧
    utils_sha256_finish ctx' (List.replicate 32 0) = some (ctx'',
      Sha2.sha256 ([([97], (1 : uint32_t)), ([98, 99, 100], 2)].flatMap
        fun part => part.1.take part.2.toNat) ++ (List.replicate 32 0).drop 32) := by
  refine sha256_of_parts rfl (fun part hpart => ?_) (by decide)
  rcases List.mem_cons.1 hpart with rfl | hpart
  · decide
  · rcases List.mem_singleton.1 hpart with rfl
    decide

end Auth

end IotCamera
