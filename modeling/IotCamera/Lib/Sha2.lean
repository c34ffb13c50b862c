import IotCamera.Lib.Blocks
import IotCamera.Lib.Packed
import Mathlib.Data.Nat.NthRoot.Defs
import Mathlib.Data.Nat.Prime.Basic

/-!
# SHA-256 and HMAC

The hash function of FIPS 180-4 and the message authentication code of RFC
2104, under the names of these documents. The message is padded with a one
bit, zeros and its own length in bits, cut into blocks of 64 bytes, and each
block changes the eight words of the hash value in 64 rounds. The constants of
the rounds are not a table here: they are the first 32 bits of the fractional
parts of the cube roots of the first 64 primes, and the words the hash starts
from those of the square roots of the first eight.

A message whose length in bits does not fit 64 bits has no SHA-256. The length
is taken modulo 2⁶⁴ here, and what comes out for such a message means nothing.
-/

namespace Sha2

open Packed

abbrev Word := BitVec 32

/-- The working variables, and the hash value. -/
structure Words where
  a : Word
  b : Word
  c : Word
  d : Word
  e : Word
  f : Word
  g : Word
  h : Word
deriving DecidableEq

/-! ## The functions -/

def Ch (x y z : Word) : Word := x &&& y ^^^ ~~~x &&& z

def Maj (x y z : Word) : Word := x &&& y ^^^ x &&& z ^^^ y &&& z

def Sigma0 (x : Word) : Word := x.rotateRight 2 ^^^ x.rotateRight 13 ^^^ x.rotateRight 22

def Sigma1 (x : Word) : Word := x.rotateRight 6 ^^^ x.rotateRight 11 ^^^ x.rotateRight 25

def sigma0 (x : Word) : Word := x.rotateRight 7 ^^^ x.rotateRight 18 ^^^ x >>> 3

def sigma1 (x : Word) : Word := x.rotateRight 17 ^^^ x.rotateRight 19 ^^^ x >>> 10

/-! ## The constants -/

/-- The first 32 bits of the fractional part of the `k`-th root of `p`. -/
def rootBits (k p : Nat) : Word := BitVec.ofNat 32 (Nat.nthRoot k (p * 2 ^ (32 * k)))

/-- The first 64 primes. -/
def primes : List Nat := (List.range 312).filter fun p => Nat.Prime p

def K : List Word := primes.map (rootBits 3)

def H0 : Words where
  a := rootBits 2 2
  b := rootBits 2 3
  c := rootBits 2 5
  d := rootBits 2 7
  e := rootBits 2 11
  f := rootBits 2 13
  g := rootBits 2 17
  h := rootBits 2 19

/-! ## A block -/

/-- The `t`-th word of a block. -/
def word (block : List UInt8) (t : Nat) : Word :=
  BitVec.ofNat 32 (beNat ((block.drop (4 * t)).take 4))

/-- The word of the schedule that comes behind `W`. -/
def next (block : List UInt8) (W : List Word) : Word :=
  let t := W.length
  if t < 16 then word block t
  else sigma1 (W.getD (t - 2) 0) + W.getD (t - 7) 0 + sigma0 (W.getD (t - 15) 0) +
    W.getD (t - 16) 0

/-- The first words of the message schedule. -/
def schedule (block : List UInt8) : Nat → List Word
  | 0 => []
  | t + 1 => schedule block t ++ [next block (schedule block t)]

def round (s : Words) (k w : Word) : Words :=
  let T1 := s.h + Sigma1 s.e + Ch s.e s.f s.g + k + w
  let T2 := Sigma0 s.a + Maj s.a s.b s.c
  ⟨T1 + T2, s.a, s.b, s.c, s.d + T1, s.e, s.f, s.g⟩

/-- The working variables after the first `t` rounds. -/
def rounds (s : Words) (block : List UInt8) (t : Nat) : Words :=
  ((K.take t).zip (schedule block t)).foldl (fun s kw => round s kw.1 kw.2) s

def Words.add (s t : Words) : Words :=
  ⟨s.a + t.a, s.b + t.b, s.c + t.c, s.d + t.d, s.e + t.e, s.f + t.f, s.g + t.g, s.h + t.h⟩

def compress (s : Words) (block : List UInt8) : Words := s.add (rounds s block 64)

/-! ## A message -/

/-- What is put behind a message of `n` bytes. -/
def padding (n : Nat) : List UInt8 :=
  0x80 :: List.replicate ((119 - n % 64) % 64) 0 ++ beBytes 8 (8 * n)

def Words.bytes (s : Words) : List UInt8 :=
  [s.a, s.b, s.c, s.d, s.e, s.f, s.g, s.h].flatMap fun w => beBytes 4 w.toNat

def sha256 (message : List UInt8) : List UInt8 :=
  (absorb compress 64 H0 (message ++ padding message.length)).bytes

/-- A key brought to the length of a block of the hash function `H`. -/
def blockKey (H : List UInt8 → List UInt8) (B : Nat) (key : List UInt8) : List UInt8 :=
  let key := if B < key.length then H key else key
  key ++ List.replicate (B - key.length) 0

def hmac (H : List UInt8 → List UInt8) (B : Nat) (key text : List UInt8) : List UInt8 :=
  let key := blockKey H B key
  H (key.map (· ^^^ 0x5c) ++ H (key.map (· ^^^ 0x36) ++ text))

/-! ## Facts for a program that computes them -/

variable {block message : List UInt8} {t : Nat}

/-- Below 18² the primes up to 17 are enough to divide by. -/
theorem prime_iff {p : Nat} (h : p < 324) :
    Nat.Prime p ↔ 2 ≤ p ∧ ∀ d ∈ [2, 3, 5, 7, 11, 13, 17], d ∣ p → d = p := by
  constructor
  · intro hp
    refine ⟨hp.two_le, fun d hd hdvd => ?_⟩
    have hne : d ≠ 1 := by
      rintro rfl
      simp at hd
    exact (hp.eq_one_or_self_of_dvd d hdvd).resolve_left hne
  · rintro ⟨htwo, hall⟩
    by_contra hp
    have hsq := Nat.minFac_sq_le_self (by omega) hp
    rw [Nat.pow_two] at hsq
    have hlt : p.minFac < 18 := by
      by_contra hge
      have hmul := Nat.mul_le_mul (Nat.le_of_not_lt hge) (Nat.le_of_not_lt hge)
      omega
    have hsmall : ∀ d < 18, Nat.Prime d → d ∈ [2, 3, 5, 7, 11, 13, 17] := by decide
    have hmem := hsmall p.minFac hlt (Nat.minFac_prime (by omega))
    have hmul := Nat.mul_le_mul_right p htwo
    rw [hall _ hmem (Nat.minFac_dvd p)] at hsq
    omega

theorem primes_eq : primes =
    [2, 3, 5, 7, 11, 13, 17, 19, 23, 29, 31, 37, 41, 43, 47, 53, 59, 61, 67, 71, 73, 79, 83, 89, 97,
      101, 103, 107, 109, 113, 127, 131, 137, 139, 149, 151, 157, 163, 167, 173, 179, 181, 191, 193,
      197, 199, 211, 223, 227, 229, 233, 239, 241, 251, 257, 263, 269, 271, 277, 281, 283, 293, 307,
      311] := by
  have h : primes = (List.range 312).filter fun p =>
      2 ≤ p ∧ ∀ d ∈ [2, 3, 5, 7, 11, 13, 17], d ∣ p → d = p := by
    refine List.filter_congr fun p hp => ?_
    have hlt : p < 324 := Nat.lt_trans (List.mem_range.1 hp) (by decide)
    exact decide_eq_decide.2 (prime_iff hlt)
  rw [h]
  decide +kernel

theorem length_K : K.length = 64 := by
  rw [K, List.length_map, primes_eq]
  rfl

theorem length_schedule : (schedule block t).length = t := by
  induction t with
  | zero => rfl
  | succ t ih => rw [schedule, List.length_append, ih, List.length_singleton]

theorem rounds_succ {s : Words} (h : t < K.length) :
    rounds s block (t + 1) = round (rounds s block t) K[t] (next block (schedule block t)) := by
  have hlen : (K.take t).length = (schedule block t).length := by
    rw [List.length_take, length_schedule]
    omega
  rw [rounds, rounds, List.take_succ_eq_append_getElem h, schedule, List.zip_append hlen,
    List.foldl_append]
  rfl

theorem length_bytes (s : Words) : s.bytes.length = 32 := by
  simp [Words.bytes, length_beBytes]

theorem length_sha256 : (sha256 message).length = 32 := length_bytes _

theorem hmac_eq {H : List UInt8 → List UInt8} {B : Nat} {key text : List UInt8}
    (h : key.length ≤ B) : hmac H B key text =
      let key := key ++ List.replicate (B - key.length) 0
      H (key.map (· ^^^ 0x5c) ++ H (key.map (· ^^^ 0x36) ++ text)) := by
  rw [hmac, blockKey, if_neg (by omega)]

end Sha2
