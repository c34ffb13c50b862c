import Mathlib.Algebra.Group.Nat.Defs
import Mathlib.Logic.Equiv.Prod

/-!
# Packed records

A packed record is its fields one after another, each in its own bytes, so
the memory of the record and the record are the same thing seen twice. A
layout of `α` in `n` bytes is an equivalence between `α` and the lists of `n`
bytes; bytes, little-endian words and arrays have one, and two layouts side
by side are a layout of the pair.

Being an equivalence is what a program relies on when it copies such a record
with `memcpy`, compares two with a loop over bytes, or writes one to a file:
equal bytes are equal records, what was written is what is read back, and any
bytes of the right number are some record.

The last section is the other half of reading a file into a record: the bytes
that came overwrite the front of the memory and leave the rest of it.
-/

universe u v

/-- The contents of `n` bytes of memory. -/
abbrev Bytes (n : Nat) := {bs : List UInt8 // bs.length = n}

/-- A way to keep an `α` in `n` bytes. -/
abbrev Packed (α : Type u) (n : Nat) := α ≃ Bytes n

namespace Packed

/-! ## Little-endian numbers -/

/-- The low `k` bytes of `n`, the lowest first. -/
def leBytes : Nat → Nat → List UInt8
  | 0, _ => []
  | k + 1, n => UInt8.ofNat n :: leBytes k (n / 256)

def leNat : List UInt8 → Nat
  | [] => 0
  | b :: bs => b.toNat + 256 * leNat bs

@[simp] theorem length_leBytes (k n : Nat) : (leBytes k n).length = k := by
  induction k generalizing n with
  | zero => rfl
  | succ k ih => rw [leBytes, List.length_cons, ih]

theorem leNat_lt (bs : List UInt8) : leNat bs < 256 ^ bs.length := by
  induction bs with
  | nil => exact Nat.one_pos
  | cons b bs ih =>
      have hb : b.toNat < 256 := b.toNat_lt
      rw [leNat, List.length_cons, Nat.pow_succ]
      omega

theorem leNat_leBytes (k n : Nat) : leNat (leBytes k n) = n % 256 ^ k := by
  induction k generalizing n with
  | zero => rw [leBytes, leNat, Nat.pow_zero, Nat.mod_one]
  | succ k ih =>
      rw [leBytes, leNat, ih, Nat.pow_succ, Nat.mul_comm (256 ^ k), Nat.mod_mul]
      rfl

theorem leBytes_leNat (bs : List UInt8) : leBytes bs.length (leNat bs) = bs := by
  induction bs with
  | nil => rfl
  | cons b bs ih =>
      have hb : b.toNat < 256 := b.toNat_lt
      have hlow : UInt8.ofNat (b.toNat + 256 * leNat bs) = b := by
        rw [← UInt8.toNat_inj, UInt8.toNat_ofNat']
        omega
      have hhigh : (b.toNat + 256 * leNat bs) / 256 = leNat bs := by omega
      rw [List.length_cons, leNat, leBytes, hlow, hhigh, ih]

/-! ## Big-endian numbers -/

/-- The low `k` bytes of `n`, the highest first. -/
def beBytes (k n : Nat) : List UInt8 := (leBytes k n).reverse

def beNat (bs : List UInt8) : Nat := leNat bs.reverse

theorem length_beBytes (k n : Nat) : (beBytes k n).length = k := by
  rw [beBytes, List.length_reverse, length_leBytes]

theorem leBytes_add (j k n : Nat) : leBytes (j + k) n = leBytes j n ++ leBytes k (n / 256 ^ j) := by
  induction j generalizing n with
  | zero => rw [Nat.zero_add, leBytes, List.nil_append, Nat.pow_zero, Nat.div_one]
  | succ j ih =>
      rw [Nat.succ_add, leBytes, leBytes, ih, Nat.div_div_eq_div_mul, Nat.pow_succ',
        List.cons_append]

theorem beBytes_add (j k n : Nat) : beBytes (j + k) n = beBytes j (n / 256 ^ k) ++ beBytes k n := by
  rw [beBytes, Nat.add_comm, leBytes_add, List.reverse_append, beBytes, beBytes]

theorem beBytes_mod (k n : Nat) : beBytes k (n % 256 ^ k) = beBytes k n := by
  have h : leBytes k (n % 256 ^ k) = leBytes k n := by
    have hle := leBytes_leNat (leBytes k n)
    rwa [length_leBytes, leNat_leBytes] at hle
  rw [beBytes, h, beBytes]

theorem length_flatMap_beBytes {α : Type u} (f : α → Nat) (k : Nat) (xs : List α) :
    (xs.flatMap fun x => beBytes k (f x)).length = k * xs.length := by
  induction xs with
  | nil => rfl
  | cons x xs ih =>
      rw [List.flatMap_cons, List.length_append, ih, length_beBytes, List.length_cons,
        Nat.mul_succ, Nat.add_comm]

/-! ## Layouts -/

def byte : Packed UInt8 1 where
  toFun b := ⟨[b], rfl⟩
  invFun bs := bs.1.headD 0
  left_inv b := rfl
  right_inv bs := by
    obtain ⟨bs, hbs⟩ := bs
    obtain ⟨b, rfl⟩ := List.length_eq_one_iff.1 hbs
    rfl

def u32le : Packed UInt32 4 where
  toFun w := ⟨leBytes 4 w.toNat, length_leBytes 4 _⟩
  invFun bs := UInt32.ofNat (leNat bs.1)
  left_inv w := by
    have hw : w.toNat < 256 ^ 4 := w.toNat_lt
    show UInt32.ofNat (leNat (leBytes 4 w.toNat)) = w
    rw [leNat_leBytes, Nat.mod_eq_of_lt hw, UInt32.ofNat_toNat]
  right_inv bs := by
    obtain ⟨bs, hbs⟩ := bs
    have hlt : leNat bs < 2 ^ 32 := by
      have := leNat_lt bs
      rwa [hbs] at this
    refine Subtype.ext ?_
    show leBytes 4 (UInt32.ofNat (leNat bs)).toNat = bs
    rw [UInt32.toNat_ofNat', Nat.mod_eq_of_lt hlt, ← hbs, leBytes_leNat]

/-- An array of bytes. -/
def array (n : Nat) : Packed (Bytes n) n := Equiv.refl _

/-- One block of memory after another. -/
def append (m n : Nat) : Bytes m × Bytes n ≃ Bytes (m + n) where
  toFun p := ⟨p.1.1 ++ p.2.1, by rw [List.length_append, p.1.2, p.2.2]⟩
  invFun bs := (⟨bs.1.take m, by rw [List.length_take, bs.2]; omega⟩,
    ⟨bs.1.drop m, by rw [List.length_drop, bs.2]; omega⟩)
  left_inv p := by
    obtain ⟨⟨as, has⟩, ⟨bs, hbs⟩⟩ := p
    simp [← has]
  right_inv bs := Subtype.ext (List.take_append_drop m bs.1)

variable {α : Type u} {β : Type v} {m n : Nat}

/-- One field after another. -/
def seq (A : Packed α m) (B : Packed β n) : Packed (α × β) (m + n) :=
  (Equiv.prodCongr A B).trans (append m n)

/-! ## Reading into memory -/

def zeros (n : Nat) : Bytes n := ⟨List.replicate n 0, List.length_replicate⟩

/-- What `read` leaves in a buffer of `n` bytes: `got`, as far as it fits, over
what was there. -/
def readInto (got : List UInt8) (mem : Bytes n) : Bytes n :=
  ⟨got.take n ++ mem.1.drop got.length, by
    rw [List.length_append, List.length_take, List.length_drop, mem.2]
    omega⟩

@[simp] theorem readInto_nil (mem : Bytes n) : readInto [] mem = mem :=
  Subtype.ext (by simp [readInto])

theorem readInto_of_le {got : List UInt8} (h : n ≤ got.length) (mem : Bytes n) :
    (readInto got mem).1 = got.take n := by
  show got.take n ++ mem.1.drop got.length = got.take n
  rw [List.drop_eq_nil_of_le (by rw [mem.2]; exact h), List.append_nil]

/-- A short read leaves zeros behind in cleared memory. -/
theorem readInto_zeros {got : List UInt8} (h : got.length ≤ n) :
    (readInto got (zeros n)).1 = got ++ List.replicate (n - got.length) 0 := by
  show got.take n ++ (List.replicate n 0).drop got.length = _
  rw [List.take_of_length_le h, List.drop_replicate]

end Packed
