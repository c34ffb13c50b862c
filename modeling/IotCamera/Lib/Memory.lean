import Mathlib.Logic.Function.Basic

/-!
# Blocks of bytes and a heap of them

A block is a size and a byte at every offset; an access outside the size has
no meaning. A heap maps the addresses of live blocks to blocks. `malloc` asks
an allocator, which refuses or answers with the bytes the new block happens
to hold, and addresses are numbered by the calls, so that no two are the
same. Freeing what is not live has no meaning either, and nor has an access
through NULL.

A 16-bit word lies at an even distance from its neighbours, low byte first.
The lemmas say what a store does to the word it stores, to the words next to
it and to every other byte. What stores have in common is that they leave the
shape of the heap alone: the same blocks with the same sizes.
-/

abbrev Byte := BitVec 8

structure Block where
  size : Nat
  byte : Nat → Byte

namespace Block

variable {b b' : Block} {off off' k : Nat} {w : BitVec 16}

/-- The 16-bit word at an offset. -/
def word (b : Block) (off : Nat) : BitVec 16 := b.byte (off + 1) ++ b.byte off

/-- The block with a word put at an offset. -/
def put (b : Block) (off : Nat) (w : BitVec 16) : Block where
  size := b.size
  byte k := if k = off then w.setWidth 8
    else if k = off + 1 then (w >>> 8).setWidth 8 else b.byte k

def load16 (b : Block) (off : Nat) : Option (BitVec 16) :=
  if off + 2 ≤ b.size then some (b.word off) else none

def store16 (b : Block) (off : Nat) (w : BitVec 16) : Option Block :=
  if off + 2 ≤ b.size then some (b.put off w) else none

/-- The block with a byte put at an offset. -/
def putByte (b : Block) (off : Nat) (v : Byte) : Block where
  size := b.size
  byte := Function.update b.byte off v

def load8 (b : Block) (off : Nat) : Option Byte :=
  if off < b.size then some (b.byte off) else none

def store8 (b : Block) (off : Nat) (v : Byte) : Option Block :=
  if off < b.size then some (b.putByte off v) else none

theorem put_byte (hlo : k ≠ off) (hhi : k ≠ off + 1) : (b.put off w).byte k = b.byte k := by
  simp [put, hlo, hhi]

theorem word_put : (b.put off w).word off = w := by
  simp only [word, put, if_pos, Nat.succ_ne_self, if_false]
  ext i hi
  simp only [BitVec.getElem_append, BitVec.getElem_setWidth]
  split
  · simp [BitVec.getLsbD_eq_getElem hi]
  · have h8 : 8 + (i - 8) = i := by omega
    simp [BitVec.getLsbD_ushiftRight, h8, BitVec.getLsbD_eq_getElem hi]

theorem word_put_apart (h : off' + 2 ≤ off ∨ off + 2 ≤ off') :
    (b.put off w).word off' = b.word off' := by
  rw [word, word, put_byte (by omega) (by omega), put_byte (by omega) (by omega)]

theorem word_congr (hlo : b'.byte off = b.byte off)
    (hhi : b'.byte (off + 1) = b.byte (off + 1)) : b'.word off = b.word off := by
  rw [word, word, hlo, hhi]

theorem load16_eq (h : off + 2 ≤ b.size) : b.load16 off = some (b.word off) := if_pos h

theorem store16_eq (h : off + 2 ≤ b.size) : b.store16 off w = some (b.put off w) := if_pos h

theorem store8_eq {v : Byte} (h : off < b.size) : b.store8 off v = some (b.putByte off v) :=
  if_pos h

@[simp] theorem putByte_self {v : Byte} : (b.putByte off v).byte off = v :=
  Function.update_self ..

theorem putByte_ne {v : Byte} (h : k ≠ off) : (b.putByte off v).byte k = b.byte k :=
  Function.update_of_ne h ..

/-! ## Many bytes at once -/

/-- The first bytes of a block. -/
def bytes (b : Block) (n : Nat) : List Byte := (List.range n).map b.byte

/-- The block with some bytes put at its start. -/
def fill (b : Block) (l : List Byte) : Block where
  size := b.size
  byte k := l.getD k (b.byte k)

/-- `memcpy` to the start of a block. -/
def memcpy (dst src : Block) (n : Nat) : Option Block :=
  if n ≤ dst.size ∧ n ≤ src.size then some (dst.fill (src.bytes n)) else none

@[simp] theorem length_bytes {n : Nat} : (b.bytes n).length = n := by
  rw [bytes, List.length_map, List.length_range]

@[simp] theorem bytes_fill {l : List Byte} : (b.fill l).bytes l.length = l := by
  refine List.ext_getElem length_bytes fun k hk hk' => ?_
  simp [bytes, fill, List.getElem?_eq_getElem hk']

theorem memcpy_eq {n : Nat} (hdst : n ≤ b.size) (hsrc : n ≤ b'.size) :
    b.memcpy b' n = some (b.fill (b'.bytes n)) := if_pos ⟨hdst, hsrc⟩

end Block

/-- What the allocator answers to each call: nothing, or the bytes the new
block holds. -/
abbrev Allocator := Nat → Option (Nat → Byte)

/-- The live blocks, and how often the allocator was called. -/
structure Heap where
  block : Nat → Option Block
  calls : Nat
  deriving Inhabited

namespace Heap

variable {h h' : Heap} {b : Block} {p q off : Nat} {w : BitVec 16}

def empty : Heap := ⟨fun _ => none, 0⟩

def malloc (alloc : Allocator) (size : Nat) (h : Heap) : Option Nat × Heap :=
  match alloc h.calls with
  | none => (none, { h with calls := h.calls + 1 })
  | some bytes =>
      (some h.calls,
        { block := Function.update h.block h.calls (some ⟨size, bytes⟩)
          calls := h.calls + 1 })

/-- `free` of a pointer that is not NULL. -/
def free (p : Nat) (h : Heap) : Option Heap :=
  match h.block p with
  | none => none
  | some _ => some { h with block := Function.update h.block p none }

def load16 (h : Heap) (ptr : Option Nat) (off : Nat) : Option (BitVec 16) :=
  ptr.bind fun p => (h.block p).bind fun b => b.load16 off

def store16 (h : Heap) (ptr : Option Nat) (off : Nat) (w : BitVec 16) : Option Heap :=
  ptr.bind fun p => (h.block p).bind fun b => (b.store16 off w).map fun b =>
    { h with block := Function.update h.block p (some b) }

def store8 (h : Heap) (ptr : Option Nat) (off : Nat) (v : Byte) : Option Heap :=
  ptr.bind fun p => (h.block p).bind fun b => (b.store8 off v).map fun b =>
    { h with block := Function.update h.block p (some b) }

/-- Somebody else writes all of a block. -/
def overwrite (h : Heap) (ptr : Option Nat) (bytes : Nat → Byte) : Option Heap :=
  ptr.bind fun p => (h.block p).map fun b =>
    { h with block := Function.update h.block p (some { b with byte := bytes }) }

theorem load16_eq (hb : h.block p = some b) (hoff : off + 2 ≤ b.size) :
    h.load16 (some p) off = some (b.word off) := by
  simp only [load16, Option.bind_some, hb, b.load16_eq hoff]

theorem store16_eq (hb : h.block p = some b) (hoff : off + 2 ≤ b.size) :
    h.store16 (some p) off w =
      some { h with block := Function.update h.block p (some (b.put off w)) } := by
  simp only [store16, Option.bind_some, hb, b.store16_eq hoff, Option.map_some]

theorem store8_eq {v : Byte} (hb : h.block p = some b) (hoff : off < b.size) :
    h.store8 (some p) off v =
      some { h with block := Function.update h.block p (some (b.putByte off v)) } := by
  simp only [store8, Option.bind_some, hb, b.store8_eq hoff, Option.map_some]

theorem load16_eq_some {ptr : Option Nat} {v : BitVec 16}
    (hl : h.load16 ptr off = some v) :
    ∃ p b, ptr = some p ∧ h.block p = some b ∧ off + 2 ≤ b.size := by
  obtain ⟨p, rfl, hp⟩ := Option.bind_eq_some_iff.1 hl
  obtain ⟨b, hb, hlb⟩ := Option.bind_eq_some_iff.1 hp
  refine ⟨p, b, rfl, hb, ?_⟩
  unfold Block.load16 at hlb
  split at hlb
  · next hoff => exact hoff
  · cases hlb

/-! ## What a store does to the rest of the heap -/

/-- The same blocks, at another call of the allocator. -/
def atCall (n : Nat) (h : Heap) : Heap := { h with calls := n }

theorem store16_atCall {n : Nat} {ptr : Option Nat} :
    (h.atCall n).store16 ptr off w = (h.store16 ptr off w).map (atCall n) := by
  cases ptr with
  | none => rfl
  | some p =>
      simp only [store16, atCall, Option.bind_some]
      cases h.block p with
      | none => rfl
      | some b =>
          rw [Option.bind_some, Option.bind_some, Option.map_map]
          rfl

theorem store8_atCall {n : Nat} {ptr : Option Nat} {v : Byte} :
    (h.atCall n).store8 ptr off v = (h.store8 ptr off v).map (atCall n) := by
  cases ptr with
  | none => rfl
  | some p =>
      simp only [store8, atCall, Option.bind_some]
      cases h.block p with
      | none => rfl
      | some b =>
          rw [Option.bind_some, Option.bind_some, Option.map_map]
          rfl

/-- Stores change no block's size. -/
def SameSizes (h h' : Heap) : Prop :=
  ∀ p, (h'.block p).map Block.size = (h.block p).map Block.size

theorem SameSizes.refl (h : Heap) : SameSizes h h := fun _ => rfl

theorem SameSizes.trans {h'' : Heap} (h₁ : SameSizes h h') (h₂ : SameSizes h' h'') :
    SameSizes h h'' := fun p => (h₂ p).trans (h₁ p)

theorem SameSizes.block_ne_none (hs : SameSizes h h') (p : Nat) :
    h'.block p ≠ none ↔ h.block p ≠ none := by
  have hp := hs p
  cases hb : h.block p <;> cases hb' : h'.block p <;> simp [hb, hb'] at hp ⊢

theorem sameSizes_update (b' : Block) (hb : h.block p = some b) (hsize : b'.size = b.size) :
    SameSizes h { h with block := Function.update h.block p (some b') } := by
  intro q
  by_cases hq : q = p
  · subst hq
    simp [hb, hsize]
  · simp [Function.update_of_ne hq]

/-- The same blocks with the same sizes, and no call of the allocator. -/
structure SameShape (h h' : Heap) : Prop where
  sizes : SameSizes h h'
  calls : h'.calls = h.calls

theorem SameShape.refl (h : Heap) : SameShape h h := ⟨.refl h, rfl⟩

theorem SameShape.trans {h'' : Heap} (h₁ : SameShape h h') (h₂ : SameShape h' h'') :
    SameShape h h'' := ⟨h₁.sizes.trans h₂.sizes, h₂.calls.trans h₁.calls⟩

theorem store8_eq_some {ptr : Option Nat} {v : Byte} (hs : h.store8 ptr off v = some h') :
    ∃ p b, ptr = some p ∧ h.block p = some b ∧ off < b.size ∧
      h' = { h with block := Function.update h.block p (some (b.putByte off v)) } := by
  obtain ⟨p, rfl, hp⟩ := Option.bind_eq_some_iff.1 hs
  obtain ⟨b, hb, hsb⟩ := Option.bind_eq_some_iff.1 hp
  obtain ⟨b', hb', rfl⟩ := Option.map_eq_some_iff.1 hsb
  unfold Block.store8 at hb'
  split at hb'
  · next hoff =>
      cases hb'
      exact ⟨p, b, rfl, hb, hoff, rfl⟩
  · cases hb'

theorem store16_eq_some {ptr : Option Nat} (hs : h.store16 ptr off w = some h') :
    ∃ p b, ptr = some p ∧ h.block p = some b ∧ off + 2 ≤ b.size ∧
      h' = { h with block := Function.update h.block p (some (b.put off w)) } := by
  obtain ⟨p, rfl, hp⟩ := Option.bind_eq_some_iff.1 hs
  obtain ⟨b, hb, hsb⟩ := Option.bind_eq_some_iff.1 hp
  obtain ⟨b', hb', rfl⟩ := Option.map_eq_some_iff.1 hsb
  unfold Block.store16 at hb'
  split at hb'
  · next hoff =>
      cases hb'
      exact ⟨p, b, rfl, hb, hoff, rfl⟩
  · cases hb'

/-- A store through one pointer leaves the blocks of the others. -/
theorem store8_other {ptr : Option Nat} {v : Byte} {q : Nat}
    (hs : h.store8 ptr off v = some h') (hq : ptr ≠ some q) : h'.block q = h.block q := by
  obtain ⟨p, b, rfl, -, -, rfl⟩ := store8_eq_some hs
  exact Function.update_of_ne (fun heq => hq (congrArg some heq.symm)) _ _

theorem store16_other {ptr : Option Nat} {q : Nat} (hs : h.store16 ptr off w = some h')
    (hq : ptr ≠ some q) : h'.block q = h.block q := by
  obtain ⟨p, b, rfl, -, -, rfl⟩ := store16_eq_some hs
  exact Function.update_of_ne (fun heq => hq (congrArg some heq.symm)) _ _

theorem sameShape_store8 {ptr : Option Nat} {v : Byte} (hs : h.store8 ptr off v = some h') :
    SameShape h h' := by
  obtain ⟨p, b, -, hb, -, rfl⟩ := store8_eq_some hs
  exact ⟨sameSizes_update _ hb rfl, rfl⟩

theorem sameShape_store16 {ptr : Option Nat} (hs : h.store16 ptr off w = some h') :
    SameShape h h' := by
  obtain ⟨p, b, -, hb, -, rfl⟩ := store16_eq_some hs
  exact ⟨sameSizes_update _ hb rfl, rfl⟩

theorem sameSizes_store16 {ptr : Option Nat} (hs : h.store16 ptr off w = some h') :
    SameSizes h h' := (sameShape_store16 hs).sizes

end Heap
