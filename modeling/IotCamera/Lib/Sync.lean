import Mathlib.Data.Finset.Card

/-!
# Mutexes and condition variables

The part of the thread library that decides who may go on. A mutex is its
owner. A condition variable is two sets: the threads asleep on it, and the
threads woken that have not got their mutex back yet. Waking moves threads
from the first set to the second, and a thread leaves the second when it
takes the mutex. A signal wakes at least one sleeper if there is one and may
wake more; a sleeper may also wake with no signal at all.

An operation answers nothing where the caller would have to wait, or where
the library gives no promise (unlocking a mutex of another thread).

The second half is the count behind every argument that no wake-up is lost.
`Covered c n` says that if somebody sleeps on `c`, at least `n` threads have
been woken for the `n` things there are to do. A signal covers one more
thing, and a thread that comes back from its wait leaves one thing less
covered: the one it came for.
-/

universe u

/-- A mutex, owned by at most one thread. -/
structure Mutex (T : Type u) where
  owner : Option T
  deriving DecidableEq

namespace Mutex

variable {T : Type u} {m m' : Mutex T} {t : T}

def free : Mutex T := ⟨none⟩

/-- Taken at once if the mutex is free; otherwise the caller waits, the owner
itself included. -/
def lock (m : Mutex T) (t : T) : Option (Mutex T) :=
  if m.owner = none then some ⟨some t⟩ else none

def unlock [DecidableEq T] (m : Mutex T) (t : T) : Option (Mutex T) :=
  if m.owner = some t then some ⟨none⟩ else none

theorem lock_eq_some : m.lock t = some m' ↔ m.owner = none ∧ m' = ⟨some t⟩ := by
  simp [lock, eq_comm]

theorem unlock_eq_some [DecidableEq T] :
    m.unlock t = some m' ↔ m.owner = some t ∧ m' = ⟨none⟩ := by
  simp [unlock, eq_comm]

end Mutex

/-- A condition variable: who sleeps on it, and who has been woken and is
waiting for the mutex. -/
structure CondVar (T : Type u) [DecidableEq T] where
  asleep : Finset T
  woken : Finset T
  apart : Disjoint asleep woken

namespace CondVar

variable {T : Type u} [DecidableEq T] {c c' : CondVar T} {t : T} {S : Finset T}
  {n m : Nat}

@[ext] theorem ext (hasleep : c.asleep = c'.asleep) (hwoken : c.woken = c'.woken) :
    c = c' := by
  cases c
  cases c'
  cases hasleep
  cases hwoken
  rfl

def empty : CondVar T := ⟨∅, ∅, Finset.disjoint_empty_left ∅⟩

/-- `t` goes to sleep. -/
def sleep (c : CondVar T) (t : T) : CondVar T where
  asleep := insert t c.asleep
  woken := c.woken.erase t
  apart := by
    rw [Finset.disjoint_insert_left]
    exact ⟨Finset.notMem_erase t _,
      c.apart.mono_right (Finset.erase_subset t _)⟩

/-- The sleepers among `S` wake. -/
def wake (c : CondVar T) (S : Finset T) : CondVar T where
  asleep := c.asleep \ S
  woken := c.woken ∪ (c.asleep ∩ S)
  apart := by
    rw [Finset.disjoint_union_right]
    exact ⟨c.apart.mono_left Finset.sdiff_subset,
      Finset.disjoint_sdiff_inter c.asleep S⟩

@[simp] theorem wake_asleep : (c.wake S).asleep = c.asleep \ S := rfl

@[simp] theorem wake_woken : (c.wake S).woken = c.woken ∪ (c.asleep ∩ S) := rfl

/-- A signal that wakes `S`: some sleepers, and not nobody if somebody
sleeps. -/
def signal (c : CondVar T) (S : Finset T) : Option (CondVar T) :=
  if S ⊆ c.asleep ∧ (c.asleep.Nonempty → S.Nonempty) then some (c.wake S) else none

/-- `t` wakes with no signal. -/
def spurious (c : CondVar T) (t : T) : Option (CondVar T) :=
  if t ∈ c.asleep then some (c.wake {t}) else none

/-- A woken `t` returns from its wait. -/
def resume (c : CondVar T) (t : T) : Option (CondVar T) :=
  if t ∈ c.woken then
    some ⟨c.asleep, c.woken.erase t, c.apart.mono_right (Finset.erase_subset t _)⟩
  else none

theorem signal_eq_some : c.signal S = some c' ↔
    (S ⊆ c.asleep ∧ (c.asleep.Nonempty → S.Nonempty)) ∧ c' = c.wake S := by
  simp [signal, eq_comm]

theorem spurious_eq_some :
    c.spurious t = some c' ↔ t ∈ c.asleep ∧ c' = c.wake {t} := by
  simp [spurious, eq_comm]

theorem resume_eq_some : c.resume t = some c' ↔
    t ∈ c.woken ∧ c'.asleep = c.asleep ∧ c'.woken = c.woken.erase t := by
  constructor
  · intro h
    simp only [resume, Option.ite_none_right_eq_some, Option.some.injEq] at h
    obtain ⟨ht, rfl⟩ := h
    exact ⟨ht, rfl, rfl⟩
  · rintro ⟨ht, hasleep, hwoken⟩
    rw [resume, if_pos ht]
    exact congrArg some (ext hasleep.symm hwoken.symm)

/-! ## Who waits -/

/-- `t` is inside its wait. -/
def Waits (c : CondVar T) (t : T) : Prop := t ∈ c.asleep ∨ t ∈ c.woken

theorem not_waits_empty : ¬ (empty : CondVar T).Waits t := by
  simp [Waits, empty]

theorem waits_sleep {t' : T} : (c.sleep t).Waits t' ↔ t' = t ∨ c.Waits t' := by
  by_cases h : t' = t <;> simp [Waits, sleep, h]

theorem waits_wake : (c.wake S).Waits t ↔ c.Waits t := by
  simp only [Waits, wake_asleep, wake_woken, Finset.mem_sdiff, Finset.mem_union, Finset.mem_inter]
  by_cases h : t ∈ S <;> simp [h, or_comm]

theorem waits_resume {t' : T} (h : c.resume t = some c') :
    c'.Waits t' ↔ c.Waits t' ∧ t' ≠ t := by
  obtain ⟨ht, hasleep, hwoken⟩ := resume_eq_some.1 h
  have hnot : t ∉ c.asleep := fun ha => Finset.disjoint_left.1 c.apart ha ht
  simp only [Waits, hasleep, hwoken, Finset.mem_erase]
  by_cases heq : t' = t
  · subst heq
    simp [hnot]
  · simp [heq]

/-! ## Counting the woken -/

/-- If somebody sleeps, at least `n` have been woken. -/
def Covered (c : CondVar T) (n : Nat) : Prop :=
  c.asleep.Nonempty → n ≤ c.woken.card

theorem covered_zero : c.Covered 0 := fun _ => Nat.zero_le _

theorem Covered.mono (h : c.Covered n) (hle : m ≤ n) : c.Covered m :=
  fun hs => hle.trans (h hs)

theorem Covered.of_asleep_empty (h : c.asleep = ∅) : c.Covered n := by
  intro hs
  rw [h] at hs
  exact absurd hs Finset.not_nonempty_empty

theorem card_woken_wake (h : S ⊆ c.asleep) :
    (c.wake S).woken.card = c.woken.card + S.card := by
  have hdisj : Disjoint c.woken S := (c.apart.mono_left h).symm
  rw [wake_woken, Finset.inter_eq_right.2 h, Finset.card_union_of_disjoint hdisj]

theorem Covered.wake (h : c.Covered n) : (c.wake S).Covered n := by
  intro hs
  have hsleep : c.asleep.Nonempty := hs.mono Finset.sdiff_subset
  exact (h hsleep).trans (Finset.card_le_card Finset.subset_union_left)

/-- A signal covers one thing more. -/
theorem Covered.signal (h : c.Covered n) (hs : c.signal S = some c') :
    c'.Covered (n + 1) := by
  obtain ⟨⟨hsub, hne⟩, rfl⟩ := signal_eq_some.1 hs
  intro hsleep
  have hbefore : c.asleep.Nonempty := hsleep.mono Finset.sdiff_subset
  have hcard : 0 < S.card := Finset.card_pos.2 (hne hbefore)
  have hn : n ≤ c.woken.card := h hbefore
  rw [card_woken_wake hsub]
  omega

/-- A thread that returns from its wait leaves one thing less covered. -/
theorem Covered.resume (h : c.Covered n) (hr : c.resume t = some c') :
    c'.Covered (n - 1) := by
  obtain ⟨ht, hasleep, hwoken⟩ := resume_eq_some.1 hr
  intro hsleep
  rw [hasleep] at hsleep
  have hn : n ≤ c.woken.card := h hsleep
  rw [hwoken, Finset.card_erase_of_mem ht]
  omega

end CondVar
