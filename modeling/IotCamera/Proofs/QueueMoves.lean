import IotCamera.Pcm.Queue

/-!
# What a step of the block queue can do

`PushData` and `PopData` are the same routine seen from the two sides of the
queue, and `Move` lists its steps once, in terms of the side: what the
program counter was, what guarded the step, and what the state is after it.
`step_move` says that the model has no other steps. Every invariant of the
queue is then one case analysis over `Move`.

The file also has the invariant the others build on. A thread is between its
lock and its unlock exactly if it owns the mutex, so what it found in its test
still holds when it acts on it, and it is inside a wait exactly if its
condition variable knows it.
-/

namespace IotCamera

open Lts

/-- Nothing to do for this side: `IsFull()` for the producers, `IsEmpty()` for
the consumers. -/
def BlockQueue.busy {T α : Type} [DecidableEq T] (b : BlockQueue T α) : Side → Bool
  | .product => b.isFull
  | .consume => b.isEmpty

/-- Where a side goes after its unlock. -/
def Side.after : Side → QueuePc
  | .product => .idle
  | .consume => .process

/-- The statements between the lock and the unlock. -/
def QueuePc.inside : QueuePc → Bool
  | .test | .nudge | .wait | .transfer | .notify | .unlock => true
  | _ => false

/-- What the last test says about the queue at a statement. -/
def QueuePc.Tested : QueuePc → Bool → Prop
  | .transfer, busy => busy = false
  | .nudge, busy | .wait, busy => busy = true
  | _, _ => True

theorem QueuePc.tested_of_outside {pc : QueuePc} (h : pc.inside = false) (busy : Bool) :
    pc.Tested busy := by
  cases pc <;> first | exact trivial | cases h

namespace BlockQueue

variable {T α : Type} [DecidableEq T] {b b' : BlockQueue T α} {side side' : Side}
  {c : CondVar T} {t : T} {woken : Finset T}

@[simp] theorem setCond_q : (b.setCond side c).q = b.q := by cases side <;> rfl

@[simp] theorem setCond_cap : (b.setCond side c).cap = b.cap := by cases side <;> rfl

@[simp] theorem setCond_mutex : (b.setCond side c).mutex = b.mutex := by
  cases side <;> rfl

@[simp] theorem cond_setCond : (b.setCond side c).cond side = c := by cases side <;> rfl

theorem cond_setCond_ne (h : side' ≠ side) :
    (b.setCond side c).cond side' = b.cond side' := by
  cases side <;> cases side' <;> first | rfl | exact absurd rfl h

theorem busy_congr (hq : b'.q = b.q) (hcap : b'.cap = b.cap) :
    b'.busy side = b.busy side := by
  cases side <;> simp [busy, isFull, isEmpty, hq, hcap]

theorem lockQueue_eq_some : b.lockQueue t = some b' ↔
    b.mutex.owner = none ∧ b' = { b with mutex := ⟨some t⟩ } := by
  simp only [lockQueue, Option.map_eq_some_iff, Mutex.lock_eq_some]
  constructor
  · rintro ⟨m, ⟨hfree, rfl⟩, rfl⟩
    exact ⟨hfree, rfl⟩
  · rintro ⟨hfree, rfl⟩
    exact ⟨_, ⟨hfree, rfl⟩, rfl⟩

theorem unlockQueue_eq_some : b.unlockQueue t = some b' ↔
    b.mutex.owner = some t ∧ b' = { b with mutex := .free } := by
  simp only [unlockQueue, Option.map_eq_some_iff, Mutex.unlock_eq_some]
  constructor
  · rintro ⟨m, ⟨howner, rfl⟩, rfl⟩
    exact ⟨howner, rfl⟩
  · rintro ⟨howner, rfl⟩
    exact ⟨_, ⟨howner, rfl⟩, rfl⟩

theorem wait_eq_some : b.wait side t = some b' ↔ b.mutex.owner = some t ∧
    b' = { b with mutex := .free }.setCond side ((b.cond side).sleep t) := by
  simp only [wait, Option.map_eq_some_iff, Mutex.unlock_eq_some]
  constructor
  · rintro ⟨m, ⟨howner, rfl⟩, rfl⟩
    exact ⟨howner, rfl⟩
  · rintro ⟨howner, rfl⟩
    exact ⟨_, ⟨howner, rfl⟩, rfl⟩

theorem resume_eq_some : b.resume side t = some b' ↔ b.mutex.owner = none ∧
    ∃ c, (b.cond side).resume t = some c ∧
      b' = { b with mutex := ⟨some t⟩ }.setCond side c := by
  simp only [resume, Option.bind_eq_some_iff, Option.map_eq_some_iff, Mutex.lock_eq_some]
  constructor
  · rintro ⟨m, ⟨hfree, rfl⟩, c, hc, rfl⟩
    exact ⟨hfree, c, hc, rfl⟩
  · rintro ⟨hfree, c, hc, rfl⟩
    exact ⟨_, ⟨hfree, rfl⟩, c, hc, rfl⟩

theorem notify_eq_some : b.notify side woken = some b' ↔
    ∃ c, (b.cond side).signal woken = some c ∧ b' = b.setCond side c := by
  simp only [notify, Option.map_eq_some_iff]
  constructor
  · rintro ⟨c, hc, rfl⟩
    exact ⟨c, hc, rfl⟩
  · rintro ⟨c, hc, rfl⟩
    exact ⟨c, hc, rfl⟩

end BlockQueue

namespace Pcm

variable {T α : Type} [DecidableEq T] {side : T → Side} {s s' : Pcm T α}

@[simp] theorem put_bq {t : T} {b : BlockQueue T α} {pc : QueuePc} :
    (s.put t b pc).bq = b := rfl

@[simp] theorem put_pc_self {t : T} {b : BlockQueue T α} {pc : QueuePc} :
    (s.put t b pc).pc t = pc := Function.update_self ..

/-- The steps of the machine. -/
inductive Move (side : T → Side) (s : Pcm T α) : Pcm T α → Prop
  | call (t : T) (v : α) (hside : side t = .product) (hpc : s.pc t = .idle) :
      Move side s { s.put t s.bq .lock with data := Function.update s.data t (some v) }
  | lock (t : T) (hpc : s.pc t = .lock) (hfree : s.bq.mutex.owner = none) :
      Move side s (s.put t { s.bq with mutex := ⟨some t⟩ } .test)
  | busy (t : T) (hpc : s.pc t = .test) (hbusy : s.bq.busy (side t) = true) :
      Move side s (s.put t s.bq .nudge)
  | ready (t : T) (hpc : s.pc t = .test) (hbusy : s.bq.busy (side t) = false) :
      Move side s (s.put t s.bq .transfer)
  | nudge (t : T) (woken : Finset T) (c : CondVar T) (hpc : s.pc t = .nudge)
      (hc : (s.bq.cond (side t).other).signal woken = some c) :
      Move side s (s.put t (s.bq.setCond (side t).other c) .wait)
  | wait (t : T) (hpc : s.pc t = .wait) (howner : s.bq.mutex.owner = some t) :
      Move side s (s.put t ({ s.bq with mutex := .free }.setCond (side t)
        ((s.bq.cond (side t)).sleep t)) .blocked)
  | resume (t : T) (c : CondVar T) (hpc : s.pc t = .blocked)
      (hfree : s.bq.mutex.owner = none)
      (hc : (s.bq.cond (side t)).resume t = some c) :
      Move side s (s.put t ({ s.bq with mutex := ⟨some t⟩ }.setCond (side t) c) .test)
  | push (t : T) (v : α) (hside : side t = .product) (hpc : s.pc t = .transfer)
      (hdata : s.data t = some v) :
      Move side s { s.put t { s.bq with q := s.bq.q ++ [v] } .notify with
        pushed := s.pushed ++ [v] }
  | pop (t : T) (v : α) (rest : List α) (hside : side t = .consume)
      (hpc : s.pc t = .transfer) (hq : s.bq.q = v :: rest) :
      Move side s { s.put t { s.bq with q := rest } .notify with
        data := Function.update s.data t (some v)
        popped := s.popped ++ [v] }
  | notify (t : T) (woken : Finset T) (c : CondVar T) (hpc : s.pc t = .notify)
      (hc : (s.bq.cond (side t).other).signal woken = some c) :
      Move side s (s.put t (s.bq.setCond (side t).other c) .unlock)
  | unlock (t : T) (hpc : s.pc t = .unlock) (howner : s.bq.mutex.owner = some t) :
      Move side s (s.put t { s.bq with mutex := .free } (side t).after)
  | process (t : T) (v : α) (hside : side t = .consume) (hpc : s.pc t = .process)
      (hdata : s.data t = some v) :
      Move side s { s.put t s.bq .delete with processed := s.processed ++ [v] }
  | delete (t : T) (hside : side t = .consume) (hpc : s.pc t = .delete) :
      Move side s (s.put t s.bq .lock)
  | spurious (t : T) (ht : t ∈ (s.bq.cond (side t)).asleep) :
      Move side s { s with bq := s.bq.setCond (side t) ((s.bq.cond (side t)).wake {t}) }

/-! ### The statements that `PushData` and `PopData` share -/

section Shared

variable {t : T} {woken : Finset T}

theorem statement_lock (hpc : s.pc t = .lock) : step side s (.statement t woken) =
    (s.bq.lockQueue t).map fun b => s.put t b .test := by
  cases hside : side t <;> simp only [step, hside, pushData, consumer, popData, hpc]

theorem statement_test (hpc : s.pc t = .test) : step side s (.statement t woken) =
    some (s.put t s.bq (if s.bq.busy (side t) then .nudge else .transfer)) := by
  cases hside : side t <;> simp only [step, hside, pushData, consumer, popData, hpc] <;> rfl

theorem statement_nudge (hpc : s.pc t = .nudge) : step side s (.statement t woken) =
    (s.bq.notify (side t).other woken).map fun b => s.put t b .wait := by
  cases hside : side t <;> simp only [step, hside, pushData, consumer, popData, hpc] <;> rfl

theorem statement_wait (hpc : s.pc t = .wait) : step side s (.statement t woken) =
    (s.bq.wait (side t) t).map fun b => s.put t b .blocked := by
  cases hside : side t <;> simp only [step, hside, pushData, consumer, popData, hpc] <;> rfl

theorem statement_blocked (hpc : s.pc t = .blocked) : step side s (.statement t woken) =
    (s.bq.resume (side t) t).map fun b => s.put t b .test := by
  cases hside : side t <;> simp only [step, hside, pushData, consumer, popData, hpc]

theorem statement_notify (hpc : s.pc t = .notify) : step side s (.statement t woken) =
    (s.bq.notify (side t).other woken).map fun b => s.put t b .unlock := by
  cases hside : side t <;> simp only [step, hside, pushData, consumer, popData, hpc] <;> rfl

theorem statement_unlock (hpc : s.pc t = .unlock) : step side s (.statement t woken) =
    (s.bq.unlockQueue t).map fun b => s.put t b (side t).after := by
  cases hside : side t <;> simp only [step, hside, pushData, consumer, popData, hpc] <;> rfl

end Shared

/-- A statement is one of the moves. Only its own thread goes on, and a producer
between two calls has none to execute. -/
theorem statement_move {t : T} {woken : Finset T}
    (h : step side s (.statement t woken) = some s') :
    Move side s s' ∧ s.pc t ≠ .idle ∧ ∃ pc, s'.pc = Function.update s.pc t pc := by
  cases hpc : s.pc t with
  | idle => cases hside : side t <;> simp [step, hside, pushData, consumer, popData, hpc] at h
  | lock =>
      rw [statement_lock hpc] at h
      obtain ⟨b, hb, rfl⟩ := Option.map_eq_some_iff.1 h
      obtain ⟨hfree, rfl⟩ := BlockQueue.lockQueue_eq_some.1 hb
      exact ⟨.lock t hpc hfree, by simp, _, rfl⟩
  | test =>
      rw [statement_test hpc, Option.some.injEq] at h
      subst h
      refine ⟨?_, by simp, _, rfl⟩
      split
      next hbusy => exact .busy t hpc hbusy
      next hbusy => exact .ready t hpc (Bool.not_eq_true _ ▸ hbusy)
  | nudge =>
      rw [statement_nudge hpc] at h
      obtain ⟨b, hb, rfl⟩ := Option.map_eq_some_iff.1 h
      obtain ⟨c, hc, rfl⟩ := BlockQueue.notify_eq_some.1 hb
      exact ⟨.nudge t woken c hpc hc, by simp, _, rfl⟩
  | wait =>
      rw [statement_wait hpc] at h
      obtain ⟨b, hb, rfl⟩ := Option.map_eq_some_iff.1 h
      obtain ⟨howner, rfl⟩ := BlockQueue.wait_eq_some.1 hb
      exact ⟨.wait t hpc howner, by simp, _, rfl⟩
  | blocked =>
      rw [statement_blocked hpc] at h
      obtain ⟨b, hb, rfl⟩ := Option.map_eq_some_iff.1 h
      obtain ⟨hfree, c, hc, rfl⟩ := BlockQueue.resume_eq_some.1 hb
      exact ⟨.resume t c hpc hfree hc, by simp, _, rfl⟩
  | transfer =>
      cases hside : side t with
      | product =>
          simp only [step, hside, pushData, hpc] at h
          obtain ⟨v, hv, rfl⟩ := Option.map_eq_some_iff.1 h
          exact ⟨.push t v hside hpc hv, by simp, _, rfl⟩
      | consume =>
          simp only [step, hside, consumer, popData, hpc] at h
          cases hq : s.bq.q with
          | nil =>
              rw [hq] at h
              cases h
          | cons v rest =>
              rw [hq] at h
              injection h with h
              subst h
              exact ⟨.pop t v rest hside hpc hq, by simp, _, rfl⟩
  | notify =>
      rw [statement_notify hpc] at h
      obtain ⟨b, hb, rfl⟩ := Option.map_eq_some_iff.1 h
      obtain ⟨c, hc, rfl⟩ := BlockQueue.notify_eq_some.1 hb
      exact ⟨.notify t woken c hpc hc, by simp, _, rfl⟩
  | unlock =>
      rw [statement_unlock hpc] at h
      obtain ⟨b, hb, rfl⟩ := Option.map_eq_some_iff.1 h
      obtain ⟨howner, rfl⟩ := BlockQueue.unlockQueue_eq_some.1 hb
      exact ⟨.unlock t hpc howner, by simp, _, rfl⟩
  | process =>
      cases hside : side t with
      | product => simp [step, hside, pushData, hpc] at h
      | consume =>
          simp only [step, hside, consumer, hpc] at h
          obtain ⟨v, hv, rfl⟩ := Option.map_eq_some_iff.1 h
          exact ⟨.process t v hside hpc hv, by simp, _, rfl⟩
  | delete =>
      cases hside : side t with
      | product => simp [step, hside, pushData, hpc] at h
      | consume =>
          simp only [step, hside, consumer, hpc] at h
          injection h with h
          subst h
          exact ⟨.delete t hside hpc, by simp, _, rfl⟩

theorem step_move {l : Label T α} (h : step side s l = some s') : Move side s s' := by
  cases l with
  | producterPush t v =>
      simp only [step, Option.ite_none_right_eq_some, Option.some.injEq] at h
      obtain ⟨⟨hside, hpc⟩, rfl⟩ := h
      exact .call t v hside hpc
  | statement t woken => exact (statement_move h).1
  | spurious t =>
      obtain ⟨c, hc, rfl⟩ := Option.map_eq_some_iff.1 h
      obtain ⟨ht, rfl⟩ := CondVar.spurious_eq_some.1 hc
      exact .spurious t ht

theorem Move.cap_eq (hm : Move side s s') : s'.bq.cap = s.bq.cap := by
  cases hm <;> simp

/-! ## Who is inside -/

/-- The owner of the mutex is the one thread between its lock and its
unlock. -/
def Holds (s : Pcm T α) : Prop :=
  ∀ t, (s.pc t).inside = true ↔ s.bq.mutex.owner = some t

theorem Holds.move_of {t : T} {pc : QueuePc} (h : Holds s)
    (hpc : s'.pc = Function.update s.pc t pc)
    (hself : pc.inside = true ↔ s'.bq.mutex.owner = some t)
    (hothers : ∀ u, u ≠ t →
      (s'.bq.mutex.owner = some u ↔ s.bq.mutex.owner = some u)) : Holds s' := by
  intro u
  rw [hpc]
  by_cases hu : u = t
  · subst hu
    rw [Function.update_self]
    exact hself
  · rw [Function.update_of_ne hu, hothers u hu]
    exact h u

/-- A step inside the lock, or outside it, that leaves the mutex alone. -/
theorem Holds.stay {t : T} {pc : QueuePc} (h : Holds s)
    (hpc : s'.pc = Function.update s.pc t pc)
    (hinside : pc.inside = (s.pc t).inside)
    (hmutex : s'.bq.mutex = s.bq.mutex) : Holds s' :=
  h.move_of hpc (by rw [hinside, hmutex]; exact h t) (fun u _ => by rw [hmutex])

theorem Holds.enter {t : T} {pc : QueuePc} (h : Holds s)
    (hpc : s'.pc = Function.update s.pc t pc) (hinside : pc.inside = true)
    (hfree : s.bq.mutex.owner = none) (howner : s'.bq.mutex.owner = some t) :
    Holds s' := by
  refine h.move_of hpc (by simp [hinside, howner]) (fun u hu => ?_)
  simp [hfree, howner, Ne.symm hu]

theorem Holds.leave {t : T} {pc : QueuePc} (h : Holds s)
    (hpc : s'.pc = Function.update s.pc t pc) (hinside : pc.inside = false)
    (howner : s.bq.mutex.owner = some t) (hfree : s'.bq.mutex.owner = none) :
    Holds s' := by
  refine h.move_of hpc (by simp [hinside, hfree]) (fun u hu => ?_)
  simp [hfree, howner, Ne.symm hu]

theorem Holds.move (h : Holds s) (hm : Move side s s') : Holds s' := by
  cases hm with
  | lock t hpc hfree => exact h.enter rfl rfl hfree rfl
  | resume t c hpc hfree hc => exact h.enter rfl rfl hfree (by simp [put])
  | wait t hpc howner => exact h.leave rfl rfl howner (by simp [put, Mutex.free])
  | unlock t hpc howner =>
      exact h.leave rfl (by cases side t <;> rfl) howner rfl
  | spurious t ht => exact fun u => by simpa using h u
  | nudge t woken c hpc hc | notify t woken c hpc hc =>
      exact h.stay rfl (by rw [hpc]; rfl) (by simp [put])
  | call t v hside hpc | busy t hpc hbusy | ready t hpc hbusy
  | push t v hside hpc hdata | pop t v rest hside hpc hq
  | process t v hside hpc hdata | delete t hside hpc =>
      exact h.stay rfl (by rw [hpc]; rfl) rfl

/-! ## What was tested still holds -/

/-- What a thread found in its test is still so when it acts on it. -/
def TestHolds (side : T → Side) (s : Pcm T α) : Prop :=
  ∀ t, (s.pc t).Tested (s.bq.busy (side t))

/-- Only the owner changes the queue, and the others rely on no test. -/
theorem TestHolds.move_of {t : T} {pc : QueuePc} (h : TestHolds side s) (hin : Holds s)
    (hpc : s'.pc = Function.update s.pc t pc)
    (hself : pc.Tested (s'.bq.busy (side t)))
    (hq : s'.bq.q = s.bq.q ∧ s'.bq.cap = s.bq.cap ∨ s.bq.mutex.owner = some t) :
    TestHolds side s' := by
  intro u
  rw [hpc]
  by_cases hu : u = t
  · subst hu
    rw [Function.update_self]
    exact hself
  · rw [Function.update_of_ne hu]
    rcases hq with ⟨hq, hcap⟩ | howner
    · rw [BlockQueue.busy_congr hq hcap]
      exact h u
    · refine QueuePc.tested_of_outside ?_ _
      rw [Bool.eq_false_iff]
      intro hinside
      rw [(hin u).1 hinside] at howner
      exact hu (Option.some.inj howner)

theorem TestHolds.move (h : TestHolds side s) (hin : Holds s) (hm : Move side s s') :
    TestHolds side s' := by
  cases hm with
  | busy t hpc hbusy => exact h.move_of hin rfl hbusy (Or.inl ⟨rfl, rfl⟩)
  | ready t hpc hbusy => exact h.move_of hin rfl hbusy (Or.inl ⟨rfl, rfl⟩)
  | nudge t woken c hpc hc =>
      refine h.move_of hin rfl ?_ (Or.inl (by simp [put]))
      have hbusy := h t
      rw [hpc] at hbusy
      exact (BlockQueue.busy_congr (by simp [put]) (by simp [put])).trans hbusy
  | push t v hside hpc hdata =>
      exact h.move_of hin rfl trivial (Or.inr ((hin t).1 (by rw [hpc]; rfl)))
  | pop t v rest hside hpc hq =>
      exact h.move_of hin rfl trivial (Or.inr ((hin t).1 (by rw [hpc]; rfl)))
  | unlock t hpc howner =>
      exact h.move_of hin rfl (by cases side t <;> trivial) (Or.inl ⟨rfl, rfl⟩)
  | spurious t ht =>
      intro u
      show (s.pc u).Tested ((s.bq.setCond _ _).busy (side u))
      rw [BlockQueue.busy_congr BlockQueue.setCond_q BlockQueue.setCond_cap]
      exact h u
  | notify t woken c hpc hc | wait t hpc howner | resume t c hpc hfree hc =>
      exact h.move_of hin rfl trivial (Or.inl (by simp [put]))
  | call t v hside hpc | lock t hpc hfree | process t v hside hpc hdata
  | delete t hside hpc =>
      exact h.move_of hin rfl trivial (Or.inl ⟨rfl, rfl⟩)

/-! ## Who waits -/

/-- A thread is known to a condition variable exactly if it is blocked in a
wait, and that is the condition of its side. -/
def Waiting (side : T → Side) (s : Pcm T α) : Prop :=
  ∀ t σ, (s.bq.cond σ).Waits t ↔ side t = σ ∧ s.pc t = .blocked

theorem Waiting.stay {t : T} {pc : QueuePc} (h : Waiting side s)
    (hpc : s'.pc = Function.update s.pc t pc) (hbefore : s.pc t ≠ .blocked)
    (hafter : pc ≠ .blocked)
    (hcond : ∀ u σ, (s'.bq.cond σ).Waits u ↔ (s.bq.cond σ).Waits u) :
    Waiting side s' := by
  intro u σ
  rw [hcond, h u σ, hpc]
  by_cases hu : u = t
  · subst hu
    simp [hbefore, hafter]
  · rw [Function.update_of_ne hu]

theorem waits_wake_cond {b : BlockQueue T α} {σ : Side} {S : Finset T} (u : T) (τ : Side) :
    ((b.setCond σ ((b.cond σ).wake S)).cond τ).Waits u ↔ (b.cond τ).Waits u := by
  by_cases hτ : τ = σ
  · subst hτ
    rw [BlockQueue.cond_setCond, CondVar.waits_wake]
  · rw [BlockQueue.cond_setCond_ne hτ]

theorem Waiting.move (h : Waiting side s) (hm : Move side s s') : Waiting side s' := by
  cases hm with
  | nudge t woken c hpc hc | notify t woken c hpc hc =>
      obtain ⟨-, rfl⟩ := CondVar.signal_eq_some.1 hc
      exact h.stay rfl (by rw [hpc]; nofun) nofun waits_wake_cond
  | spurious t ht => exact fun u σ => (waits_wake_cond u σ).trans (h u σ)
  | wait t hpc howner =>
      intro u σ
      have hold := h u σ
      by_cases hu : u = t
      · subst hu
        by_cases hσ : σ = side u
        · subst hσ
          simp [put, CondVar.waits_sleep]
        · rw [put, BlockQueue.cond_setCond_ne hσ]
          simp only [Function.update_self, and_true]
          refine ⟨fun hw => absurd (hold.1 hw).1 (Ne.symm hσ), fun hs => ?_⟩
          exact absurd hs.symm hσ
      · rw [put]
        simp only [Function.update_of_ne hu]
        by_cases hσ : σ = side t
        · subst hσ
          rw [BlockQueue.cond_setCond, CondVar.waits_sleep, or_iff_right hu]
          exact hold
        · rw [BlockQueue.cond_setCond_ne hσ]
          exact hold
  | resume t c hpc hfree hc =>
      intro u σ
      have hold := h u σ
      by_cases hu : u = t
      · subst hu
        by_cases hσ : σ = side u
        · subst hσ
          simp [put, CondVar.waits_resume hc]
        · rw [put, BlockQueue.cond_setCond_ne hσ]
          simp only [Function.update_self, reduceCtorEq, and_false, iff_false]
          exact fun hw => hσ (hold.1 hw).1.symm
      · rw [put]
        simp only [Function.update_of_ne hu]
        by_cases hσ : σ = side t
        · subst hσ
          rw [BlockQueue.cond_setCond, CondVar.waits_resume hc, and_iff_left hu]
          exact hold
        · rw [BlockQueue.cond_setCond_ne hσ]
          exact hold
  | unlock t hpc howner =>
      exact h.stay rfl (by rw [hpc]; nofun) (by cases side t <;> nofun) fun u σ => by
        cases σ <;> rfl
  | call t v hside hpc | lock t hpc hfree | busy t hpc hbusy | ready t hpc hbusy
  | push t v hside hpc hdata | pop t v rest hside hpc hq
  | process t v hside hpc hdata | delete t hside hpc =>
      exact h.stay rfl (by rw [hpc]; nofun) nofun fun u σ => by cases σ <;> rfl

/-! ## All of it -/

/-- The invariant every reachable state of the queue meets. -/
structure MonitorInv (side : T → Side) (s : Pcm T α) : Prop where
  holds : Holds s
  tested : TestHolds side s
  waiting : Waiting side s

theorem init_outside (cap : Nat) (t : T) :
    ((init α side cap).pc t).inside = false ∧ (init α side cap).pc t ≠ .blocked := by
  simp only [init]
  cases side t <;> exact ⟨rfl, nofun⟩

theorem monitorInv_init (cap : Nat) : MonitorInv side (init α side cap) where
  holds t := by
    rw [(init_outside cap t).1]
    exact ⟨nofun, nofun⟩
  tested t := QueuePc.tested_of_outside (init_outside cap t).1 _
  waiting t σ := by
    refine ⟨fun hw => ?_, fun hb => absurd hb.2 (init_outside cap t).2⟩
    cases σ <;> exact absurd hw CondVar.not_waits_empty

theorem MonitorInv.move (h : MonitorInv side s) (hm : Move side s s') :
    MonitorInv side s' :=
  ⟨h.holds.move hm, h.tested.move h.holds hm, h.waiting.move hm⟩

theorem cap_reachable {cap : Nat} (h : Reachable (step side) (init α side cap) s) :
    s.bq.cap = cap :=
  h.invariant (I := fun s => s.bq.cap = cap) rfl
    fun _ _ _ hi hs => (step_move hs).cap_eq.trans hi

end Pcm

end IotCamera
