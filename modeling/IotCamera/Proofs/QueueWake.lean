import IotCamera.Proofs.QueueMoves

/-!
# No wake-up of the block queue is lost

Each side waits for something the other side makes: consumers for items,
producers for room. `avail` counts it. The claim is that whoever sleeps on a
condition, as many threads of that side are already awake as there are things
for them, so that no item waits for a thread that nobody will wake.

Between a lock and an unlock that is off by one. A thread that has made
something and has not signalled yet owes a wake-up to the other side, and a
thread that came to take something counts neither as woken nor as having
taken it. `slack` is that correction, and with it the count is an invariant:
the signal pays what the push or pop owes, a returning thread takes one thing
with it, and a thread goes to sleep only with nothing there. With the mutex
free the correction is zero.
-/

namespace IotCamera

open Lts

/-- What a side waits for. -/
def BlockQueue.avail {T α : Type} [DecidableEq T] (b : BlockQueue T α) : Side → Nat
  | .product => b.cap - b.q.length
  | .consume => b.q.length

/-- Things of its own side that the thread inside has come for. -/
def QueuePc.claims : QueuePc → Nat
  | .test | .transfer => 1
  | _ => 0

/-- Things of the other side that the thread inside has made and not
signalled. -/
def QueuePc.owes : QueuePc → Nat
  | .notify => 1
  | _ => 0

theorem Side.eq_other {σ τ : Side} (h : σ ≠ τ) : σ = τ.other := by
  cases σ <;> cases τ <;> first | rfl | exact absurd rfl h

theorem Side.other_ne (σ : Side) : σ.other ≠ σ := by cases σ <;> nofun

namespace BlockQueue

variable {T α : Type} [DecidableEq T] {b b' : BlockQueue T α} {σ : Side}

theorem avail_congr (hq : b'.q = b.q) (hcap : b'.cap = b.cap) :
    b'.avail σ = b.avail σ := by
  cases σ <;> simp [avail, hq, hcap]

theorem avail_of_busy (h : b.busy σ = true) : b.avail σ = 0 := by
  cases σ
  case product =>
    have hfull : b.q.length = b.cap := beq_iff_eq.1 h
    rw [avail, hfull, Nat.sub_self]
  case consume => exact beq_iff_eq.1 h

end BlockQueue

namespace Pcm

variable {T α : Type} [DecidableEq T] {side : T → Side} {s s' : Pcm T α} {t : T}
  {σ : Side}

/-- How far the count may be off while a thread is inside. -/
def slack (side : T → Side) (s : Pcm T α) (σ : Side) : Nat :=
  match s.bq.mutex.owner with
  | none => 0
  | some t => if side t = σ then (s.pc t).claims else (s.pc t).owes

/-- The count, for one side. -/
def Woken (side : T → Side) (s : Pcm T α) (σ : Side) : Prop :=
  (s.bq.cond σ).Covered (s.bq.avail σ - slack side s σ)

theorem slack_free (h : s.bq.mutex.owner = none) : slack side s σ = 0 := by
  rw [slack, h]

theorem slack_own (h : s.bq.mutex.owner = some t) :
    slack side s (side t) = (s.pc t).claims := by
  rw [slack, h]
  exact if_pos rfl

theorem slack_other (h : s.bq.mutex.owner = some t) :
    slack side s (side t).other = (s.pc t).owes := by
  rw [slack, h]
  exact if_neg (Ne.symm (Side.other_ne _))

theorem slack_outside (hmutex : s'.bq.mutex = s.bq.mutex)
    (hpc : ∀ u, s.bq.mutex.owner = some u → s'.pc u = s.pc u) :
    slack side s' σ = slack side s σ := by
  rw [slack, slack, hmutex]
  cases howner : s.bq.mutex.owner with
  | none => rfl
  | some u => simp only [hpc u howner]

theorem woken_inside (howner : s.bq.mutex.owner = some t) :
    (∀ σ, Woken side s σ) ↔
      (s.bq.cond (side t)).Covered (s.bq.avail (side t) - (s.pc t).claims) ∧
      (s.bq.cond (side t).other).Covered
        (s.bq.avail (side t).other - (s.pc t).owes) := by
  rw [← slack_own howner, ← slack_other howner]
  refine ⟨fun h => ⟨h _, h _⟩, fun h σ => ?_⟩
  by_cases hσ : σ = side t
  · exact hσ ▸ h.1
  · exact Side.eq_other hσ ▸ h.2

/-- The two counts while nobody is. -/
theorem woken_free (t : T) (hfree : s.bq.mutex.owner = none) :
    (∀ σ, Woken side s σ) ↔
      (s.bq.cond (side t)).Covered (s.bq.avail (side t)) ∧
      (s.bq.cond (side t).other).Covered (s.bq.avail (side t).other) := by
  have hslack : ∀ σ, Woken side s σ ↔ (s.bq.cond σ).Covered (s.bq.avail σ) := by
    intro σ
    rw [Woken, slack_free hfree, Nat.sub_zero]
  simp only [hslack]
  refine ⟨fun h => ⟨h _, h _⟩, fun h σ => ?_⟩
  by_cases hσ : σ = side t
  · exact hσ ▸ h.1
  · exact Side.eq_other hσ ▸ h.2

theorem woken_outside {pc : QueuePc} (hin : Holds s) (h : ∀ σ, Woken side s σ)
    (hbq : s'.bq = s.bq) (hpc : s'.pc = Function.update s.pc t pc)
    (hout : (s.pc t).inside = false) : ∀ σ, Woken side s' σ := by
  intro σ
  have hslack : slack side s' σ = slack side s σ := by
    refine slack_outside (by rw [hbq]) fun u hu => ?_
    rw [hpc, Function.update_of_ne]
    rintro rfl
    rw [(hin u).2 hu] at hout
    cases hout
  rw [Woken, hbq, hslack]
  exact h σ

/-- A change of one condition variable is not a change of the counts, or of
the other one. -/
theorem avail_setCond {b : BlockQueue T α} {τ : Side} {c : CondVar T} :
    (b.setCond τ c).avail σ = b.avail σ :=
  BlockQueue.avail_congr BlockQueue.setCond_q BlockQueue.setCond_cap

theorem cond_setCond_other {b : BlockQueue T α} {c : CondVar T} :
    (b.setCond σ.other c).cond σ = b.cond σ :=
  BlockQueue.cond_setCond_ne (Ne.symm σ.other_ne)

theorem avail_push {b : BlockQueue T α} {v : α} :
    b.avail .product - 1 = { b with q := b.q ++ [v] }.avail .product ∧
    { b with q := b.q ++ [v] }.avail .consume = b.avail .consume + 1 := by
  simp only [BlockQueue.avail, List.length_append, List.length_singleton]
  exact ⟨Nat.sub_sub .., trivial⟩

theorem avail_pop {b : BlockQueue T α} {v : α} {rest : List α} (hq : b.q = v :: rest) :
    b.avail .consume - 1 = { b with q := rest }.avail .consume ∧
    { b with q := rest }.avail .product ≤ b.avail .product + 1 := by
  simp only [BlockQueue.avail, hq, List.length_cons]
  omega

theorem woken_move (hinv : MonitorInv side s) (h : ∀ σ, Woken side s σ)
    (hm : Move side s s') : ∀ σ, Woken side s' σ := by
  have hin : Holds s := hinv.holds
  cases hm with
  | call t v hside hpc | process t v hside hpc hdata | delete t hside hpc =>
      exact woken_outside hin h rfl rfl (by rw [hpc]; rfl)
  | spurious t ht =>
      intro σ
      have hslack : ∀ c, slack side { s with bq := s.bq.setCond (side t) c } σ =
          slack side s σ := fun c => slack_outside (by simp) fun u _ => rfl
      rw [Woken, hslack,
        BlockQueue.avail_congr BlockQueue.setCond_q BlockQueue.setCond_cap]
      by_cases hσ : σ = side t
      · subst hσ
        rw [BlockQueue.cond_setCond]
        exact (h (side t)).wake
      · rw [BlockQueue.cond_setCond_ne hσ]
        exact h σ
  | lock t hpc hfree =>
      obtain ⟨hown, hother⟩ := (woken_free t hfree).1 h
      rw [woken_inside (t := t) rfl]
      exact ⟨hown.mono (Nat.sub_le _ _), hother.mono (Nat.sub_le _ _)⟩
  | busy t hpc hbusy =>
      have howner := (hin t).1 (by rw [hpc]; rfl)
      rw [woken_inside howner, hpc] at h
      rw [woken_inside (t := t) (by simpa using howner), put_bq, put_pc_self]
      refine ⟨?_, h.2⟩
      rw [BlockQueue.avail_of_busy hbusy, Nat.zero_sub]
      exact CondVar.covered_zero
  | ready t hpc hbusy =>
      have howner := (hin t).1 (by rw [hpc]; rfl)
      rw [woken_inside howner, hpc] at h
      rw [woken_inside (t := t) (by simpa using howner), put_bq, put_pc_self]
      exact h
  | nudge t woken c hpc hc =>
      have howner := (hin t).1 (by rw [hpc]; rfl)
      rw [woken_inside howner, hpc] at h
      rw [woken_inside (t := t) (by simpa using howner), put_bq, put_pc_self,
        avail_setCond, avail_setCond, cond_setCond_other, BlockQueue.cond_setCond]
      exact ⟨h.1, (h.2.signal hc).mono (Nat.le_succ _)⟩
  | wait t hpc howner =>
      have hbusy : s.bq.busy (side t) = true := by
        have htested := hinv.tested t
        rwa [hpc] at htested
      rw [woken_inside howner, hpc] at h
      rw [woken_free t (by simp [Mutex.free]), put_bq, avail_setCond, avail_setCond,
        BlockQueue.cond_setCond, BlockQueue.cond_setCond_ne (Side.other_ne _)]
      refine ⟨?_, h.2⟩
      rw [show ({ s.bq with mutex := .free } : BlockQueue T α).avail (side t) = 0 from
        BlockQueue.avail_of_busy hbusy]
      exact CondVar.covered_zero
  | resume t c hpc hfree hc =>
      rw [woken_free t hfree] at h
      rw [woken_inside (t := t) (by simp), put_bq, put_pc_self, avail_setCond,
        avail_setCond, BlockQueue.cond_setCond,
        BlockQueue.cond_setCond_ne (Side.other_ne _)]
      exact ⟨h.1.resume hc, h.2⟩
  | push t v hside hpc hdata =>
      have howner := (hin t).1 (by rw [hpc]; rfl)
      obtain ⟨hroom, hitems⟩ := avail_push (b := s.bq) (v := v)
      rw [woken_inside howner, hpc, hside] at h
      rw [woken_inside (t := t) (by exact howner), put_pc_self, hside, put_bq]
      exact ⟨hroom ▸ h.1, h.2.mono (Nat.sub_le_of_le_add (Nat.le_of_eq hitems))⟩
  | pop t v rest hside hpc hq =>
      have howner := (hin t).1 (by rw [hpc]; rfl)
      obtain ⟨hitems, hroom⟩ := avail_pop hq
      rw [woken_inside howner, hpc, hside] at h
      rw [woken_inside (t := t) (by exact howner), put_pc_self, hside, put_bq]
      exact ⟨hitems ▸ h.1, h.2.mono (Nat.sub_le_of_le_add hroom)⟩
  | notify t woken c hpc hc =>
      have howner := (hin t).1 (by rw [hpc]; rfl)
      rw [woken_inside howner, hpc] at h
      rw [woken_inside (t := t) (by simpa using howner), put_bq, put_pc_self,
        avail_setCond, avail_setCond, cond_setCond_other, BlockQueue.cond_setCond]
      exact ⟨h.1, (h.2.signal hc).mono (Nat.le_add_of_sub_le (Nat.le_refl _))⟩
  | unlock t hpc howner =>
      rw [woken_inside howner, hpc] at h
      rw [woken_free t (by simp [Mutex.free]), put_bq]
      exact h

theorem woken_reachable {cap : Nat} (h : Reachable (step side) (init α side cap) s) :
    MonitorInv side s ∧ ∀ σ, Woken side s σ := by
  refine h.invariant (I := fun s => MonitorInv side s ∧ ∀ σ, Woken side s σ)
    ⟨monitorInv_init cap, fun σ => ?_⟩
    fun _ _ _ hi hs => ⟨hi.1.move (step_move hs), woken_move hi.1 hi.2 (step_move hs)⟩
  exact CondVar.Covered.of_asleep_empty (by cases σ <;> rfl)

theorem not_all_asleep (hinv : MonitorInv side s) (hfree : s.bq.mutex.owner = none)
    (h : Woken side s σ) (havail : 0 < s.bq.avail σ) (hsome : ∃ t, side t = σ) :
    ¬ ∀ t, side t = σ → t ∈ (s.bq.cond σ).asleep := by
  intro hall
  obtain ⟨t, ht⟩ := hsome
  rw [Woken, slack_free hfree] at h
  have hcard : 0 < (s.bq.cond σ).woken.card :=
    Nat.lt_of_lt_of_le havail (h ⟨t, hall t ht⟩)
  obtain ⟨u, hu⟩ := Finset.card_pos.1 hcard
  -- a woken thread waits on the condition of its own side, and is not asleep
  have hside : side u = σ := ((hinv.waiting u σ).1 (Or.inr hu)).1
  exact Finset.disjoint_left.1 (s.bq.cond σ).apart (hall u hside) hu

/-- In every reachable state with the mutex free: if a consumer sleeps on
`empty`, at least as many consumers are woken as there are items; if a
producer sleeps on `full`, at least as many producers are woken as there are
free places; so a queue with items never has all consumers asleep, and a
queue with room never has all producers asleep. Who sleeps on a condition is
a thread of its side inside its wait. -/
theorem no_lost_wakeup (T α : Type) [DecidableEq T] (side : T → Side) (cap : Nat)
    (s : Pcm T α) (h : Reachable (step side) (init α side cap) s)
    (hfree : s.bq.mutex.owner = none) :
    (s.bq.empty.asleep.Nonempty → s.bq.q.length ≤ s.bq.empty.woken.card) ∧
    (s.bq.full.asleep.Nonempty → cap - s.bq.q.length ≤ s.bq.full.woken.card) ∧
    ¬ (0 < s.bq.q.length ∧ (∃ t, side t = .consume) ∧
      ∀ t, side t = .consume → t ∈ s.bq.empty.asleep) ∧
    ¬ (s.bq.q.length < cap ∧ (∃ t, side t = .product) ∧
      ∀ t, side t = .product → t ∈ s.bq.full.asleep) ∧
    (∀ t, t ∈ s.bq.empty.asleep ∨ t ∈ s.bq.empty.woken ↔
      side t = .consume ∧ s.pc t = .blocked) ∧
    ∀ t, t ∈ s.bq.full.asleep ∨ t ∈ s.bq.full.woken ↔
      side t = .product ∧ s.pc t = .blocked := by
  obtain ⟨hinv, hwoken⟩ := woken_reachable h
  have hcap : s.bq.cap = cap := cap_reachable h
  have hconsume := hwoken .consume
  have hproduct := hwoken .product
  refine ⟨?_, ?_, ?_, ?_, fun t => hinv.waiting t .consume, fun t => hinv.waiting t .product⟩
  · rw [Woken, slack_free hfree] at hconsume
    exact hconsume
  · rw [Woken, slack_free hfree] at hproduct
    rw [← hcap]
    exact hproduct
  · rintro ⟨hitems, hsome, hall⟩
    exact not_all_asleep hinv hfree hconsume hitems hsome hall
  · rintro ⟨hroom, hsome, hall⟩
    rw [← hcap] at hroom
    exact not_all_asleep hinv hfree hproduct (Nat.sub_pos_of_lt hroom) hsome hall

/-- One producer and two consumers. -/
def trio : Fin 3 → Side
  | 0 => .product
  | _ => .consume

/-- Both consumers sleep, and the producer pushes and wakes one of them. -/
def twoSleepOnePush : List (Label (Fin 3) Nat) :=
  List.replicate 4 (.statement 1 ∅) ++ List.replicate 4 (.statement 2 ∅) ++
    [.producterPush 0 7] ++ List.replicate 3 (.statement 0 ∅) ++
    [.statement 0 {1}, .statement 0 ∅]

theorem no_lost_wakeup_trio :
    ∃ s : Pcm (Fin 3) Nat, s.bq.empty.asleep = {2} ∧ s.bq.q = [7] ∧
      (s.bq.empty.asleep.Nonempty → s.bq.q.length ≤ s.bq.empty.woken.card) ∧
      (s.bq.full.asleep.Nonempty → 1 - s.bq.q.length ≤ s.bq.full.woken.card) ∧
      ¬ (0 < s.bq.q.length ∧ (∃ t, trio t = .consume) ∧
        ∀ t, trio t = .consume → t ∈ s.bq.empty.asleep) ∧
      ¬ (s.bq.q.length < 1 ∧ (∃ t, trio t = .product) ∧
        ∀ t, trio t = .product → t ∈ s.bq.full.asleep) ∧
      (∀ t, t ∈ s.bq.empty.asleep ∨ t ∈ s.bq.empty.woken ↔
        trio t = .consume ∧ s.pc t = .blocked) ∧
      ∀ t, t ∈ s.bq.full.asleep ∨ t ∈ s.bq.full.woken ↔
        trio t = .product ∧ s.pc t = .blocked :=
  ⟨_, rfl, rfl,
    no_lost_wakeup (Fin 3) Nat trio 1 _ ⟨twoSleepOnePush, run_get (by decide)⟩ rfl⟩

end Pcm

end IotCamera
