import IotCamera.Proofs.QueueWake

/-!
# A queue that stands still is empty

No wake-up is lost; so a queue in which no thread has a statement to execute
has nothing left to do. Nobody is inside, since whoever is can go on. Then a
thread that has been woken could take the mutex, so nobody has been, and by
the count of the wake-ups nobody sleeps on a condition that is fulfilled: the
queue is empty, the consumers wait for items, and the producers are between
two calls.

What keeps a thread inside going is that it has an item to push, or found one
to pop, which is a small invariant of its own.
-/

namespace IotCamera

open Lts

namespace Pcm

variable {T α : Type} [DecidableEq T] {side : T → Side} {s s' : Pcm T α} {t : T} {cap : Nat}

/-- Where a thread can stand, and when it has an item in its variable. -/
def Placed : Side → QueuePc → Option α → Prop
  | .product, .idle, _ => True
  | .product, .process, _ | .product, .delete, _ => False
  | .product, _, data => data.isSome
  | .consume, .idle, _ => False
  | .consume, .notify, data | .consume, .unlock, data | .consume, .process, data => data.isSome
  | .consume, _, _ => True

def AllPlaced (side : T → Side) (s : Pcm T α) : Prop := ∀ t, Placed (side t) (s.pc t) (s.data t)

theorem AllPlaced.move_of {pc : QueuePc} (h : AllPlaced side s)
    (hpc : s'.pc = Function.update s.pc t pc)
    (hdata : ∀ u, u ≠ t → s'.data u = s.data u)
    (hself : Placed (side t) pc (s'.data t)) : AllPlaced side s' := by
  intro u
  rw [hpc]
  by_cases hu : u = t
  · subst hu
    rw [Function.update_self]
    exact hself
  · rw [Function.update_of_ne hu, hdata u hu]
    exact h u

theorem AllPlaced.move (h : AllPlaced side s) (hm : Move side s s') : AllPlaced side s' := by
  cases hm with
  | call t v hside hpc =>
      refine h.move_of (t := t) rfl (fun u hu => Function.update_of_ne hu _ _) ?_
      show Placed (side t) .lock (Function.update s.data t (some v) t)
      rw [Function.update_self, hside]
      rfl
  | pop t v rest hside hpc hq =>
      refine h.move_of (t := t) rfl (fun u hu => Function.update_of_ne hu _ _) ?_
      show Placed (side t) .notify (Function.update s.data t (some v) t)
      rw [Function.update_self, hside]
      rfl
  | spurious t ht => exact h
  | lock t hpc hfree | busy t hpc hbusy | ready t hpc hbusy | nudge t woken c hpc hc
  | wait t hpc howner | resume t c hpc hfree hc | push t v hside hpc hdata
  | notify t woken c hpc hc | unlock t hpc howner | process t v hside hpc hdata
  | delete t hside hpc =>
      -- the variable stays, and so does the need for it
      have hold := h t
      refine h.move_of (t := t) rfl (fun u hu => rfl) ?_
      rw [hpc] at hold
      cases hside' : side t <;> simp_all [Placed, Side.after, put]

theorem allPlaced_reachable (h : Reachable (step side) (init α side cap) s) :
    AllPlaced side s := by
  refine h.invariant (I := AllPlaced side) (fun t => ?_) fun _ _ _ hi hs => hi.move (step_move hs)
  simp only [init]
  cases side t <;> trivial

/-! ## Who can go on -/

/-- No thread has a statement to execute. -/
def Still (side : T → Side) (s : Pcm T α) : Prop :=
  ∀ t woken, step side s (.statement t woken) = none

theorem notify_all (b : BlockQueue T α) (σ : Side) : ∃ woken b', b.notify σ woken = some b' :=
  ⟨(b.cond σ).asleep, _, BlockQueue.notify_eq_some.2
    ⟨_, CondVar.signal_eq_some.2 ⟨⟨Finset.Subset.refl _, id⟩, rfl⟩, rfl⟩⟩

/-- A push has its item, and a pop has found one. -/
theorem statement_transfer {woken : Finset T} (hpc : s.pc t = .transfer)
    (hplaced : AllPlaced side s) (htested : TestHolds side s) :
    (step side s (.statement t woken)).isSome := by
  have hplaced := hplaced t
  have htested := htested t
  rw [hpc] at hplaced htested
  cases hside : side t with
  | product =>
      rw [hside] at hplaced
      simp only [step, hside, pushData, hpc, Option.isSome_map]
      exact hplaced
  | consume =>
      rw [hside] at htested
      simp only [step, hside, consumer, popData, hpc]
      cases hq : s.bq.q with
      | nil =>
          have hbusy : s.bq.busy .consume = true := by
            rw [BlockQueue.busy, BlockQueue.isEmpty, hq]
            rfl
          rw [hbusy] at htested
          cases htested
      | cons v rest => rfl

/-- A consumer outside the queue has its item to process, or its next round. -/
theorem statement_process {woken : Finset T} (hpc : s.pc t = .process ∨ s.pc t = .delete)
    (hplaced : AllPlaced side s) : (step side s (.statement t woken)).isSome := by
  have hplaced := hplaced t
  cases hside : side t with
  | product =>
      rw [hside] at hplaced
      rcases hpc with hpc | hpc
      · rw [hpc] at hplaced
        exact hplaced.elim
      · rw [hpc] at hplaced
        exact hplaced.elim
  | consume =>
      rcases hpc with hpc | hpc
      · rw [hside, hpc] at hplaced
        simp only [step, hside, consumer, hpc, Option.isSome_map]
        exact hplaced
      · simp only [step, hside, consumer, hpc]
        rfl

theorem statement_of_inside (hplaced : AllPlaced side s) (htested : TestHolds side s)
    (howner : s.bq.mutex.owner = some t) (hinside : (s.pc t).inside = true) :
    ∃ woken, (step side s (.statement t woken)).isSome := by
  obtain ⟨woken, b, hnotify⟩ := notify_all s.bq (side t).other
  cases hpc : s.pc t with
  | idle | lock | blocked | process | delete =>
      rw [hpc] at hinside
      cases hinside
  | test => exact ⟨∅, by rw [statement_test hpc]; rfl⟩
  | nudge => exact ⟨woken, by rw [statement_nudge hpc, hnotify]; rfl⟩
  | wait =>
      exact ⟨∅, by rw [statement_wait hpc, BlockQueue.wait_eq_some.2 ⟨howner, rfl⟩]; rfl⟩
  | transfer => exact ⟨∅, statement_transfer hpc hplaced htested⟩
  | notify => exact ⟨woken, by rw [statement_notify hpc, hnotify]; rfl⟩
  | unlock =>
      exact ⟨∅, by rw [statement_unlock hpc, BlockQueue.unlockQueue_eq_some.2 ⟨howner, rfl⟩]; rfl⟩

/-! ## Nobody can -/

theorem Still.elim (h : Still side s) (woken : Finset T)
    (hsome : (step side s (.statement t woken)).isSome) : False := by
  rw [h t woken] at hsome
  cases hsome

theorem Still.free (h : Still side s) (hinv : MonitorInv side s) (hplaced : AllPlaced side s) :
    s.bq.mutex.owner = none := by
  by_contra hne
  obtain ⟨t, howner⟩ := Option.ne_none_iff_exists'.1 hne
  obtain ⟨woken, hsome⟩ :=
    statement_of_inside hplaced hinv.tested howner ((hinv.holds t).2 howner)
  exact h.elim woken hsome

/-- Nobody has been woken: with the mutex free he would go on. -/
theorem Still.not_woken (h : Still side s) (hinv : MonitorInv side s)
    (hfree : s.bq.mutex.owner = none) (σ : Side) : (s.bq.cond σ).woken = ∅ := by
  rw [Finset.eq_empty_iff_forall_notMem]
  intro t ht
  obtain ⟨rfl, hpc⟩ := (hinv.waiting t σ).1 (Or.inr ht)
  refine h.elim (t := t) ∅ ?_
  obtain ⟨c, hc⟩ : ∃ c, (s.bq.cond (side t)).resume t = some c := ⟨_, if_pos ht⟩
  rw [statement_blocked hpc, BlockQueue.resume_eq_some.2 ⟨hfree, c, hc, rfl⟩]
  rfl

/-- A side that sleeps has nothing to wake for. -/
theorem Still.avail (h : Still side s) (hinv : MonitorInv side s) {σ : Side}
    (hwoken : Woken side s σ) (hfree : s.bq.mutex.owner = none)
    (ht : t ∈ (s.bq.cond σ).asleep) : s.bq.avail σ = 0 := by
  rw [Woken, slack_free hfree] at hwoken
  have hcount := hwoken ⟨t, ht⟩
  rw [h.not_woken hinv hfree, Finset.card_empty] at hcount
  exact Nat.le_zero.1 hcount

theorem Still.pc (h : Still side s) (hinv : MonitorInv side s) (hplaced : AllPlaced side s)
    (hfree : s.bq.mutex.owner = none) (t : T) :
    side t = .product ∧ s.pc t = .idle ∨ t ∈ (s.bq.cond (side t)).asleep := by
  have hout : (s.pc t).inside = false := by
    rw [Bool.eq_false_iff]
    intro hinside
    rw [(hinv.holds t).1 hinside] at hfree
    cases hfree
  cases hpc : s.pc t with
  | test | nudge | wait | transfer | notify | unlock =>
      rw [hpc] at hout
      cases hout
  | idle =>
      have hplaced := hplaced t
      cases hside : side t with
      | product => exact Or.inl ⟨rfl, rfl⟩
      | consume =>
          rw [hpc, hside] at hplaced
          exact hplaced.elim
  | blocked =>
      have hwaits := (hinv.waiting t (side t)).2 ⟨rfl, hpc⟩
      rw [CondVar.Waits, h.not_woken hinv hfree] at hwaits
      exact Or.inr (hwaits.resolve_right (Finset.notMem_empty t))
  | lock =>
      refine (h.elim (t := t) ∅ ?_).elim
      rw [statement_lock hpc, BlockQueue.lockQueue_eq_some.2 ⟨hfree, rfl⟩]
      rfl
  | process => exact (h.elim ∅ (statement_process (Or.inl hpc) hplaced)).elim
  | delete => exact (h.elim ∅ (statement_process (Or.inr hpc) hplaced)).elim

/-- Nothing is left to do: the queue is empty, the producers are between two
calls, and the consumers wait for items. -/
structure Drained (side : T → Side) (s : Pcm T α) : Prop where
  empty : s.bq.q = []
  product : ∀ t, side t = .product → s.pc t = .idle
  consume : ∀ t, side t = .consume → s.pc t = .blocked

/-- A queue with room and a consumer stands still only when it is drained. -/
theorem drained_of_still (hcap : 0 < cap) (hconsumer : ∃ t, side t = .consume)
    (h : Reachable (step side) (init α side cap) s) (hstill : Still side s) :
    Drained side s := by
  obtain ⟨hinv, hwoken⟩ := woken_reachable h
  have hplaced := allPlaced_reachable h
  have hfree := hstill.free hinv hplaced
  have hasleep : ∀ t, side t = .consume → t ∈ s.bq.empty.asleep := by
    intro t hside
    have hpc := hstill.pc hinv hplaced hfree t
    rw [hside] at hpc
    exact hpc.resolve_left fun hp => (by cases hp.1)
  have hempty : s.bq.q = [] := by
    obtain ⟨t, hside⟩ := hconsumer
    exact List.length_eq_zero_iff.1
      (hstill.avail hinv (hwoken .consume) hfree (hasleep t hside))
  refine ⟨hempty, fun t hside => ?_, fun t hside => ?_⟩
  · have hpc := hstill.pc hinv hplaced hfree t
    rcases hpc with ⟨-, hidle⟩ | hsleep
    · exact hidle
    · -- it would sleep with the whole queue free
      have hroom := hstill.avail hinv (hwoken (side t)) hfree hsleep
      rw [hside, BlockQueue.avail, hempty, cap_reachable h] at hroom
      exact absurd hroom (Nat.pos_iff_ne_zero.1 hcap)
  · exact ((hinv.waiting t .consume).1 (Or.inl (hasleep t hside))).2

end Pcm

end IotCamera
