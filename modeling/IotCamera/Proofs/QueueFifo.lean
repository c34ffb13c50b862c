import IotCamera.Lib.Channel
import IotCamera.Proofs.QueueMoves

/-!
# The block queue is a bounded first-in first-out channel

Seen from outside, the queue and all its threads are one `Channel`: the
statement that pushes is a `put`, the statement that pops is a `get`, and
every other statement, wake-up and wait is nothing. That is a simulation, so
the laws of the channel hold of every interleaving. The one thing the
simulation needs of the threads is that a push finds room, which is the
re-test after each wake-up.

What `process()` sees is a property of the consumers and not of the queue.
With one consumer the popped values pass through its hands one at a time, so
`process()` is called on them in order, on each once.
-/

namespace IotCamera

open Lts

namespace Pcm

variable {T α : Type} [DecidableEq T] {side : T → Side} {s s' : Pcm T α} {cap : Nat}

/-- `c` is what the queue and its history look like from outside. -/
structure Shows (side : T → Side) (s : Pcm T α) (c : Channel α cap) : Prop where
  inv : MonitorInv side s
  cap_eq : s.bq.cap = cap
  view : c.view = (s.bq.q, s.pushed, s.popped)

theorem shows_init : Shows side (init α side cap) (.new α cap) :=
  ⟨monitorInv_init cap, rfl, rfl⟩

theorem Shows.room {c : Channel α cap} (h : Shows side s c) {t : T}
    (hside : side t = .product) (hpc : s.pc t = .transfer) : s.bq.q.length < cap := by
  have htested := h.inv.tested t
  rw [hpc, hside] at htested
  have hne : s.bq.q.length ≠ cap := by
    rw [← h.cap_eq]
    exact beq_eq_false_iff_ne.1 htested
  have hbound := c.bound
  rw [show c.content = s.bq.q from congrArg Prod.fst h.view] at hbound
  exact Nat.lt_of_le_of_ne hbound hne

theorem Shows.move {c : Channel α cap} (h : Shows side s c) (hm : Move side s s') :
    ∃ ops c', Run Channel.step c ops c' ∧ Shows side s' c' := by
  have hinv' : MonitorInv side s' := h.inv.move hm
  cases hm with
  | push t v hside hpc hdata =>
      obtain ⟨c', hput, hview⟩ := Channel.put_view v h.view (h.room hside hpc)
      exact ⟨[.put v], c', run_single.2 hput, hinv', h.cap_eq, hview⟩
  | pop t v rest hside hpc hq =>
      obtain ⟨c', hget, hview⟩ := Channel.get_view (hq ▸ h.view)
      exact ⟨[.get], c', run_single.2 hget, hinv', h.cap_eq, hview⟩
  | nudge t woken d hpc hc | notify t woken d hpc hc | wait t hpc howner
  | resume t d hpc hfree hc | spurious t ht =>
      exact ⟨[], c, run_nil.2 rfl, hinv', by simpa [put] using h.cap_eq,
        by simpa [put] using h.view⟩
  | call t v hside hpc | lock t hpc hfree | busy t hpc hbusy | ready t hpc hbusy
  | unlock t hpc howner | process t v hside hpc hdata | delete t hside hpc =>
      exact ⟨[], c, run_nil.2 rfl, hinv', h.cap_eq, h.view⟩

theorem shows_reachable (h : Reachable (step side) (init α side cap) s) :
    ∃ c : Channel α cap, Shows side s c := by
  obtain ⟨ls, hrun⟩ := h
  obtain ⟨_, c, _, hc⟩ := hrun.simulate (R := Shows side)
    (fun s l s' c hc hs => hc.move (step_move hs)) shows_init
  exact ⟨c, hc⟩

/-! ## What is processed -/

/-- The item a consumer has popped and not processed yet. -/
def inHand (s : Pcm T α) (t : T) : List α :=
  match s.pc t with
  | .notify | .unlock | .process => (s.data t).toList
  | _ => []

/-- The one consumer's invariant: what was popped is what was processed and
what it has in hand. -/
def HandInv (s : Pcm T α) (c : T) : Prop := s.popped = s.processed ++ s.inHand c

theorem inHand_congr {t : T} (hpc : s'.pc t = s.pc t) (hdata : s'.data t = s.data t) :
    s'.inHand t = s.inHand t := by
  rw [inHand, inHand, hpc, hdata]

theorem HandInv.congr {c : T} (h : HandInv s c) (hpopped : s'.popped = s.popped)
    (hprocessed : s'.processed = s.processed) (hhand : s'.inHand c = s.inHand c) :
    HandInv s' c := by
  rw [HandInv, hpopped, hprocessed, hhand]
  exact h

theorem HandInv.quiet {c t : T} {pc : QueuePc} (h : HandInv s c)
    (hpopped : s'.popped = s.popped) (hprocessed : s'.processed = s.processed)
    (hpc : s'.pc = Function.update s.pc t pc)
    (hself : c = t → s'.inHand c = s.inHand c)
    (hothers : c ≠ t → s'.data c = s.data c) : HandInv s' c := by
  refine h.congr hpopped hprocessed ?_
  by_cases hct : c = t
  · exact hself hct
  · exact inHand_congr (by rw [hpc, Function.update_of_ne hct]) (hothers hct)

theorem HandInv.move {c : T} (honly : ∀ t, side t = .consume → t = c)
    (hc : side c = .consume) (h : HandInv s c) (hm : Move side s s') : HandInv s' c := by
  cases hm with
  | call t v hside hpc =>
      have hne : c ≠ t := fun heq => by rw [← heq, hc] at hside; cases hside
      exact h.quiet rfl rfl rfl (fun heq => absurd heq hne)
        fun _ => Function.update_of_ne hne _ _
  | push t v hside hpc hdata =>
      have hne : c ≠ t := fun heq => by rw [← heq, hc] at hside; cases hside
      exact h.quiet rfl rfl rfl (fun heq => absurd heq hne) fun _ => rfl
  | pop t v rest hside hpc hq =>
      obtain rfl := honly t hside
      have hbefore : s.popped = s.processed := by
        have := h
        simpa [HandInv, inHand, hpc] using this
      simp [HandInv, inHand, put, hbefore]
  | process t v hside hpc hdata =>
      obtain rfl := honly t hside
      have hbefore : s.popped = s.processed ++ [v] := by
        have := h
        simpa [HandInv, inHand, hpc, hdata] using this
      simp [HandInv, inHand, put, hbefore]
  | unlock t hpc howner =>
      refine h.quiet rfl rfl rfl (fun heq => ?_) fun _ => rfl
      subst heq
      simp [inHand, put, hpc, hc, Side.after]
  | spurious t ht => exact h
  | lock t hpc hfree | busy t hpc hbusy | ready t hpc hbusy | nudge t woken d hpc hd
  | wait t hpc howner | resume t d hpc hfree hd | notify t woken d hpc hd
  | delete t hside hpc =>
      refine h.quiet rfl rfl rfl (fun heq => ?_) fun _ => rfl
      subst heq
      simp [inHand, put, hpc]

theorem handInv_reachable {c : T} (honly : ∀ t, side t = .consume → t = c)
    (hc : side c = .consume) (h : Reachable (step side) (init α side cap) s) :
    HandInv s c := by
  refine h.invariant (I := fun s => HandInv s c) ?_
    fun _ _ _ hi hs => hi.move honly hc (step_move hs)
  simp [HandInv, init, inHand, hc]

/-- In every reachable state the queue holds at most `cap` items, the values
popped are a prefix of the values pushed and the queue holds the rest, and a
consumer that is the only one has called `process()` on the popped values in
order, once each, up to the one it has in hand. -/
theorem queue_is_fifo (T α : Type) [DecidableEq T] (side : T → Side) (cap : Nat)
    (s : Pcm T α) (h : Reachable (step side) (init α side cap) s) :
    s.bq.q.length ≤ cap ∧ s.popped <+: s.pushed ∧ s.pushed = s.popped ++ s.bq.q ∧
    ∀ c, side c = .consume → (∀ t, side t = .consume → t = c) →
      s.popped = s.processed ++ s.inHand c := by
  obtain ⟨c, hc⟩ := shows_reachable h
  obtain ⟨content, sent, received, law, bound⟩ := c
  obtain ⟨rfl, rfl, rfl⟩ := hc.view
  refine ⟨bound, ⟨_, law.symm⟩, law, fun c hc honly => ?_⟩
  exact handInv_reachable honly hc h

/-- One producer and one consumer. -/
def pair : Bool → Side
  | true => .product
  | false => .consume

/-- The consumer finds nothing and sleeps, the producer pushes and wakes it and
pushes again, and the consumer pops both values, with `process()` called on the
first. -/
def sleepPushPop : List (Label Bool Nat) :=
  List.replicate 4 (.statement false ∅) ++ [.producterPush true 7] ++
    List.replicate 3 (.statement true ∅) ++ [.statement true {false}] ++
    [.statement true ∅, .producterPush true 8] ++ List.replicate 5 (.statement true ∅) ++
    List.replicate 10 (.statement false ∅)

theorem queue_is_fifo_pair :
    ∃ s : Pcm Bool Nat, s.popped = [7, 8] ∧ s.processed = [7] ∧ s.inHand false = [8] ∧
      s.bq.q.length ≤ 2 ∧ s.popped <+: s.pushed ∧ s.pushed = s.popped ++ s.bq.q ∧
      ∀ c, pair c = .consume → (∀ t, pair t = .consume → t = c) →
        s.popped = s.processed ++ s.inHand c :=
  ⟨_, rfl, rfl, rfl, queue_is_fifo Bool Nat pair 2 _ ⟨sleepPushPop, run_get (by decide)⟩⟩

end Pcm

end IotCamera
