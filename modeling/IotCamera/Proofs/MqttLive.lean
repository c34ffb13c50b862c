import IotCamera.Proofs.MqttLock

/-!
# The flag and the handle

`conn` is the promise `pubmsg` acts on: if it is 1, `mqttclient` may be
published on. The client thread sets it once the library has connected, and
from there to the end of its sleep the handle stays usable. Everywhere else
the flag is 0, because whoever lost the connection cleared it first, and so
the promise is kept from the first statement on.

Everywhere, but for one return. `pthread_cond_wait` may come back with no
signal, the thread takes that for a lost connection without looking at the
flag, and the handle is taken down under a flag that still says 1. That one
step is the whole difference: runs without it keep the promise, and after it
three more statements of the client thread break it.

The second half asks the opposite question, whether a lost connection can go
unnoticed. It cannot. A `connlost` clears the flag and signals under one lock,
and the thread that falls asleep afterwards has connected again.
-/

namespace IotCamera

open Lts Critical

/-- From `mqttcd.conn = 1` to the end of the sleep. -/
def ClientPc.up : ClientPc → Bool
  | .connected | .subscribe | .wait | .blocked => true
  | .start | .lock | .create | .setCallbacks | .connect | .connFailed | .disconnect
  | .destroy | .unlock => false

namespace Mqtt

variable {L P : Type} [DecidableEq L] [DecidableEq P] {s s' : Mqtt L P}
  {l : Label L P} {c : MqttCall}

/-- `mqttclient` is a handle that was created and connected and has not been
destroyed. -/
def Usable (s : Mqtt L P) : Prop :=
  ∃ h, s.mqttclient = some h ∧ mqttLedger.Live s.calls h ∧
    .connect (some h) mqttclientSuccess ∈ s.calls

/-- With the lock free, a flag of 1 means a usable handle. -/
def ConnUsable (s : Mqtt L P) : Prop :=
  s.mutex.owner = none → s.conn = 1 → s.Usable

/-- A message was published on a live handle, if the call published one. -/
def PublishLive (pre : List MqttCall) (c : MqttCall) : Prop :=
  ∀ on topic payload, c = .publishMessage on topic payload →
    ∃ h, on = some h ∧ mqttLedger.Live pre h

/-- The library connects valid handles only: `MQTTClient_connect` succeeds on
a handle that was created and not destroyed. -/
def ConnectsValid (s : Mqtt L P) : Label L P → Prop
  | .client rc => s.client = .connect → rc = mqttclientSuccess →
      ∃ h, s.mqttclient = some h ∧ mqttLedger.Live s.calls h
  | _ => True

/-- If `pthread_cond_wait` returns, the flag is down. -/
def ReturnsDown (s : Mqtt L P) : Label L P → Prop
  | .client _ => s.client = .blocked → s.conn ≠ 1
  | _ => True

instance ConnectsValid.instDecidable (s : Mqtt L P) : ∀ l, Decidable (ConnectsValid s l)
  | .client rc =>
      match h : s.mqttclient with
      | none => decidable_of_iff (s.client = .connect → rc ≠ mqttclientSuccess)
          (by simp [ConnectsValid, h])
      | some k => decidable_of_iff
          (s.client = .connect → rc = mqttclientSuccess → mqttLedger.Live s.calls k)
          (by simp [ConnectsValid, h])
  | .callConnlost _ | .connlost _ | .callPubmsg _ _ | .pubmsg _ _ | .spurious =>
      isTrue trivial

instance ReturnsDown.instDecidable (s : Mqtt L P) : ∀ l, Decidable (ReturnsDown s l)
  | .client _ => inferInstanceAs (Decidable (s.client = .blocked → s.conn ≠ 1))
  | .callConnlost _ | .connlost _ | .callPubmsg _ _ | .pubmsg _ _ | .spurious =>
      isTrue trivial

/-! ## What a step does to the flag and the handle -/

theorem Usable.congr (h : s.Usable) (hclient : s'.mqttclient = s.mqttclient)
    (hcalls : s'.calls = s.calls) : s'.Usable := by
  obtain ⟨k, hk, hlive, hconn⟩ := h
  refine ⟨k, hclient.trans hk, ?_, ?_⟩ <;> rw [hcalls] <;> assumption

theorem Usable.call (h : s.Usable) (hopen : mqttLedger.opens c = none)
    (hclose : mqttLedger.closes c = none) : (s.call c).Usable := by
  obtain ⟨k, hk, hlive, hconn⟩ := h
  exact ⟨k, hk, (Ledger.live_snoc_neutral hopen hclose).2 hlive,
    List.mem_append_left _ hconn⟩

theorem connlostStep_frame {l : L} (h : s.connlostStep l = some s') :
    s'.mqttclient = s.mqttclient ∧ s'.calls = s.calls ∧
    s'.cond.asleep ⊆ s.cond.asleep ∧
    (s'.conn = s.conn ∨ s.connlost l = .clearConn ∧ s'.conn = 0) := by
  unfold connlostStep at h
  split at h
  next => cases h
  next =>
    obtain ⟨-, rfl⟩ := lock_then h
    exact ⟨rfl, rfl, Finset.Subset.refl _, Or.inl rfl⟩
  next hpc =>
    cases h
    exact ⟨rfl, rfl, Finset.Subset.refl _, Or.inr ⟨hpc, rfl⟩⟩
  next =>
    obtain ⟨c, hc, rfl⟩ := Option.map_eq_some_iff.1 h
    obtain ⟨-, rfl⟩ := CondVar.signal_eq_some.1 hc
    exact ⟨rfl, rfl, Finset.sdiff_subset, Or.inl rfl⟩
  next =>
    obtain ⟨-, rfl⟩ := unlock_then h
    exact ⟨rfl, rfl, Finset.Subset.refl _, Or.inl rfl⟩

/-- `pubmsg` leaves the flag and the handle alone. It makes no call, or one
that neither creates nor destroys; and it publishes on the handle in
`mqttclient`, at the one statement that does. -/
theorem pubmsgStep_frame {p : P} {ans : Int} (h : s.pubmsgStep p ans = some s') :
    s'.conn = s.conn ∧ s'.mqttclient = s.mqttclient ∧ s'.connlost = s.connlost ∧
    (∀ q, q ≠ p → s'.pubmsg q = s.pubmsg q) ∧
    (s'.calls = s.calls ∨ ∃ c, s'.calls = s.calls ++ [c] ∧
      mqttLedger.opens c = none ∧ mqttLedger.closes c = none ∧
      ∀ on topic payload, c = .publishMessage on topic payload →
        s.pubmsg p = .publishMessage ∧ on = s.mqttclient) := by
  unfold pubmsgStep at h
  split at h
  next => cases h
  next =>
    obtain ⟨-, rfl⟩ := lock_then h
    exact ⟨rfl, rfl, rfl, fun q hq => Function.update_of_ne hq _ _, Or.inl rfl⟩
  next =>
    cases h
    exact ⟨rfl, rfl, rfl, fun q hq => Function.update_of_ne hq _ _, Or.inl rfl⟩
  next hpc =>
    cases h
    refine ⟨rfl, rfl, rfl, fun q hq => Function.update_of_ne hq _ _,
      Or.inr ⟨_, rfl, rfl, rfl, ?_⟩⟩
    intro on topic payload hc
    cases hc
    exact ⟨hpc, rfl⟩
  next =>
    cases h
    refine ⟨rfl, rfl, rfl, fun q hq => Function.update_of_ne hq _ _,
      Or.inr ⟨_, rfl, rfl, rfl, ?_⟩⟩
    intro on topic payload hc
    cases hc
  next =>
    obtain ⟨-, rfl⟩ := unlock_then h
    exact ⟨rfl, rfl, rfl, fun q hq => Function.update_of_ne hq _ _, Or.inl rfl⟩

/-! ## The promise -/

/-- The flag is down outside the thread's up time, the handle is usable within
it, and whoever is about to publish has the flag up. -/
structure UpInv (s : Mqtt L P) : Prop extends HeldInv s where
  down : s.client.up = false → s.conn ≠ 1
  usable : s.client.up = true → s.Usable
  tested : ∀ p, s.pubmsg p = .publishMessage → s.conn = 1
  published : Trace.Always PublishLive s.calls

theorem upInv_init {clientid : String} : UpInv (init L P clientid) :=
  ⟨heldInv_init, fun _ => by simp [init], fun h => (by cases h), fun p hp => (by cases hp),
    Trace.always_nil⟩

/-- A flag of 1 means a usable handle, whoever owns the lock. -/
theorem UpInv.usable_of_conn (h : UpInv s) (hconn : s.conn = 1) : s.Usable := by
  cases hup : s.client.up with
  | true => exact h.usable hup
  | false => exact absurd hconn (h.down hup)

theorem publishLive_of_other {pre : List MqttCall}
    (hc : ∀ on topic payload, c ≠ .publishMessage on topic payload) : PublishLive pre c :=
  fun on topic payload h => absurd h (hc on topic payload)

theorem HeldInv.not_publishing (h : HeldInv s) {t : MqttThread L P} (ht : 0 < s.left t)
    {p : P} (hne : t ≠ .pubmsg p) : s.pubmsg p ≠ .publishMessage := by
  intro hp
  have hpub : s.mutex.owner = some (.pubmsg p) :=
    h.held _ (by rw [left_pubmsg, hp]; decide)
  rw [h.held t ht, Option.some.injEq] at hpub
  exact hne hpub

/-- A statement of the client thread outside its up time that leaves the flag
alone. -/
theorem UpInv.stays_down (h : UpInv s) (hheld : HeldInv s') (hbefore : s.client.up = false)
    (hafter : s'.client.up = false) (hconn : s'.conn = s.conn) (hpub : s'.pubmsg = s.pubmsg)
    (hcalls : Trace.Always PublishLive s'.calls) : UpInv s' := by
  refine ⟨hheld, fun _ => ?_, fun hup => ?_, fun p hp => ?_, hcalls⟩
  · rw [hconn]
    exact h.down hbefore
  · rw [hafter] at hup
    cases hup
  · rw [hconn]
    rw [hpub] at hp
    exact h.tested p hp

theorem UpInv.clientStep {rc : Int} (h : UpInv s)
    (hvalid : ConnectsValid s (.client rc)) (hdown : ReturnsDown s (.client rc))
    (hheld : HeldInv s') (hs : s.clientStep rc = some s') : UpInv s' := by
  unfold Mqtt.clientStep at hs
  split at hs
  case h_1 hpc =>
    cases hs
    have hconn : s.conn ≠ 1 := h.down (by rw [hpc]; rfl)
    exact ⟨hheld, fun _ => by simp [clientAt], fun hup => (by cases hup),
      fun p hp => absurd (h.tested p hp) hconn, h.published⟩
  case h_2 hpc | h_13 hpc =>
    obtain ⟨s₁, h₁, rfl⟩ := Option.map_eq_some_iff.1 hs
    first
      | obtain ⟨-, rfl⟩ := lockMutex_eq_some.1 h₁
      | obtain ⟨-, rfl⟩ := unlockMutex_eq_some.1 h₁
    exact h.stays_down hheld (by rw [hpc]; rfl) rfl rfl rfl h.published
  case h_3 hpc | h_4 hpc | h_11 hpc | h_12 hpc =>
    cases hs
    exact h.stays_down hheld (by rw [hpc]; rfl) rfl rfl rfl
      (Trace.always_snoc.2 ⟨h.published, publishLive_of_other (by simp)⟩)
  case h_5 hpc =>
    cases hs
    have hconn : s.conn ≠ 1 := h.down (by rw [hpc]; rfl)
    refine ⟨hheld, fun _ => hconn, fun hup => ?_, h.tested,
      Trace.always_snoc.2 ⟨h.published, publishLive_of_other (by simp)⟩⟩
    by_cases hrc : rc = mqttclientSuccess
    · obtain ⟨k, hk, hlive⟩ := hvalid hpc hrc
      refine ⟨k, hk, (Ledger.live_snoc_neutral rfl rfl).2 hlive, ?_⟩
      rw [← hrc, ← hk]
      exact List.mem_append_right _ List.mem_cons_self
    · simp only [clientAt, if_pos hrc] at hup
      cases hup
  case h_6 hpc =>
    cases hs
    refine ⟨hheld, fun _ => by simp [clientAt], fun hup => (by cases hup), fun p hp => ?_,
      h.published⟩
    exact absurd hp (h.not_publishing (t := .client) (by simp [hpc, ClientPc.left]) (by simp))
  case h_7 hpc =>
    cases hs
    exact ⟨hheld, fun hup => (by cases hup), fun _ => h.usable (by rw [hpc]; rfl),
      fun _ _ => rfl, h.published⟩
  case h_8 hpc =>
    cases hs
    exact ⟨hheld, fun hup => (by cases hup),
      fun _ => (h.usable (by rw [hpc]; rfl)).call rfl rfl, h.tested,
      Trace.always_snoc.2 ⟨h.published, publishLive_of_other (by simp)⟩⟩
  case h_9 hpc =>
    obtain ⟨-, rfl⟩ := unlock_then hs
    exact ⟨hheld, fun hup => (by cases hup), fun _ => h.usable (by rw [hpc]; rfl),
      h.tested, h.published⟩
  case h_10 hpc =>
    -- back from the wait, with the flag down
    obtain ⟨s₁, h₁, h₂⟩ := Option.bind_eq_some_iff.1 hs
    obtain ⟨-, rfl⟩ := lockMutex_eq_some.1 h₁
    obtain ⟨c, -, rfl⟩ := Option.map_eq_some_iff.1 h₂
    exact ⟨hheld, fun _ => hdown hpc, fun hup => (by cases hup), h.tested, h.published⟩

theorem UpInv.other (h : UpInv s) (hheld : HeldInv s') (hclient : s'.client = s.client)
    (husable : s.Usable → s'.Usable) (hconn : s'.conn = s.conn ∨ s'.conn = 0)
    (htested : ∀ p, s'.pubmsg p = .publishMessage → s'.conn = 1)
    (hcalls : Trace.Always PublishLive s'.calls) : UpInv s' := by
  refine ⟨hheld, fun hup => ?_, fun hup => ?_, htested, hcalls⟩ <;> rw [hclient] at hup
  · rcases hconn with hconn | hconn <;> rw [hconn]
    · exact h.down hup
    · decide
  · exact husable (h.usable hup)

theorem UpInv.connlostStep {l : L} (h : UpInv s) (hheld : HeldInv s')
    (hs : s.connlostStep l = some s') : UpInv s' := by
  obtain ⟨-, hclient, -, hpub⟩ := connlostStep_move hs
  obtain ⟨hmqtt, hcalls, -, hconn⟩ := connlostStep_frame hs
  refine h.other hheld hclient (fun hu => hu.congr hmqtt hcalls)
    (hconn.imp_right And.right) (fun p hp => ?_) (hcalls ▸ h.published)
  rw [hpub] at hp
  rcases hconn with hconn | ⟨hpc, -⟩
  · rw [hconn]
    exact h.tested p hp
  · -- it owns the lock, so nobody is about to publish
    exact absurd hp (h.not_publishing (t := .connlost l)
      (by simp [hpc, ConnlostPc.left]) (by simp))

theorem pubmsgStep_tested {p : P} {ans : Int} (hs : s.pubmsgStep p ans = some s')
    (hp : s'.pubmsg p = .publishMessage) : s.conn = 1 := by
  unfold pubmsgStep at hs
  split at hs
  next => cases hs
  next =>
    obtain ⟨s₁, -, rfl⟩ := Option.map_eq_some_iff.1 hs
    simp [pubmsgAt] at hp
  next =>
    cases hs
    by_cases hconn : s.conn = 1
    · exact hconn
    · simp [pubmsgAt, hconn] at hp
  next => cases hs; simp [pubmsgAt] at hp
  next => cases hs; simp [pubmsgAt] at hp
  next =>
    obtain ⟨s₁, -, rfl⟩ := Option.map_eq_some_iff.1 hs
    simp [pubmsgAt] at hp

theorem UpInv.pubmsgStep {p : P} {ans : Int} (h : UpInv s) (hheld : HeldInv s')
    (hs : s.pubmsgStep p ans = some s') : UpInv s' := by
  obtain ⟨hconn, hmqtt, -, hothers, hcalls⟩ := pubmsgStep_frame hs
  refine h.other hheld (pubmsgStep_wait hs).2 (fun hu => ?_) (Or.inl hconn)
    (fun q hq => ?_) ?_
  · rcases hcalls with hcalls | ⟨c, hcalls, hopen, hclose, -⟩
    · exact hu.congr hmqtt hcalls
    · exact (hu.call hopen hclose).congr hmqtt hcalls
  · rw [hconn]
    by_cases hqp : q = p
    · subst hqp
      exact pubmsgStep_tested hs hq
    · rw [hothers q hqp] at hq
      exact h.tested q hq
  · rcases hcalls with hcalls | ⟨c, hcalls, -, -, hpublish⟩ <;> rw [hcalls]
    · exact h.published
    · refine Trace.always_snoc.2 ⟨h.published, fun on topic payload hc => ?_⟩
      obtain ⟨hpc, rfl⟩ := hpublish on topic payload hc
      obtain ⟨k, hk, hlive, -⟩ := h.usable_of_conn (h.tested p hpc)
      exact ⟨k, hk, hlive⟩

theorem UpInv.step (h : UpInv s) (hvalid : ConnectsValid s l) (hdown : ReturnsDown s l)
    (hs : step s l = some s') : UpInv s' := by
  have hheld : HeldInv s' := h.toHeldInv.step hs
  cases l with
  | client rc => exact h.clientStep hvalid hdown hheld hs
  | connlost l => exact h.connlostStep hheld hs
  | pubmsg p ans => exact h.pubmsgStep hheld hs
  | callConnlost l =>
      simp only [Mqtt.step, Option.ite_none_right_eq_some, Option.some.injEq] at hs
      obtain ⟨-, rfl⟩ := hs
      exact h.other hheld rfl id (Or.inl rfl) h.tested h.published
  | callPubmsg p msg =>
      simp only [Mqtt.step, Option.ite_none_right_eq_some, Option.some.injEq] at hs
      obtain ⟨-, rfl⟩ := hs
      refine h.other hheld rfl id (Or.inl rfl) (fun q hq => ?_) h.published
      by_cases hqp : q = p
      · subst hqp
        simp [pubmsgAt] at hq
      · rw [show ∀ s : Mqtt L P, (s.pubmsgAt p .lock).pubmsg q = s.pubmsg q from
          fun s => Function.update_of_ne hqp _ _] at hq
        exact h.tested q hq
  | spurious =>
      obtain ⟨c, -, rfl⟩ := Option.map_eq_some_iff.1 hs
      exact h.other hheld rfl id (Or.inl rfl) h.tested h.published

/-- The client thread comes back from its wait with the flag up. Three more of
its statements, and the lock is free, the flag is up and the handle is
destroyed. -/
theorem broken_after_early_return {rc : Int} (hpc : s.client = .blocked) (hconn : s.conn = 1)
    (hs : step s (.client rc) = some s') :
    ∃ s'', Run step s' (List.replicate 3 (.client 0)) s'' ∧ ¬ s''.ConnUsable := by
  simp only [Mqtt.step, Mqtt.clientStep, hpc] at hs
  obtain ⟨s₁, h₁, h₂⟩ := Option.bind_eq_some_iff.1 hs
  obtain ⟨-, rfl⟩ := lockMutex_eq_some.1 h₁
  obtain ⟨c, -, rfl⟩ := Option.map_eq_some_iff.1 h₂
  refine ⟨_, rfl, fun hbad => ?_⟩
  obtain ⟨k, hk, ⟨-, hclosed⟩, -⟩ := hbad rfl hconn
  exact hclosed ⟨.destroy s.mqttclient, by simp [clientAt, call], hk⟩

/-- Over a library that connects valid handles only, a flag of 1 means a
usable handle whenever the lock is free, and every message is published on a
live one, in every run in which `pthread_cond_wait` returns with the flag down
only. A return with the flag up is always the end of it: three statements of
the client thread later the lock is free and the handle in `mqttclient` has
been destroyed under the flag. -/
theorem conn_usable_unless_early_return (L P : Type) [DecidableEq L] [DecidableEq P]
    (clientid : String) :
    (∀ ls, Meets ConnectsValid step (init L P clientid) ls →
      Meets ReturnsDown step (init L P clientid) ls →
      Along ConnUsable step (init L P clientid) ls ∧
      Along (fun s => Trace.Always PublishLive s.calls) step (init L P clientid) ls) ∧
    (∀ (s s' : Mqtt L P) rc, Reachable step (init L P clientid) s →
      s.client = .blocked → ¬ ReturnsDown s (.client rc) → step s (.client rc) = some s' →
      ∃ s'', Run step s' (List.replicate 3 (.client 0)) s'' ∧ ¬ s''.ConnUsable) := by
  refine ⟨fun ls hvalid hdown => ?_, fun s s' rc _ hpc hreturns hs => ?_⟩
  · have hmeets : Meets (fun s l => ConnectsValid s l ∧ ReturnsDown s l) step
        (init L P clientid) ls :=
      fun pre l post s' hsplit hpre =>
        ⟨hvalid pre l post s' hsplit hpre, hdown pre l post s' hsplit hpre⟩
    have halong : Along UpInv step (init L P clientid) ls :=
      Along.of_meets (fun s l s' h hgood hs => h.step hgood.1 hgood.2 hs) hmeets upInv_init
    exact ⟨halong.mono fun s h _ hconn => h.usable_of_conn hconn,
      halong.mono fun s h => h.published⟩
  · simp only [ReturnsDown, hpc, true_implies, ne_eq, Decidable.not_not] at hreturns
    exact broken_after_early_return hpc hreturns hs

/-- The connection is lost once, after a message, and the thread connects
again. -/
def publishAndLose : List (Label Unit Unit) :=
  connectAndPublish ++ [.callConnlost ()] ++ List.replicate 4 (.connlost ()) ++
    List.replicate 11 (.client 0)

theorem conn_usable_after_loss :
    ∃ s : Mqtt Unit Unit, Run step (init Unit Unit "1") publishAndLose s ∧
      Along ConnUsable step (init Unit Unit "1") publishAndLose :=
  ⟨_, run_get (by decide),
    ((conn_usable_unless_early_return Unit Unit "1").1 publishAndLose (by decide)
      (by decide)).1⟩

/-- The thread connects, sleeps, wakes with no signal and takes the handle
down. -/
def wokenEarly : List (Label Unit Unit) :=
  List.replicate 8 (.client 0) ++ [.spurious] ++ List.replicate 4 (.client 0)

theorem conn_up_on_destroyed :
    ∃ s : Mqtt Unit Unit, Run step (init Unit Unit "1") wokenEarly s ∧
      Meets ConnectsValid step (init Unit Unit "1") wokenEarly ∧
      s.mutex.owner = none ∧ s.conn = 1 ∧
      s.mqttclient = some 0 ∧ mqttLedger.Closed s.calls 0 :=
  ⟨_, run_get (by decide), by decide, rfl, rfl, rfl, .destroy (some 0), by decide, rfl⟩

/-! ## No loss slept through -/

/-- The client thread sleeps on the condition variable and nothing has woken
it. -/
def Asleep (s : Mqtt L P) : Prop := s.client = .blocked ∧ () ∈ s.cond.asleep

/-- The thread falls asleep with the flag up; and if the flag goes down over a
sleeping thread, a `connlost` is about to signal. -/
structure SleepInv (s : Mqtt L P) : Prop extends HeldInv s where
  toSleep : s.client = .subscribe ∨ s.client = .wait → s.conn = 1
  asleep : () ∈ s.cond.asleep → s.conn = 1 ∨ ∃ l, s.connlost l = .signal
  cleared : ∀ l, s.connlost l = .signal → s.conn = 0

theorem sleepInv_init {clientid : String} : SleepInv (init L P clientid) :=
  ⟨heldInv_init, fun h => by simp [init] at h, fun h => by simp [init, CondVar.empty] at h,
    fun l h => (by cases h)⟩

theorem Waiting.awake (h : Waiting s) (hpc : s.client ≠ .blocked) :
    () ∉ s.cond.asleep :=
  fun hasleep => hpc (h.1 (Or.inl hasleep))

theorem HeldInv.apart {l : L} (h : HeldInv s) (hclient : 0 < s.client.left)
    (hconnlost : 0 < (s.connlost l).left) : False := by
  have hown : s.mutex.owner = some .client := h.held .client hclient
  rw [h.held (.connlost l) hconnlost] at hown
  cases hown

/-- What a statement of the client thread does to the flag, and to the
sleepers. -/
theorem clientStep_flag {rc : Int} (hs : s.clientStep rc = some s') :
    (s.client = .connected ∧ s'.conn = 1 ∨ s'.conn = s.conn ∨ s'.conn = 0) ∧
    (s.client = .wait ∧ s'.conn = s.conn ∨ s'.cond.asleep = s.cond.asleep) := by
  unfold Mqtt.clientStep at hs
  split at hs
  case h_2 hpc | h_13 hpc =>
    obtain ⟨s₁, h₁, rfl⟩ := Option.map_eq_some_iff.1 hs
    first
      | obtain ⟨-, rfl⟩ := lockMutex_eq_some.1 h₁
      | obtain ⟨-, rfl⟩ := unlockMutex_eq_some.1 h₁
    exact ⟨Or.inr (Or.inl rfl), Or.inr rfl⟩
  case h_1 hpc | h_6 hpc =>
    cases hs
    exact ⟨Or.inr (Or.inr rfl), Or.inr rfl⟩
  case h_7 hpc =>
    cases hs
    exact ⟨Or.inl ⟨hpc, rfl⟩, Or.inr rfl⟩
  case h_9 hpc =>
    obtain ⟨-, rfl⟩ := unlock_then hs
    exact ⟨Or.inr (Or.inl rfl), Or.inl ⟨hpc, rfl⟩⟩
  case h_10 hpc =>
    obtain ⟨s₁, h₁, h₂⟩ := Option.bind_eq_some_iff.1 hs
    obtain ⟨-, rfl⟩ := lockMutex_eq_some.1 h₁
    obtain ⟨c, hc, rfl⟩ := Option.map_eq_some_iff.1 h₂
    exact ⟨Or.inr (Or.inl rfl), Or.inr (CondVar.resume_eq_some.1 hc).2.1⟩
  all_goals
    cases hs
    exact ⟨Or.inr (Or.inl rfl), Or.inr rfl⟩

theorem clientStep_toSleep {rc : Int} (hs : s.clientStep rc = some s')
    (hto : s'.client = .subscribe ∨ s'.client = .wait) :
    s.client = .connected ∧ s'.conn = 1 ∨ s.client = .subscribe ∧ s'.conn = s.conn := by
  unfold Mqtt.clientStep at hs
  split at hs
  case h_7 hpc => cases hs; exact Or.inl ⟨hpc, rfl⟩
  case h_8 hpc => cases hs; exact Or.inr ⟨hpc, rfl⟩
  case h_5 hpc =>
    cases hs
    simp only [clientAt] at hto
    split at hto <;> simp at hto
  case h_2 hpc | h_9 hpc | h_13 hpc =>
    obtain ⟨s₁, -, rfl⟩ := Option.map_eq_some_iff.1 hs
    simp [clientAt] at hto
  case h_10 hpc =>
    obtain ⟨s₁, -, h₂⟩ := Option.bind_eq_some_iff.1 hs
    obtain ⟨c, -, rfl⟩ := Option.map_eq_some_iff.1 h₂
    simp [clientAt] at hto
  all_goals
    cases hs
    simp [clientAt] at hto

theorem SleepInv.clientStep {rc : Int} (h : SleepInv s) (hheld : HeldInv s')
    (hs : s.clientStep rc = some s') : SleepInv s' := by
  obtain ⟨hconn, hcond⟩ := clientStep_flag hs
  refine ⟨hheld, fun hto => ?_, fun hasleep => ?_, fun l hl => ?_⟩
  · rcases clientStep_toSleep hs hto with ⟨-, hone⟩ | ⟨hpc, hsame⟩
    · exact hone
    · rw [hsame]
      exact h.toSleep (Or.inl hpc)
  · rcases hcond with ⟨hpc, hsame⟩ | hsame
    · rw [hsame]
      exact Or.inl (h.toSleep (Or.inr hpc))
    · -- a sleeping thread takes no statement
      have hpc : s.client = .blocked := h.waiting.1 (Or.inl (hsame ▸ hasleep))
      simp only [Mqtt.clientStep, hpc] at hs
      obtain ⟨s₁, -, h₂⟩ := Option.bind_eq_some_iff.1 hs
      obtain ⟨c, -, rfl⟩ := Option.map_eq_some_iff.1 h₂
      exact absurd hasleep (hheld.waiting.awake (by simp [clientAt]))
  · rw [(clientStep_move hs).2.1] at hl
    rcases hconn with ⟨hpc, -⟩ | hsame | hzero
    · exact (h.apart (by rw [hpc]; decide) (by rw [hl]; decide)).elim
    · rw [hsame]
      exact h.cleared l hl
    · exact hzero

/-- A step that leaves the flag alone, puts nobody to sleep, and neither ends
nor begins a signal. -/
theorem SleepInv.quiet (h : SleepInv s) (hheld : HeldInv s') (hclient : s'.client = s.client)
    (hconn : s'.conn = s.conn) (hcond : s'.cond.asleep ⊆ s.cond.asleep)
    (hsignal : ∀ k, s'.connlost k = .signal ↔ s.connlost k = .signal) : SleepInv s' := by
  refine ⟨hheld, fun hto => ?_, fun hasleep => ?_, fun k hk => ?_⟩ <;> rw [hconn]
  · rw [hclient] at hto
    exact h.toSleep hto
  · exact (h.asleep (hcond hasleep)).imp_right fun ⟨k, hk⟩ => ⟨k, (hsignal k).2 hk⟩
  · exact h.cleared k ((hsignal k).1 hk)

/-- The signals of the other threads, when one moves between two statements
that are no signal. -/
theorem signal_connlostAt {l k : L} {pc : ConnlostPc} (hbefore : s.connlost l ≠ .signal)
    (hafter : pc ≠ .signal) :
    (s.connlostAt l pc).connlost k = .signal ↔ s.connlost k = .signal := by
  by_cases hkl : k = l
  · subst hkl
    simp [connlostAt, hbefore, hafter]
  · simp [connlostAt, Function.update_of_ne hkl]

theorem SleepInv.connlostStep {l : L} (h : SleepInv s) (hheld : HeldInv s')
    (hs : s.connlostStep l = some s') : SleepInv s' := by
  unfold Mqtt.connlostStep at hs
  split at hs
  next => cases hs
  next hpc =>
    obtain ⟨-, rfl⟩ := lock_then hs
    exact h.quiet hheld rfl rfl (Finset.Subset.refl _)
      fun k => signal_connlostAt (by simp [hpc]) (by simp)
  next hpc =>
    cases hs
    refine ⟨hheld, fun hto => ?_, fun _ => Or.inr ⟨l, Function.update_self l _ _⟩,
      fun _ _ => rfl⟩
    have hleft : 0 < s.client.left := by
      rcases hto with hto | hto <;> rw [show s.client = _ from hto] <;> decide
    exact (h.apart hleft (by rw [hpc]; decide)).elim
  next hpc =>
    obtain ⟨c, hc, rfl⟩ := Option.map_eq_some_iff.1 hs
    obtain ⟨-, rfl⟩ := CondVar.signal_eq_some.1 hc
    exact ⟨hheld, h.toSleep, fun hasleep => by simp [connlostAt] at hasleep,
      fun _ _ => h.cleared l hpc⟩
  next hpc =>
    obtain ⟨-, rfl⟩ := unlock_then hs
    exact h.quiet hheld rfl rfl (Finset.Subset.refl _)
      fun k => signal_connlostAt (by simp [hpc]) (by simp)

theorem SleepInv.step (h : SleepInv s) (hs : step s l = some s') : SleepInv s' := by
  have hheld : HeldInv s' := h.toHeldInv.step hs
  cases l with
  | client rc => exact h.clientStep hheld hs
  | connlost l => exact h.connlostStep hheld hs
  | pubmsg p ans =>
      obtain ⟨hcond, hclient⟩ := pubmsgStep_wait hs
      obtain ⟨hconn, -, hconnlost, -⟩ := pubmsgStep_frame hs
      exact h.quiet hheld hclient hconn (by rw [hcond]) fun k => by rw [hconnlost]
  | callConnlost l =>
      simp only [Mqtt.step, Option.ite_none_right_eq_some, Option.some.injEq] at hs
      obtain ⟨hidle, rfl⟩ := hs
      exact h.quiet hheld rfl rfl (Finset.Subset.refl _)
        fun k => signal_connlostAt (by simp [hidle]) (by simp)
  | callPubmsg p msg =>
      simp only [Mqtt.step, Option.ite_none_right_eq_some, Option.some.injEq] at hs
      obtain ⟨-, rfl⟩ := hs
      exact h.quiet hheld rfl rfl (Finset.Subset.refl _) fun k => Iff.rfl
  | spurious =>
      obtain ⟨c, hc, rfl⟩ := Option.map_eq_some_iff.1 hs
      obtain ⟨-, rfl⟩ := CondVar.spurious_eq_some.1 hc
      exact h.quiet hheld rfl rfl Finset.sdiff_subset fun k => Iff.rfl

theorem sleepInv_reachable {clientid : String}
    (h : Reachable step (init L P clientid) s) : SleepInv s :=
  h.invariant sleepInv_init fun _ _ _ hi hs => hi.step hs

/-- The next statement of the client thread is `mqttcd.conn = 1`. -/
def Connects (s : Mqtt L P) : Label L P → Prop
  | .client _ => s.client = .connected
  | _ => False

/-- The flag is down and nobody sleeps. -/
structure DownInv (s : Mqtt L P) : Prop extends SleepInv s where
  conn : s.conn = 0
  awake : () ∉ s.cond.asleep

/-- What a step does to the flag and the sleepers, if it is not the one that
raises the flag. -/
theorem step_down (hl : ¬ Connects s l) (hs : step s l = some s') :
    (s'.conn = s.conn ∨ s'.conn = 0) ∧
    (s.client = .wait ∨ s'.cond.asleep ⊆ s.cond.asleep) := by
  cases l with
  | client rc =>
      obtain ⟨hconn, hcond⟩ := clientStep_flag hs
      refine ⟨hconn.resolve_left fun hc => hl hc.1, ?_⟩
      exact hcond.imp And.left fun hsame => by rw [hsame]
  | connlost l =>
      obtain ⟨-, -, hcond, hconn⟩ := connlostStep_frame hs
      exact ⟨hconn.imp_right And.right, Or.inr hcond⟩
  | pubmsg p ans =>
      obtain ⟨hconn, -⟩ := pubmsgStep_frame hs
      obtain ⟨hcond, -⟩ := pubmsgStep_wait hs
      exact ⟨Or.inl hconn, Or.inr (by rw [hcond])⟩
  | callConnlost l | callPubmsg p msg =>
      simp only [Mqtt.step, Option.ite_none_right_eq_some, Option.some.injEq] at hs
      obtain ⟨-, rfl⟩ := hs
      exact ⟨Or.inl rfl, Or.inr (Finset.Subset.refl _)⟩
  | spurious =>
      obtain ⟨c, hc, rfl⟩ := Option.map_eq_some_iff.1 hs
      obtain ⟨-, rfl⟩ := CondVar.spurious_eq_some.1 hc
      exact ⟨Or.inl rfl, Or.inr Finset.sdiff_subset⟩

theorem DownInv.step (h : DownInv s) (hl : ¬ Connects s l) (hs : step s l = some s') :
    DownInv s' := by
  obtain ⟨hconn, hcond⟩ := step_down hl hs
  refine ⟨h.toSleepInv.step hs, ?_, ?_⟩
  · rcases hconn with hconn | hconn
    · rw [hconn]
      exact h.conn
    · exact hconn
  · rcases hcond with hpc | hcond
    · have hone : s.conn = 1 := h.toSleep (Or.inr hpc)
      rw [h.conn] at hone
      cases hone
    · exact fun hasleep => h.awake (hcond hasleep)

theorem SleepInv.signalled {l : L} (h : SleepInv s) (hpc : s.connlost l = .signal)
    (hs : Mqtt.step s (.connlost l) = some s') : DownInv s' := by
  have hsleep : SleepInv s' := h.step hs
  simp only [Mqtt.step, Mqtt.connlostStep, hpc] at hs
  obtain ⟨c, hc, rfl⟩ := Option.map_eq_some_iff.1 hs
  obtain ⟨-, rfl⟩ := CondVar.signal_eq_some.1 hc
  exact ⟨hsleep, h.cleared l hpc, by simp [connlostAt]⟩

/-- In every reachable state in which the client thread sleeps and nothing has
woken it, the flag is up, or a `connlost` that owns the lock has just lowered
it and is about to signal. And from the signal of a `connlost` on, the thread
does not sleep before it has executed `mqttcd.conn = 1` again. -/
theorem no_loss_slept_through (L P : Type) [DecidableEq L] [DecidableEq P]
    (clientid : String) :
    (∀ s : Mqtt L P, Reachable step (init L P clientid) s → s.Asleep →
      s.conn = 1 ∨ ∃ l, s.connlost l = .signal ∧ s.mutex.owner = some (.connlost l)) ∧
    (∀ (s s₁ s' : Mqtt L P) l ls, Reachable step (init L P clientid) s →
      s.connlost l = .signal → step s (.connlost l) = some s₁ → Run step s₁ ls s' →
      s'.Asleep → ∃ pre l post t, ls = pre ++ l :: post ∧ Run step s₁ pre t ∧
        Connects t l) := by
  refine ⟨fun s hreach hasleep => ?_, fun s s₁ s' l ls hreach hpc hs hrun hasleep => ?_⟩
  · have h := sleepInv_reachable hreach
    refine (h.asleep hasleep.2).imp_right fun ⟨l, hl⟩ => ⟨l, hl, ?_⟩
    exact h.held (.connlost l) (by rw [left_connlost, hl]; decide)
  · have hdown : DownInv s₁ := (sleepInv_reachable hreach).signalled hpc hs
    refine not_meets.1 fun hmeets => ?_
    have hdown' : DownInv s' :=
      hrun.invariant_of_meets (fun s l s' h hl hs => h.step hl hs) hmeets hdown
    exact hdown'.awake hasleep.2

/-- The client connects and sleeps, and a `connlost` comes as far as its signal. -/
def untilSignal : List (Label Unit Unit) :=
  List.replicate 8 (.client 0) ++ [.callConnlost (), .connlost (), .connlost ()]

/-- The `connlost` returns, and the client connects and sleeps again. -/
def untilAsleep : List (Label Unit Unit) := .connlost () :: List.replicate 11 (.client 0)

theorem no_loss_slept_through_asleep :
    ∃ s s₁ s' : Mqtt Unit Unit, Run step (init Unit Unit "1") untilSignal s ∧ s.Asleep ∧
      (s.conn = 1 ∨ ∃ l, s.connlost l = .signal ∧ s.mutex.owner = some (.connlost l)) ∧
      step s (.connlost ()) = some s₁ ∧ Run step s₁ untilAsleep s' ∧ s'.Asleep ∧
      ∃ pre l post t, untilAsleep = pre ++ l :: post ∧ Run step s₁ pre t ∧ Connects t l := by
  have heval : (untilSignal.foldlM step (init Unit Unit "1")).bind (fun s =>
      (step s (.connlost ())).bind fun s₁ => (untilAsleep.foldlM step s₁).map fun s' =>
        ((s.client, decide (() ∈ s.cond.asleep), s.connlost ()),
          (s'.client, decide (() ∈ s'.cond.asleep)))) =
      some ((.blocked, true, .signal), (.blocked, true)) := rfl
  obtain ⟨s, hrun, heval⟩ := Option.bind_eq_some_iff.1 heval
  obtain ⟨s₁, hsignal, heval⟩ := Option.bind_eq_some_iff.1 heval
  obtain ⟨s', hagain, heval⟩ := Option.map_eq_some_iff.1 heval
  simp only [Prod.mk.injEq, decide_eq_true_eq] at heval
  obtain ⟨⟨hclient, hsleeps, hpc⟩, hclient', hsleeps'⟩ := heval
  obtain ⟨hup, hconnects⟩ := no_loss_slept_through Unit Unit "1"
  exact ⟨s, s₁, s', hrun, ⟨hclient, hsleeps⟩, hup s ⟨_, hrun⟩ ⟨hclient, hsleeps⟩, hsignal, hagain,
    ⟨hclient', hsleeps'⟩,
    hconnects s s₁ s' () untilAsleep ⟨_, hrun⟩ hpc hsignal hagain ⟨hclient', hsleeps'⟩⟩

/-- A `connlost` between its assignment and its signal. -/
theorem asleep_with_flag_down :
    ∃ s : Mqtt Unit Unit, Reachable step (init Unit Unit "1") s ∧ s.Asleep ∧ s.conn = 0 :=
  ⟨_, ⟨untilSignal, run_get (by decide)⟩, ⟨rfl, by decide⟩, rfl⟩

end Mqtt

end IotCamera
