import IotCamera.Lib.Critical
import IotCamera.Mqtt.Client

/-!
# Who holds the MQTT lock

Three routines take `mqttcMutex`, and all but one of their paths give it
back. `left` counts the statements a thread still has before it gives the
lock up, and every step of the model is one of the four moves of
`Lib/Critical.lean`, but for one: the test of `pubmsg` that finds the
connection down, after which `pubmsg` returns with the lock.

So the discipline holds exactly along the runs in which no `pubmsg` makes its
test while the connection is down. In those the lock is owned only by a
thread inside one of the routines, that thread can always go on, and it gives
the lock up within seven statements of its own. And a lock that is left
behind is left behind for good.
-/

namespace IotCamera

open Lts Critical

/-- Statements until the client thread gives the lock up. -/
def ClientPc.left : ClientPc → Nat
  | .start | .lock | .blocked => 0
  | .create => 7
  | .setCallbacks => 6
  | .connect => 5
  | .connFailed => 4
  | .connected | .disconnect => 3
  | .subscribe | .destroy => 2
  | .wait | .unlock => 1

def ConnlostPc.left : ConnlostPc → Nat
  | .idle | .lock => 0
  | .clearConn => 3
  | .signal => 2
  | .unlock => 1

def PubmsgPc.left : PubmsgPc → Nat
  | .idle | .lock => 0
  | .test => 4
  | .publishMessage => 3
  | .waitForCompletion => 2
  | .unlock => 1

namespace Mqtt

variable {L P : Type} [DecidableEq L] [DecidableEq P] {s s' : Mqtt L P}
  {t : MqttThread L P} {l : Label L P}

def left (s : Mqtt L P) : MqttThread L P → Nat
  | .client => s.client.left
  | .connlost l => (s.connlost l).left
  | .pubmsg p => (s.pubmsg p).left

/-- The thread is inside one of the three routines. -/
def Inside (s : Mqtt L P) : MqttThread L P → Prop
  | .client => True
  | .connlost l => s.connlost l ≠ .idle
  | .pubmsg p => s.pubmsg p ≠ .idle

/-- The lock is owned by nobody, or by a thread inside one of the
routines. -/
def LockInside (s : Mqtt L P) : Prop := ∀ t, s.mutex.owner = some t → s.Inside t

/-- A `pubmsg` that makes its test finds the connection up. -/
def Online (s : Mqtt L P) : Label L P → Prop
  | .pubmsg p _ => s.pubmsg p = .test → s.conn = 1
  | _ => True

instance Online.instDecidable (s : Mqtt L P) : ∀ l, Decidable (Online s l)
  | .pubmsg p _ => inferInstanceAs (Decidable (s.pubmsg p = .test → s.conn = 1))
  | .client _ | .callConnlost _ | .connlost _ | .callPubmsg _ _ | .spurious =>
      isTrue trivial

theorem lockMutex_eq_some : s.lockMutex t = some s' ↔
    s.mutex.owner = none ∧ s' = { s with mutex := ⟨some t⟩ } := by
  simp only [lockMutex, Option.map_eq_some_iff, Mutex.lock_eq_some]
  constructor
  · rintro ⟨m, ⟨hfree, rfl⟩, rfl⟩
    exact ⟨hfree, rfl⟩
  · rintro ⟨hfree, rfl⟩
    exact ⟨_, ⟨hfree, rfl⟩, rfl⟩

theorem unlockMutex_eq_some : s.unlockMutex t = some s' ↔
    s.mutex.owner = some t ∧ s' = { s with mutex := .free } := by
  simp only [unlockMutex, Option.map_eq_some_iff, Mutex.unlock_eq_some]
  constructor
  · rintro ⟨m, ⟨howner, rfl⟩, rfl⟩
    exact ⟨howner, rfl⟩
  · rintro ⟨howner, rfl⟩
    exact ⟨_, ⟨howner, rfl⟩, rfl⟩

/-- A step that takes the lock and does something with it. -/
theorem lock_then {f : Mqtt L P → Mqtt L P} (h : (s.lockMutex t).map f = some s') :
    s.mutex.owner = none ∧ s' = f { s with mutex := ⟨some t⟩ } := by
  obtain ⟨s₁, h₁, rfl⟩ := Option.map_eq_some_iff.1 h
  obtain ⟨hfree, rfl⟩ := lockMutex_eq_some.1 h₁
  exact ⟨hfree, rfl⟩

/-- A step that gives it back. -/
theorem unlock_then {f : Mqtt L P → Mqtt L P} (h : (s.unlockMutex t).map f = some s') :
    s.mutex.owner = some t ∧ s' = f { s with mutex := .free } := by
  obtain ⟨s₁, h₁, rfl⟩ := Option.map_eq_some_iff.1 h
  obtain ⟨howner, rfl⟩ := unlockMutex_eq_some.1 h₁
  exact ⟨howner, rfl⟩

/-! ## The moves of the three routines -/

@[simp] theorem left_client : s.left .client = s.client.left := rfl

@[simp] theorem left_connlost (l : L) : s.left (.connlost l) = (s.connlost l).left := rfl

@[simp] theorem left_pubmsg (p : P) : s.left (.pubmsg p) = (s.pubmsg p).left := rfl

theorem clientStep_move {rc : Int} (h : s.clientStep rc = some s') :
    LockMove .client s.mutex.owner s'.mutex.owner s.left s'.left ∧
    s'.connlost = s.connlost ∧ s'.pubmsg = s.pubmsg := by
  unfold clientStep at h
  split at h
  case h_1 hpc =>
    cases h
    exact ⟨.outside rfl (by simp [hpc, ClientPc.left]) rfl, rfl, rfl⟩
  case h_2 hpc =>
    obtain ⟨hfree, rfl⟩ := lock_then h
    exact ⟨.enter hfree rfl (Nat.succ_pos _), rfl, rfl⟩
  case h_5 hpc =>
    cases h
    refine ⟨.inside rfl ?_ ?_, rfl, rfl⟩ <;> split <;>
      simp [hpc, clientAt, ClientPc.left]
  case h_9 hpc =>
    obtain ⟨howner, rfl⟩ := unlock_then h
    exact ⟨.leave howner (by simp [hpc, ClientPc.left]) rfl rfl, rfl, rfl⟩
  case h_10 hpc =>
    obtain ⟨s₁, h₁, h₂⟩ := Option.bind_eq_some_iff.1 h
    obtain ⟨hfree, rfl⟩ := lockMutex_eq_some.1 h₁
    obtain ⟨c, hc, rfl⟩ := Option.map_eq_some_iff.1 h₂
    exact ⟨.enter hfree rfl (Nat.succ_pos _), rfl, rfl⟩
  case h_13 hpc =>
    obtain ⟨howner, rfl⟩ := unlock_then h
    exact ⟨.leave howner (by simp [hpc, ClientPc.left]) rfl rfl, rfl, rfl⟩
  all_goals
    next hpc =>
      cases h
      exact ⟨.inside rfl (Nat.succ_pos _)
        (by simp [hpc, clientAt, call, ClientPc.left]), rfl, rfl⟩

theorem connlostStep_move {l : L} (h : s.connlostStep l = some s') :
    LockMove (.connlost l) s.mutex.owner s'.mutex.owner s.left s'.left ∧
    s'.client = s.client ∧ (∀ k, k ≠ l → s'.connlost k = s.connlost k) ∧
    s'.pubmsg = s.pubmsg := by
  unfold connlostStep at h
  split at h
  next => cases h
  next hpc =>
    obtain ⟨hfree, rfl⟩ := lock_then h
    exact ⟨.enter hfree rfl (by simp [connlostAt, ConnlostPc.left]), rfl,
      fun k hk => Function.update_of_ne hk _ _, rfl⟩
  next hpc =>
    cases h
    refine ⟨.inside rfl ?_ ?_, rfl, fun k hk => Function.update_of_ne hk _ _, rfl⟩ <;>
      simp [hpc, connlostAt, ConnlostPc.left]
  next hpc =>
    obtain ⟨c, hc, rfl⟩ := Option.map_eq_some_iff.1 h
    refine ⟨.inside rfl ?_ ?_, rfl, fun k hk => Function.update_of_ne hk _ _, rfl⟩ <;>
      simp [hpc, connlostAt, ConnlostPc.left]
  next hpc =>
    obtain ⟨howner, rfl⟩ := unlock_then h
    exact ⟨.leave howner (by simp [hpc, ConnlostPc.left]) rfl
      (by simp [connlostAt, ConnlostPc.left]), rfl, fun k hk => Function.update_of_ne hk _ _, rfl⟩

/-- A step of a thread in `pubmsg`, the test with the connection down
excepted. -/
theorem pubmsgStep_move {p : P} {ans : Int} (hon : s.pubmsg p = .test → s.conn = 1)
    (h : s.pubmsgStep p ans = some s') :
    LockMove (.pubmsg p) s.mutex.owner s'.mutex.owner s.left s'.left ∧
    s'.client = s.client ∧ s'.connlost = s.connlost ∧
    ∀ q, q ≠ p → s'.pubmsg q = s.pubmsg q := by
  unfold pubmsgStep at h
  split at h
  next => cases h
  next hpc =>
    obtain ⟨hfree, rfl⟩ := lock_then h
    exact ⟨.enter hfree rfl (by simp [pubmsgAt, PubmsgPc.left]), rfl, rfl,
      fun k hk => Function.update_of_ne hk _ _⟩
  next hpc =>
    cases h
    rw [if_pos (hon hpc)]
    refine ⟨.inside rfl ?_ ?_, rfl, rfl, fun k hk => Function.update_of_ne hk _ _⟩ <;>
      simp [hpc, pubmsgAt, PubmsgPc.left]
  next hpc =>
    cases h
    refine ⟨.inside rfl ?_ ?_, rfl, rfl, fun k hk => Function.update_of_ne hk _ _⟩ <;>
      simp [hpc, pubmsgAt, PubmsgPc.left]
  next hpc =>
    cases h
    refine ⟨.inside rfl ?_ ?_, rfl, rfl, fun k hk => Function.update_of_ne hk _ _⟩ <;>
      simp [hpc, pubmsgAt, PubmsgPc.left]
  next hpc =>
    obtain ⟨howner, rfl⟩ := unlock_then h
    exact ⟨.leave howner (by simp [hpc, PubmsgPc.left]) rfl
      (by simp [pubmsgAt, PubmsgPc.left]), rfl, rfl, fun k hk => Function.update_of_ne hk _ _⟩

/-! ## The condition variable -/

/-- The condition variable knows the client thread exactly while it is inside
its wait. -/
def Waiting (s : Mqtt L P) : Prop := s.cond.Waits () ↔ s.client = .blocked

theorem waiting_init {clientid : String} : Waiting (init L P clientid) :=
  iff_of_false CondVar.not_waits_empty nofun

theorem Waiting.congr (h : Waiting s) (hcond : s'.cond.Waits () ↔ s.cond.Waits ())
    (hclient : s'.client = s.client) : Waiting s' := by
  rw [Waiting, hcond, hclient]
  exact h

/-- The client thread is not inside its wait, before or after. -/
theorem Waiting.outside (h : Waiting s) (hcond : s'.cond = s.cond)
    (hbefore : s.client ≠ .blocked) (hafter : s'.client ≠ .blocked) : Waiting s' := by
  rw [Waiting, hcond]
  exact iff_of_false (fun hin => hbefore (h.1 hin)) hafter

theorem Waiting.clientStep {rc : Int} (hw : Waiting s) (h : s.clientStep rc = some s') :
    Waiting s' := by
  unfold Mqtt.clientStep at h
  split at h
  case h_2 hpc | h_13 hpc =>
    obtain ⟨s₁, h₁, rfl⟩ := Option.map_eq_some_iff.1 h
    first
      | obtain ⟨-, rfl⟩ := lockMutex_eq_some.1 h₁
      | obtain ⟨-, rfl⟩ := unlockMutex_eq_some.1 h₁
    exact hw.outside rfl (by rw [hpc]; nofun) nofun
  case h_5 hpc =>
    cases h
    exact hw.outside rfl (by rw [hpc]; nofun) (by simp only [clientAt]; split <;> nofun)
  case h_9 hpc =>
    obtain ⟨-, rfl⟩ := unlock_then h
    exact iff_of_true (CondVar.waits_sleep.2 (Or.inl rfl)) rfl
  case h_10 hpc =>
    obtain ⟨s₁, h₁, h₂⟩ := Option.bind_eq_some_iff.1 h
    obtain ⟨-, rfl⟩ := lockMutex_eq_some.1 h₁
    obtain ⟨c, hc, rfl⟩ := Option.map_eq_some_iff.1 h₂
    exact iff_of_false (fun hin => ((CondVar.waits_resume hc).1 hin).2 rfl) nofun
  all_goals
    next hpc =>
      cases h
      exact hw.outside rfl (by rw [hpc]; nofun) nofun

theorem Waiting.connlostStep {l : L} (hw : Waiting s) (h : s.connlostStep l = some s') :
    Waiting s' := by
  have hclient : s'.client = s.client := (connlostStep_move h).2.1
  refine hw.congr ?_ hclient
  unfold Mqtt.connlostStep at h
  split at h
  next => cases h
  next =>
    obtain ⟨-, rfl⟩ := lock_then h
    exact Iff.rfl
  next => cases h; exact Iff.rfl
  next =>
    obtain ⟨c, hc, rfl⟩ := Option.map_eq_some_iff.1 h
    obtain ⟨-, rfl⟩ := CondVar.signal_eq_some.1 hc
    exact CondVar.waits_wake
  next =>
    obtain ⟨-, rfl⟩ := unlock_then h
    exact Iff.rfl

theorem pubmsgStep_wait {p : P} {ans : Int} (h : s.pubmsgStep p ans = some s') :
    s'.cond = s.cond ∧ s'.client = s.client := by
  unfold pubmsgStep at h
  split at h
  next => cases h
  next =>
    obtain ⟨-, rfl⟩ := lock_then h
    exact ⟨rfl, rfl⟩
  next => cases h; exact ⟨rfl, rfl⟩
  next => cases h; exact ⟨rfl, rfl⟩
  next => cases h; exact ⟨rfl, rfl⟩
  next =>
    obtain ⟨-, rfl⟩ := unlock_then h
    exact ⟨rfl, rfl⟩

theorem Waiting.step (hw : Waiting s) (h : step s l = some s') : Waiting s' := by
  cases l with
  | client rc => exact hw.clientStep h
  | connlost l => exact hw.connlostStep h
  | pubmsg p ans =>
      obtain ⟨hcond, hclient⟩ := pubmsgStep_wait h
      exact hw.congr (by rw [hcond]) hclient
  | callConnlost l | callPubmsg p msg =>
      simp only [Mqtt.step, Option.ite_none_right_eq_some, Option.some.injEq] at h
      obtain ⟨-, rfl⟩ := h
      exact hw.congr Iff.rfl rfl
  | spurious =>
      obtain ⟨c, hc, rfl⟩ := Option.map_eq_some_iff.1 h
      obtain ⟨-, rfl⟩ := CondVar.spurious_eq_some.1 hc
      exact hw.congr CondVar.waits_wake rfl

/-! ## Every step -/

theorem step_move (hw : Waiting s) (hon : Online s l) (h : step s l = some s') :
    LockMove l.thread s.mutex.owner s'.mutex.owner s.left s'.left ∧
    ∀ u, u ≠ l.thread → s'.left u = s.left u := by
  cases l with
  | client rc =>
      obtain ⟨hm, hconnlost, hpubmsg⟩ := clientStep_move h
      refine ⟨hm, fun u hu => ?_⟩
      cases u with
      | client => exact absurd rfl hu
      | connlost k => simp [hconnlost]
      | pubmsg q => simp [hpubmsg]
  | connlost l =>
      obtain ⟨hm, hclient, hconnlost, hpubmsg⟩ := connlostStep_move h
      refine ⟨hm, fun u hu => ?_⟩
      cases u with
      | client => simp [hclient]
      | connlost k => simp [hconnlost k fun hk => hu (by rw [hk]; rfl)]
      | pubmsg q => simp [hpubmsg]
  | pubmsg p ans =>
      obtain ⟨hm, hclient, hconnlost, hpubmsg⟩ := pubmsgStep_move hon h
      refine ⟨hm, fun u hu => ?_⟩
      cases u with
      | client => simp [hclient]
      | connlost k => simp [hconnlost]
      | pubmsg q => simp [hpubmsg q fun hq => hu (by rw [hq]; rfl)]
  | callConnlost l =>
      simp only [step, Option.ite_none_right_eq_some, Option.some.injEq] at h
      obtain ⟨hpc, rfl⟩ := h
      refine ⟨.outside rfl (by simp [Label.thread, hpc, ConnlostPc.left])
        (by simp [Label.thread, connlostAt, ConnlostPc.left]), fun u hu => ?_⟩
      cases u with
      | client | pubmsg q => rfl
      | connlost k =>
          have hk : k ≠ l := fun hk => hu (by rw [hk]; rfl)
          simp [connlostAt, Function.update_of_ne hk]
  | callPubmsg p msg =>
      simp only [step, Option.ite_none_right_eq_some, Option.some.injEq] at h
      obtain ⟨hpc, rfl⟩ := h
      refine ⟨.outside rfl (by simp [Label.thread, hpc, PubmsgPc.left])
        (by simp [Label.thread, pubmsgAt, PubmsgPc.left]), fun u hu => ?_⟩
      cases u with
      | client | connlost k => rfl
      | pubmsg q =>
          have hq : q ≠ p := fun hq => hu (by rw [hq]; rfl)
          simp [pubmsgAt, Function.update_of_ne hq]
  | spurious =>
      obtain ⟨c, hc, rfl⟩ := Option.map_eq_some_iff.1 h
      obtain ⟨hasleep, -⟩ := CondVar.spurious_eq_some.1 hc
      have hblocked : s.client = .blocked := hw.1 (Or.inl hasleep)
      exact ⟨.outside rfl (by simp [Label.thread, hblocked, ClientPc.left])
        (by simp [Label.thread, hblocked, ClientPc.left]), fun u _ => rfl⟩

/-- The one step that is not: the test is made, the connection is down, and
`pubmsg` returns. -/
theorem step_offline (hon : ¬ Online s l) (h : step s l = some s') :
    ∃ p, s.pubmsg p = .test ∧ s' = s.pubmsgAt p .idle := by
  cases l with
  | pubmsg p ans =>
      simp only [Online, Classical.not_imp] at hon
      obtain ⟨hpc, hconn⟩ := hon
      simp only [step, pubmsgStep, hpc, if_neg hconn, Option.some.injEq] at h
      exact ⟨p, hpc, h.symm⟩
  | client rc | callConnlost l | connlost l | callPubmsg p msg | spurious =>
      exact absurd trivial hon

/-- A thread between its lock and its unlock owns the lock, in every run. -/
structure HeldInv (s : Mqtt L P) : Prop where
  waiting : Waiting s
  held : Held s.mutex.owner s.left

theorem heldInv_init {clientid : String} : HeldInv (init L P clientid) :=
  ⟨waiting_init, fun t ht => by cases t <;> cases ht⟩

theorem HeldInv.step (h : HeldInv s) (hs : step s l = some s') : HeldInv s' := by
  refine ⟨h.waiting.step hs, ?_⟩
  by_cases hon : Online s l
  · obtain ⟨hm, hothers⟩ := step_move h.waiting hon hs
    exact h.held.move hm hothers
  · obtain ⟨p, hpc, rfl⟩ := step_offline hon hs
    intro u hu
    refine h.held u ?_
    cases u with
    | client | connlost k => exact hu
    | pubmsg q =>
        by_cases hq : q = p
        · subst hq
          simp [pubmsgAt, PubmsgPc.left] at hu
        · simpa [pubmsgAt, Function.update_of_ne hq] using hu

theorem heldInv_reachable {clientid : String}
    (h : Reachable step (init L P clientid) s) : HeldInv s :=
  h.invariant heldInv_init fun _ _ _ hi hs => hi.step hs

/-! ## The discipline -/

theorem exact_of_online {clientid : String} {ls : List (Label L P)}
    (hon : Meets Online step (init L P clientid) ls) :
    Along (fun s => HeldInv s ∧ Exact s.mutex.owner s.left) step
      (init L P clientid) ls := by
  refine Along.of_meets ?_ hon ⟨heldInv_init, fun t => ?_⟩
  · rintro s l s' ⟨hheld, hexact⟩ hon hs
    obtain ⟨hm, hothers⟩ := step_move hheld.waiting hon hs
    exact ⟨hheld.step hs, hexact.move hm hothers⟩
  · cases t <;> exact iff_of_false nofun (Nat.lt_irrefl 0)

theorem lockInside_of_exact (h : Exact s.mutex.owner s.left) : LockInside s := by
  intro t ht
  have hleft : 0 < s.left t := (h t).1 ht
  cases t with
  | client => trivial
  | connlost l =>
      intro hpc
      rw [left_connlost, hpc] at hleft
      exact Nat.lt_irrefl 0 hleft
  | pubmsg p =>
      intro hpc
      rw [left_pubmsg, hpc] at hleft
      exact Nat.lt_irrefl 0 hleft

/-- The next statement of a thread. -/
def Label.turn : MqttThread L P → Int → Label L P
  | .client, rc => .client rc
  | .connlost l, _ => .connlost l
  | .pubmsg p, ans => .pubmsg p ans

/-- The owner can always take its next statement, whatever the library
answers. -/
theorem owner_enabled (hexact : Exact s.mutex.owner s.left)
    (howner : s.mutex.owner = some t) (ans : Int) :
    (step s (Label.turn t ans)).isSome := by
  have hleft : 0 < s.left t := (hexact t).1 howner
  cases t with
  | client =>
      rw [left_client] at hleft
      cases hpc : s.client with
      | start | lock | blocked => rw [hpc] at hleft; exact absurd hleft (Nat.lt_irrefl 0)
      | wait | unlock =>
          simp [step, Label.turn, clientStep, hpc, unlockMutex, Mutex.unlock, howner]
      | _ => simp [step, Label.turn, clientStep, hpc]
  | connlost l =>
      rw [left_connlost] at hleft
      cases hpc : s.connlost l with
      | idle | lock => rw [hpc] at hleft; exact absurd hleft (Nat.lt_irrefl 0)
      | clearConn => simp [step, Label.turn, connlostStep, hpc]
      | signal => simp [step, Label.turn, connlostStep, hpc, CondVar.signal]
      | unlock =>
          simp [step, Label.turn, connlostStep, hpc, unlockMutex, Mutex.unlock, howner]
  | pubmsg p =>
      rw [left_pubmsg] at hleft
      cases hpc : s.pubmsg p with
      | idle | lock => rw [hpc] at hleft; exact absurd hleft (Nat.lt_irrefl 0)
      | unlock =>
          simp [step, Label.turn, pubmsgStep, hpc, unlockMutex, Mutex.unlock, howner]
      | _ => simp [step, Label.turn, pubmsgStep, hpc]

theorem left_le (s : Mqtt L P) (t : MqttThread L P) : s.left t ≤ 7 := by
  cases t with
  | client => rw [left_client]; cases s.client <;> decide
  | connlost l => rw [left_connlost]; cases s.connlost l <;> decide
  | pubmsg p => rw [left_pubmsg]; cases s.pubmsg p <;> decide

theorem leaked_step (h : HeldInv s) (howner : s.mutex.owner = some t)
    (hleft : s.left t = 0) (hs : step s l = some s') :
    s'.mutex.owner = some t ∧ s'.left t = 0 := by
  by_cases hon : Online s l
  · obtain ⟨hm, hothers⟩ := step_move h.waiting hon hs
    by_cases ht : t = l.thread
    · rw [← ht] at hm
      cases hm with
      | enter hfree => rw [howner] at hfree; cases hfree
      | inside hown hin hless => omega
      | outside hown hout hout' => exact ⟨hown.trans howner, hout'⟩
      | leave hown hin => omega
    · exact ⟨owner_keeps howner ht hm, (hothers t ht).trans hleft⟩
  · -- the thread at the test is the owner, and it has statements left
    obtain ⟨p, hpc, -⟩ := step_offline hon hs
    have hp : 0 < s.left (.pubmsg p) := by rw [left_pubmsg, hpc]; decide
    have htp := h.held _ hp
    rw [howner, Option.some.injEq] at htp
    rw [← htp] at hp
    omega

theorem leaked_for_good {ls : List (Label L P)} (h : HeldInv s)
    (howner : s.mutex.owner = some t) (hleft : s.left t = 0)
    (hrun : Run step s ls s') : s'.mutex.owner = some t :=
  (hrun.invariant
    (I := fun s => HeldInv s ∧ s.mutex.owner = some t ∧ s.left t = 0)
    (fun _ _ _ hi hs => ⟨hi.1.step hs, leaked_step hi.1 hi.2.1 hi.2.2 hs⟩)
    ⟨h, howner, hleft⟩).2.1

/-- A run keeps the lock inside the three routines exactly if none of its
`pubmsg` calls makes its test while the connection is down. In such a run the
owner of the lock can always take its next statement, and once it has taken
seven the lock has been free, whatever the other threads did. In any run at
all, a lock that is owned from outside the routines is never free again. -/
theorem lock_discipline_iff (L P : Type) [DecidableEq L] [DecidableEq P]
    (clientid : String) :
    (∀ ls (s : Mqtt L P), Run step (init L P clientid) ls s →
      (Along LockInside step (init L P clientid) ls ↔
        Meets Online step (init L P clientid) ls)) ∧
    (∀ ls (s : Mqtt L P) t, Run step (init L P clientid) ls s →
      Meets Online step (init L P clientid) ls → s.mutex.owner = some t →
      (∀ ans, (step s (Label.turn t ans)).isSome) ∧
      ∀ ls' s', Run step s ls' s' → Meets Online step s ls' →
        7 ≤ ls'.countP (fun l => decide (l.thread = t)) →
        ∃ pre s'', pre <+: ls' ∧ Run step s pre s'' ∧ s''.mutex.owner = none) ∧
    (∀ (s : Mqtt L P) t, Reachable step (init L P clientid) s →
      s.mutex.owner = some t → ¬ s.Inside t →
      ∀ ls' s', Run step s ls' s' → s'.mutex.owner = some t) := by
  refine ⟨fun ls s hrun => ⟨fun h => ?_, fun hon => ?_⟩, ?_, ?_⟩
  · -- the first offline test would leave the lock with a thread that returned
    intro pre l post s₁ hsplit hpre
    refine Decidable.byContradiction fun hoff => ?_
    rw [hsplit] at hrun
    obtain ⟨t, ht, hrest⟩ := run_append.1 hrun
    obtain ⟨s₂, hs₂, -⟩ := run_cons.1 hrest
    obtain rfl := ht.unique hpre
    obtain ⟨p, hpc, rfl⟩ := step_offline hoff hs₂
    have hheld := (heldInv_reachable ⟨pre, hpre⟩).held (.pubmsg p)
      (by rw [left_pubmsg, hpc]; decide)
    refine h (pre ++ [l]) _ ⟨post, by rw [hsplit]; simp⟩ (run_snoc.2 ⟨t, hpre, hs₂⟩)
      (.pubmsg p) hheld ?_
    simp [pubmsgAt]
  · exact (exact_of_online hon).mono fun s hs => lockInside_of_exact hs.2
  · intro ls s t hrun hon howner
    obtain ⟨hheld, hexact⟩ := exact_of_online hon ls s (List.prefix_refl ls) hrun
    refine ⟨owner_enabled hexact howner, fun ls' s' hrun' hon' hcount => ?_⟩
    exact freed_on_the_way Label.thread (I := HeldInv)
      (fun _ _ _ hi hs => hi.step hs)
      (fun _ _ _ hi hon hs => step_move hi.waiting hon hs)
      hrun' hon' hheld hexact howner (Nat.le_trans (left_le s t) hcount)
  · intro s t hreach howner hinside ls' s' hrun
    have hleft : s.left t = 0 := by
      cases t with
      | client => exact absurd trivial hinside
      | connlost l =>
          rw [left_connlost, show s.connlost l = .idle from Decidable.not_not.1 hinside]
          rfl
      | pubmsg p =>
          rw [left_pubmsg, show s.pubmsg p = .idle from Decidable.not_not.1 hinside]
          rfl
    exact leaked_for_good (heldInv_reachable hreach) howner hleft hrun

/-- The client thread connects and sleeps, and one message is published. -/
def connectAndPublish : List (Label Unit Unit) :=
  List.replicate 8 (.client 0) ++ [.callPubmsg () "m"] ++
    List.replicate 5 (.pubmsg () 0)

theorem lock_discipline_publish :
    ∃ s : Mqtt Unit Unit, Run step (init Unit Unit "1") connectAndPublish s ∧
      Along LockInside step (init Unit Unit "1") connectAndPublish :=
  ⟨_, run_get (by decide),
    ((lock_discipline_iff Unit Unit "1").1 connectAndPublish _
      (run_get (by decide))).2 (by decide)⟩

/-- A message is published before the client thread has connected. -/
def publishOffline : List (Label Unit Unit) :=
  [.callPubmsg () "m", .pubmsg () 0, .pubmsg () 0]

theorem lock_left_behind :
    ∃ ls, ∃ s : Mqtt Unit Unit, Run step (init Unit Unit "1") ls s ∧ ¬ LockInside s :=
  ⟨publishOffline, _, run_get (by decide), fun h => h (.pubmsg ()) rfl rfl⟩

end Mqtt

end IotCamera
