import IotCamera.Proofs.QueueMoves

/-!
# What one producer offers

With one producer the items go into the queue in the order of its calls. In
between, the item of the call that is under way is in the producer's variable.
So what was offered is what was pushed and that one item, and only a new call
adds to it: a statement moves the thread that executes it and no other, and a
producer between two calls executes none.
-/

namespace IotCamera

open Lts

/-- A producer has an item that it has not pushed yet. -/
def QueuePc.pushes : QueuePc → Bool
  | .idle | .notify | .unlock => false
  | _ => true

/-- The items a call offers. -/
def Pcm.Label.offers {T α : Type} : Pcm.Label T α → List α
  | .producterPush _ v => [v]
  | _ => []

namespace Pcm

variable {T α : Type} [DecidableEq T] {side : T → Side} {s s' : Pcm T α} {p : T}

def inCall (s : Pcm T α) (p : T) : List α := if (s.pc p).pushes then (s.data p).toList else []

/-- Everything the producer was called with. -/
def offered (s : Pcm T α) (p : T) : List α := s.pushed ++ s.inCall p

/-- A move of a thread that pushes nothing and keeps its item, if it has one. -/
theorem offered_stay {u : T} {pc : QueuePc} (hpushed : s'.pushed = s.pushed)
    (hpc : s'.pc = Function.update s.pc u pc) (hdata : s'.data p = s.data p)
    (hself : p = u → pc.pushes = (s.pc u).pushes) : s'.offered p = s.offered p := by
  have hpushes : (s'.pc p).pushes = (s.pc p).pushes := by
    rw [hpc]
    by_cases hp : p = u
    · rw [hp, Function.update_self, hself hp]
    · rw [Function.update_of_ne hp]
  rw [offered, offered, inCall, inCall, hpushed, hpushes, hdata]

/-- Nothing but a call of the producer changes what it offered. -/
theorem Move.offered (honly : ∀ t, side t = .product → t = p) (hp : side p = .product)
    (hm : Move side s s') :
    s'.offered p = s.offered p ∨ s.pc p = .idle ∧ s'.pc p ≠ .idle := by
  cases hm with
  | call t v hside hpc =>
      obtain rfl := honly t hside
      refine Or.inr ⟨hpc, ?_⟩
      simp [put]
  | push t v hside hpc hdata =>
      obtain rfl := honly t hside
      left
      simp [Pcm.offered, inCall, put, hpc, hdata, QueuePc.pushes]
  | pop t v rest hside hpc hq =>
      have hne : p ≠ t := by
        rintro rfl
        rw [hp] at hside
        cases hside
      exact Or.inl (offered_stay (u := t) rfl rfl (Function.update_of_ne hne _ _)
        fun h => absurd h hne)
  | process t v hside hpc hdata | delete t hside hpc =>
      have hne : p ≠ t := by
        rintro rfl
        rw [hp] at hside
        cases hside
      exact Or.inl (offered_stay (u := t) rfl rfl rfl fun h => absurd h hne)
  | unlock t hpc howner =>
      refine Or.inl (offered_stay (u := t) rfl rfl rfl fun h => ?_)
      rw [hpc, ← h, hp]
      rfl
  | spurious t ht => exact Or.inl rfl
  | lock t hpc hfree | busy t hpc hbusy | ready t hpc hbusy | nudge t woken c hpc hc
  | wait t hpc howner | resume t c hpc hfree hc | notify t woken c hpc hc =>
      refine Or.inl (offered_stay (u := t) rfl rfl rfl fun _ => ?_)
      rw [hpc]
      rfl

theorem offered_step (honly : ∀ t, side t = .product → t = p) (hp : side p = .product)
    {l : Label T α} (h : step side s l = some s') : s'.offered p = s.offered p ++ l.offers := by
  cases l with
  | producterPush t v =>
      simp only [step, Option.ite_none_right_eq_some, Option.some.injEq] at h
      obtain ⟨⟨hside, hpc⟩, rfl⟩ := h
      obtain rfl := honly t hside
      simp [offered, inCall, put, hpc, QueuePc.pushes, Label.offers]
  | statement t woken =>
      obtain ⟨hm, hidle, pc, hpc⟩ := statement_move h
      show s'.offered p = s.offered p ++ []
      rw [List.append_nil]
      refine (hm.offered honly hp).resolve_right fun hcall => ?_
      by_cases hpt : p = t
      · exact hidle (hpt ▸ hcall.1)
      · rw [hpc, Function.update_of_ne hpt] at hcall
        exact hcall.2 hcall.1
  | spurious t =>
      show s'.offered p = s.offered p ++ []
      rw [List.append_nil]
      refine ((step_move h).offered honly hp).resolve_right fun hcall => ?_
      obtain ⟨c, -, rfl⟩ := Option.map_eq_some_iff.1 h
      exact hcall.2 hcall.1

end Pcm

end IotCamera
