/-!
# A bounded first-in first-out channel

What a bounded queue is for, with no threads in it: values are put in at one
end while there is room and come out at the other in the same order. The
channel carries its own history, and the two laws are fields, so a channel
that lost, invented or reordered a value cannot be written down.
-/

universe u

structure Channel (α : Type u) (cap : Nat) where
  content : List α
  sent : List α
  received : List α
  /-- Everything sent came out already, in order, or is still inside. -/
  law : sent = received ++ content
  bound : content.length ≤ cap

namespace Channel

variable {α : Type u} {cap : Nat}

def new (α : Type u) (cap : Nat) : Channel α cap := ⟨[], [], [], rfl, Nat.zero_le cap⟩

def put (c : Channel α cap) (a : α) : Option (Channel α cap) :=
  if h : c.content.length < cap then
    some
      { content := c.content ++ [a]
        sent := c.sent ++ [a]
        received := c.received
        law := by rw [c.law, List.append_assoc]
        bound := by rw [List.length_append]; exact h }
  else none

def get (c : Channel α cap) : Option (Channel α cap) :=
  match h : c.content with
  | [] => none
  | a :: rest =>
      some
        { content := rest
          sent := c.sent
          received := c.received ++ [a]
          law := by rw [c.law, h, List.append_assoc]; rfl
          bound := by
            have hb := c.bound
            rw [h, List.length_cons] at hb
            exact Nat.le_of_succ_le hb }

inductive Op (α : Type u)
  | put (a : α)
  | get

def step (c : Channel α cap) : Op α → Option (Channel α cap)
  | .put a => c.put a
  | .get => c.get

/-- The fields of the channel, without the laws. -/
def view (c : Channel α cap) : List α × List α × List α :=
  (c.content, c.sent, c.received)

theorem put_view {c : Channel α cap} {q sent received : List α} (a : α)
    (hv : c.view = (q, sent, received)) (hroom : q.length < cap) :
    ∃ c', c.put a = some c' ∧ c'.view = (q ++ [a], sent ++ [a], received) := by
  obtain ⟨rfl, rfl, rfl⟩ := hv
  exact ⟨_, dif_pos hroom, rfl⟩

theorem get_view {c : Channel α cap} {a : α} {rest sent received : List α}
    (hv : c.view = (a :: rest, sent, received)) :
    ∃ c', c.get = some c' ∧ c'.view = (rest, sent, received ++ [a]) := by
  obtain ⟨content, sent', received', law, bound⟩ := c
  obtain ⟨rfl, rfl, rfl⟩ := hv
  exact ⟨_, rfl, rfl⟩

end Channel
