import IotCamera.Serial.Echo

/-!
# The echo of what was read

A turn hands over what `read` delivered, as long as `read` delivered
something, be it nothing at all at the end of the file. If it failed, its -1
goes into a `memcpy` as the largest `size_t` there is. `serial_read` has seen
that by then, and has printed a line about it.

A turn does not depend on the ones before, so the runs that are all right are
those without such a turn, and no others.
-/

namespace IotCamera

open Lts

theorem sizeT_natCast {n : Nat} (h : n < 18446744073709551616) : sizeT n = n := by
  unfold sizeT
  omega

namespace EchoTurn

/-- What is read in the turn. After a timeout nobody reads. -/
def received (t : EchoTurn) : List Byte :=
  if t.nfds = 0 then []
  else
    match t.read with
    | .chunk bytes _ => bytes
    | .failed => []

/-- `read` is called and fails. -/
def Fails (t : EchoTurn) : Prop := t.nfds ≠ 0 ∧ t.read = .failed

theorem length_received (t : EchoTurn) : t.received.length ≤ 256 := by
  unfold received
  split
  · exact Nat.zero_le _
  · split
    · next bytes fits _ => exact fits
    · exact Nat.zero_le _

end EchoTurn

namespace SerialPortU2

variable {t : EchoTurn} {handed : List (List Byte)} {turns : List EchoTurn}

/-- The array of the loop, in a turn. -/
def stack (t : EchoTurn) : Block := ⟨readTempSize, t.readTemp⟩

theorem serialRead_eq (h : ¬ t.Fails) : serialRead (stack t) t.nfds t.read =
    some ((stack t).fill t.received, (t.received.length : Int)) := by
  unfold serialRead EchoTurn.received
  by_cases htimeout : t.nfds = 0
  · rw [if_pos htimeout, if_pos htimeout]
    rfl
  · rw [if_neg htimeout, if_neg htimeout]
    cases hread : t.read with
    | failed => exact absurd ⟨htimeout, hread⟩ h
    | chunk bytes fits =>
        have hlen : bytes.length ≤ 256 := fits
        show ((stack t).memcpy (Block.fill ⟨readTempSize, fun _ => 0⟩ bytes)
          (sizeT bytes.length)).map (fun p => (p, (bytes.length : Int))) = _
        rw [sizeT_natCast (by omega), Block.memcpy_eq fits fits, Block.bytes_fill]
        rfl

theorem serialRead_fails (h : t.Fails) : serialRead (stack t) t.nfds t.read = none := by
  unfold serialRead
  rw [if_neg h.1, h.2]
  show ((stack t).memcpy _ (sizeT (-1))).map _ = none
  rw [Block.memcpy, if_neg, Option.map_none]
  intro hsize
  have hlarge : ¬ sizeT (-1) ≤ 256 := by decide
  exact hlarge hsize.1

theorem turn_eq (h : ¬ t.Fails) : turn handed t = some (handed ++ [t.received]) := by
  have hlen := t.length_received
  show (serialRead (stack t) t.nfds t.read).bind _ = _
  rw [serialRead_eq h, Option.bind_some]
  have hsize : t.received.length ≤ ((stack t).fill t.received).size := hlen
  show (writeData _ _).map _ = _
  rw [writeData, sizeT_natCast (by omega), if_pos hsize, Block.bytes_fill]
  rfl

/-- `serial_read` copies what was read and nothing else. -/
def Copies (t : EchoTurn) : Prop :=
  ∃ n : Int, serialRead (stack t) t.nfds t.read = some ((stack t).fill t.received, n) ∧
    n = t.received.length ∧ 0 ≤ n ∧ n ≤ 256

/-- In every turn up to now `serial_read` has copied what was read, and
`writeData` was handed just that. -/
def Echoes (turns : List EchoTurn) : Prop :=
  ∀ pre, pre <+: turns → Run turn [] pre (pre.map EchoTurn.received) ∧ ∀ t ∈ pre, Copies t

theorem run_turns (h : ∀ t ∈ turns, ¬ t.Fails) (handed : List (List Byte)) :
    Run turn handed turns (handed ++ turns.map EchoTurn.received) := by
  induction turns generalizing handed with
  | nil => simp
  | cons t turns ih =>
      rw [run_cons]
      refine ⟨_, turn_eq (h t List.mem_cons_self), ?_⟩
      have hrest := ih (fun t ht => h t (List.mem_cons_of_mem _ ht)) (handed ++ [t.received])
      rw [List.append_assoc] at hrest
      exact hrest

/-- For every sequence of outcomes, the loop echoes exactly if no call of
`read` fails. -/
theorem echoes_iff : Echoes turns ↔ ∀ t ∈ turns, ¬ t.Fails := by
  constructor
  · intro h t ht hfails
    obtain ⟨n, hread, -⟩ := (h turns List.prefix_rfl).2 t ht
    rw [serialRead_fails hfails] at hread
    cases hread
  · intro h pre hpre
    have hgood : ∀ t ∈ pre, ¬ t.Fails := fun t ht => h t (hpre.subset ht)
    refine ⟨run_turns hgood [], ?_⟩
    intro t ht
    have hlen := t.length_received
    exact ⟨_, serialRead_eq (hgood t ht), rfl, by omega, by omega⟩

/-- The port is gone: `select` has something to say about it, and `read`
fails. -/
theorem hangup_not_echoed :
    ¬ Echoes [⟨fun _ => 0, 1, .chunk [104, 105] (by decide)⟩, ⟨fun _ => 0, 1, .failed⟩] := by
  intro h
  refine echoes_iff.1 h ⟨fun _ => 0, 1, .failed⟩ (by simp) ⟨?_, rfl⟩
  show (1 : Int) ≠ 0
  decide

end SerialPortU2

end IotCamera
