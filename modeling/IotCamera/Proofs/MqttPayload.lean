import IotCamera.Mqtt.Process

/-!
# What of a message gets into the queue

The library hands over a pointer and a length, and the length is not looked
at. The copy is that of a C string, so it ends at the first zero byte, and
where the payload has none it goes on into the memory after it: for as long as
the buffer has room, and for printing until there is a zero byte at all.

So what gets into the queue is the payload's own if it has a zero byte, or if
it fills the buffer; the second is no help if the memory ends without one.
-/

namespace IotCamera

open CString

namespace Mqtt

variable {payload rest s : List UInt8}

/-- A message in memory, with these bytes after its payload. -/
def inMemory (payload rest : List UInt8) : MQTTClient_message :=
  ⟨payload.length, payload ++ rest⟩

/-- The string in `msg` of what the message makes the callback push. -/
def enqueued (message : MQTTClient_message) : Option (List UInt8) :=
  (msgarrvd (some mqttArrived_Fun) message).bind fun md => md.map MQTTData.msg

theorem enqueued_eq (message : MQTTClient_message) :
    enqueued message = (str message.payload).map fun s => s.take 255 := by
  cases h : str message.payload with
  | none => simp [enqueued, msgarrvd, mqttArrived_Fun, percentS, h]
  | some s => simp [enqueued, msgarrvd, mqttArrived_Fun, percentS, snprintf, h]

/-- What is pushed is cut out of the payload, and out of what follows it if the
payload has no zero byte. -/
theorem enqueued_of_mem (h : 0 ∈ payload) :
    enqueued (inMemory payload rest) = (str payload).map fun s => s.take 255 := by
  rw [enqueued_eq, inMemory, str_append, if_pos h]

theorem enqueued_of_not_mem (h : 0 ∉ payload) :
    enqueued (inMemory payload rest) = (str rest).map fun s => (payload ++ s).take 255 := by
  rw [enqueued_eq, inMemory, str_append, if_neg h, Option.map_map]
  rfl

/-- Two messages with the same payload, and any two memories after it of this
kind: both are pushed with the same text, which is the payload if that is a
short text with no zero byte in it. -/
def Confined (kind : List UInt8 → Prop) (payload : List UInt8) : Prop :=
  ∀ rest rest', kind rest → kind rest' →
    ∃ s, enqueued (inMemory payload rest) = some s ∧
      enqueued (inMemory payload rest') = some s ∧
      (0 ∉ payload → payload.length < 256 → s = payload)

theorem confined_of_mem (kind : List UInt8 → Prop) (h : 0 ∈ payload) : Confined kind payload := by
  intro rest rest' _ _
  have hstr : str payload = some (payload.takeWhile fun b => b ≠ 0) := by rw [str, if_pos h]
  rw [enqueued_of_mem h, enqueued_of_mem h, hstr]
  exact ⟨_, rfl, rfl, fun h0 => absurd h h0⟩

theorem confined_of_long (h : 255 ≤ payload.length) : Confined (fun rest => 0 ∈ rest) payload := by
  intro rest rest' hrest hrest'
  by_cases h0 : 0 ∈ payload
  · exact confined_of_mem _ h0 rest rest' hrest hrest'
  have hcut : ∀ rest, 0 ∈ rest →
      enqueued (inMemory payload rest) = some (payload.take 255) := by
    intro rest hrest
    rw [enqueued_of_not_mem h0, str, if_pos hrest, Option.map_some,
      List.take_append_of_le_length h]
  refine ⟨payload.take 255, hcut rest hrest, hcut rest' hrest', fun _ hlen => ?_⟩
  rw [List.take_of_length_le (by omega)]

/-- The text that is pushed depends on the payload alone exactly if the payload
has a zero byte in it; and if there is always a zero byte in the memory after
it, exactly if the payload has one or fills the buffer. -/
theorem payload_confined_iff (payload : List UInt8) :
    (Confined (fun _ => True) payload ↔ 0 ∈ payload) ∧
    (Confined (fun rest => 0 ∈ rest) payload ↔ 0 ∈ payload ∨ 255 ≤ payload.length) := by
  refine ⟨⟨fun h => ?_, confined_of_mem _⟩, ⟨fun h => ?_, ?_⟩⟩
  · -- there may be nothing to read after the payload
    by_contra h0
    obtain ⟨s, hs, -⟩ := h [] [] trivial trivial
    rw [enqueued_of_not_mem h0] at hs
    cases hs
  · -- or another character before the zero byte
    by_contra hnot
    rw [not_or, not_le] at hnot
    obtain ⟨h0, hlen⟩ := hnot
    obtain ⟨s, hs, hs', -⟩ := h [0] [ch 'x', 0] (by decide) (by decide)
    rw [enqueued_of_not_mem h0] at hs hs'
    have hend : str [0] = some [] := by decide
    have hmore : str [ch 'x', 0] = some [ch 'x'] := by decide
    rw [hend, Option.map_some, List.append_nil, Option.some.injEq] at hs
    rw [hmore, Option.map_some, Option.some.injEq] at hs'
    have hlong := congrArg List.length (hs.trans hs'.symm)
    rw [List.length_take, List.length_take, List.length_append, List.length_singleton] at hlong
    omega
  · rintro (h | h)
    · exact confined_of_mem _ h
    · exact confined_of_long h

/-- A request as it comes over the network. -/
def shortRequest : List UInt8 := bytes "\x7b\"MSGID\":\"7\"\x7d"

theorem shortRequest_grows :
    enqueued (inMemory shortRequest [0]) = some shortRequest ∧
      enqueued (inMemory shortRequest [ch '5', 0]) = some (shortRequest ++ [ch '5']) ∧
      ¬ Confined (fun rest => 0 ∈ rest) shortRequest := by
  have hend : enqueued (inMemory shortRequest [0]) = some shortRequest := by decide +kernel
  have hmore : enqueued (inMemory shortRequest [ch '5', 0]) =
      some (shortRequest ++ [ch '5']) := by decide +kernel
  refine ⟨hend, hmore, fun h => ?_⟩
  obtain ⟨s, hs, hs', -⟩ := h [0] [ch '5', 0] (by decide) (by decide)
  rw [hend] at hs
  rw [hmore, ← hs] at hs'
  exact absurd hs' (by decide +kernel)

end Mqtt

end IotCamera
