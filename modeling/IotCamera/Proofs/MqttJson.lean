import IotCamera.Proofs.JsonRoundTrip
import IotCamera.Proofs.MqttReply

/-!
# Requests and answers as JSON

The device with the parser and the printer it has. What was asked of a parser
holds of `cJSON_Parse`, so a JSON text with an id comes out as a JSON text with
that id, through the copy, the queue and the two threads.
-/

namespace IotCamera

open CString Lts

namespace Mqtt

variable {D : Type} {dbl : Doubles D} {message : MQTTClient_message} {id : List UInt8}

/-- The payload is a C string that begins with a JSON object, which ends within
255 bytes and has this id. -/
def SentJson (dbl : Doubles D) (message : MQTTClient_message) (id : List UInt8) : Prop :=
  ∃ w t rest child, str (message.payload.take message.payloadlen) = some (w ++ t ++ rest) ∧
    Ws w ∧ Value dbl CJSON_NESTING_LIMIT (.object child) t ∧ Stops rest ∧
    (w ++ t).length ≤ 255 ∧
    (CJson.object child).GetObjectItem (bytes "MSGID") = some (.string id)

theorem SentJson.parsed (h : SentJson dbl message id) : ∃ text child stop,
    str (message.payload.take message.payloadlen) = some text ∧
    cJSON_Parse dbl text = some (.object child, stop) ∧ stop ≤ 255 ∧
    (CJson.object child).GetObjectItem (bytes "MSGID") = some (.string id) := by
  obtain ⟨w, t, rest, child, htext, hw, ht, hstop, hlen, hid⟩ := h
  have hread := parseWithOpts_front (.inl rfl) hw ht hstop
  refine ⟨w ++ t ++ rest, child, (w ++ t).length, htext, ?_, hlen, hid⟩
  rw [cJSON_Parse, show cJSON_ParseWithOpts dbl (w ++ t ++ rest) false = _ from hread]
  rfl

/-- Members that an object of C strings can have. -/
def MembersFit (n : Nat) (child : List (List UInt8 × CJson D)) : Prop :=
  (∀ m ∈ child, 0 ∉ m.1) ∧ ∀ m ∈ child, Printable n m.2

theorem MembersFit.add {n : Nat} {child : List (List UInt8 × CJson D)} {name : List UInt8}
    {item : CJson D} (h : MembersFit n child) (hname : 0 ∉ name) (hitem : Printable n item) :
    MembersFit n (CJson.AddItemToObject child name item) := by
  constructor <;> intro m hm
  · rcases List.mem_append.1 hm with hm | hm
    · exact h.1 m hm
    · rw [List.mem_singleton.1 hm]
      exact hname
  · rcases List.mem_append.1 hm with hm | hm
    · exact h.2 m hm
    · rw [List.mem_singleton.1 hm]
      exact hitem

theorem MembersFit.object {n : Nat} {child : List (List UInt8 × CJson D)}
    (h : MembersFit n child) : Printable (n + 1) (.object child) := .object h.1 h.2

variable [NatCast D]

end Mqtt

end IotCamera
