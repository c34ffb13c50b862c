import IotCamera.Proofs.MqttPayload
import IotCamera.Proofs.QueueDrained
import IotCamera.Proofs.QueueFifo
import IotCamera.Proofs.QueueOrder

/-!
# Requests and their answers

A request that reaches `process` as it was sent is answered with its own id,
and requests are answered in the order they arrive, once each. The second half
is the queue's doing: it delivers everything, in order, and stands still only
when nothing is left. The first half is not always so. What is copied is the
text up to the 255th byte, and an object that goes on after that is no object
any more; and the member that is looked up is the first with that name in any
case.

The parser is asked for one thing: that what it says of an object depends on
the text up to the end of the object, and that less than that is no object.
-/

namespace IotCamera

open CString Lts

namespace Mqtt

variable {D : Type} {cJSON_Parse : List UInt8 → Option (CJson D × Nat)}
  {message : MQTTClient_message} {id text : List UInt8}

/-! ## One message -/

/-- The text of an object is read to its end, whatever follows, and not
understood without its end. -/
def ReadsObjects (cJSON_Parse : List UInt8 → Option (CJson D × Nat)) : Prop :=
  ∀ text child stop, cJSON_Parse text = some (.object child, stop) →
    ∀ n, cJSON_Parse (text.take n) = if stop ≤ n then some (.object child, stop) else none

/-- The payload has a zero byte, and the text before it is an object with this
string for a `MSGID`. -/
def Request (cJSON_Parse : List UInt8 → Option (CJson D × Nat)) (message : MQTTClient_message)
    (id : List UInt8) : Prop :=
  ∃ text child stop, str (message.payload.take message.payloadlen) = some text ∧
    cJSON_Parse text = some (.object child, stop) ∧ (bytes "MSGID", .string id) ∈ child

/-- The object ends where the copy does or before that, and the string is that
of the first member with the name, in any case. -/
def Reaches (cJSON_Parse : List UInt8 → Option (CJson D × Nat)) (message : MQTTClient_message)
    (id : List UInt8) : Prop :=
  ∃ text child stop, str (message.payload.take message.payloadlen) = some text ∧
    cJSON_Parse text = some (.object child, stop) ∧ stop ≤ 255 ∧
    (CJson.object child).GetObjectItem (bytes "MSGID") = some (.string id)

/-- What the message makes the callback push. -/
def carried (message : MQTTClient_message) : Option MQTTData :=
  (msgarrvd (some mqttArrived_Fun) message).join

theorem carried_eq (h : str message.payload = some text) :
    carried message = some ⟨snprintf 128 (bytes "(null)"), text.take 255⟩ := by
  simp [carried, msgarrvd, mqttArrived_Fun, percentS, snprintf, h]

/-- The memory after a payload with a zero byte is not looked at. -/
theorem str_payload (h : str (message.payload.take message.payloadlen) = some text) :
    str message.payload = some text := by
  have hmem : 0 ∈ message.payload.take message.payloadlen := by
    rw [str] at h
    split at h
    · assumption
    · cases h
  rw [← List.take_append_drop message.payloadlen message.payload, str_append, if_pos hmem, h]

variable [NatCast D]

/-- An object with this id, the id of the device, and the type of an answer. -/
def IsReply (id : List UInt8) (reply : CJson D) : Prop :=
  reply.GetObjectItemCaseSensitive (bytes "MSGID") = some (.string id) ∧
    reply.GetObjectItemCaseSensitive (bytes "DEVID") = some (.string devId) ∧
    reply.GetObjectItemCaseSensitive (bytes "MSGTYPE") = some (.number ((1 : Nat) : D))

/-- What `process` publishes for the message. -/
def answer (cJSON_Parse : List UInt8 → Option (CJson D × Nat)) (message : MQTTClient_message) :
    Option (CJson D) :=
  (carried message).bind fun md => md.process cJSON_Parse

theorem isReply_xintiao {UUID : Option (List UInt8)} :
    IsReply id (xintiao UUID : CJson D) ↔ UUID = some id := by
  cases UUID with
  | none =>
      constructor
      · intro h
        have hnone :
            (xintiao none : CJson D).GetObjectItemCaseSensitive (bytes "MSGID") = none := rfl
        rw [IsReply, hnone] at h
        cases h.1
      · intro h
        cases h
  | some s =>
      have hid : (xintiao (some s) : CJson D).GetObjectItemCaseSensitive (bytes "MSGID") =
          some (.string s) := rfl
      constructor
      · intro h
        rw [IsReply, hid] at h
        cases h.1
        rfl
      · intro h
        cases h
        exact ⟨rfl, rfl, rfl⟩

theorem answer_eq (hparse : ReadsObjects cJSON_Parse) {child : List (List UInt8 × CJson D)}
    {stop : Nat} (htext : str (message.payload.take message.payloadlen) = some text)
    (hobject : cJSON_Parse text = some (.object child, stop)) :
    answer cJSON_Parse message =
      if stop ≤ 255 then
        ((CJson.object child).GetObjectItem (bytes "MSGID")).map fun pSub =>
          xintiao pSub.valuestring
      else none := by
  rw [answer, carried_eq (str_payload htext), Option.bind_some, MQTTData.process,
    hparse text child stop hobject 255]
  split
  · show ((CJson.object child).GetObjectItem (bytes "MSGID")).bind _ = _
    cases (CJson.object child).GetObjectItem (bytes "MSGID") <;> rfl
  · rfl

theorem answer_of_reaches (hparse : ReadsObjects cJSON_Parse) (h : Reaches cJSON_Parse message id) :
    ∃ reply, answer cJSON_Parse message = some reply ∧ IsReply id reply := by
  obtain ⟨text, child, stop, htext, hobject, hstop, hsub⟩ := h
  refine ⟨xintiao (some id), ?_, isReply_xintiao.2 rfl⟩
  rw [answer_eq hparse htext hobject, if_pos hstop, hsub]
  rfl

theorem reaches_of_answer (hparse : ReadsObjects cJSON_Parse) (h : Request cJSON_Parse message id)
    {reply : CJson D} (hreply : answer cJSON_Parse message = some reply) (his : IsReply id reply) :
    Reaches cJSON_Parse message id := by
  obtain ⟨text, child, stop, htext, hobject, -⟩ := h
  rw [answer_eq hparse htext hobject] at hreply
  split at hreply
  · next hstop =>
      obtain ⟨pSub, hsub, rfl⟩ := Option.map_eq_some_iff.1 hreply
      have hvalue := isReply_xintiao.1 his
      cases pSub with
      | string s =>
          cases hvalue
          exact ⟨text, child, stop, htext, hobject, hstop, hsub⟩
      | _ => cases hvalue
  · cases hreply

/-! ## All messages -/

section Device

variable {s s' : Device}

theorem step_queue {l : Device.Label} (h : s.step l = some s') :
    ∃ pl new, s.pcm.step QueueThread.side pl = some s'.pcm ∧
      s'.arrived = s.arrived ++ new ∧ new.map carried = pl.offers.map some := by
  cases l with
  | msgarrvd message =>
      simp only [Device.step] at h
      split at h
      · cases h
      · next hnone =>
          obtain ⟨md, -, hmd⟩ := Option.map_eq_some_iff.1 hnone
          cases hmd
      · next md hmd =>
          obtain ⟨p, hp, rfl⟩ := Option.map_eq_some_iff.1 h
          refine ⟨.producterPush .library md, [message], hp, rfl, ?_⟩
          rw [List.map_singleton, carried, hmd]
          rfl
  | statement t woken =>
      obtain ⟨p, hp, rfl⟩ := Option.map_eq_some_iff.1 h
      exact ⟨.statement t woken, [], hp, (List.append_nil _).symm, rfl⟩
  | spurious t =>
      obtain ⟨p, hp, rfl⟩ := Option.map_eq_some_iff.1 h
      exact ⟨.spurious t, [], hp, (List.append_nil _).symm, rfl⟩

theorem library_only : ∀ t, QueueThread.side t = .product → t = .library := by
  intro t ht
  cases t with
  | library => rfl
  | consumer => cases ht

theorem consumer_only : ∀ t, QueueThread.side t = .consume → t = .consumer := by
  intro t ht
  cases t with
  | library => cases ht
  | consumer => rfl

/-- The queue runs as it does by itself, and the messages are offered in the
order they arrive. -/
structure Ordered (s : Device) : Prop where
  queue : Reachable (Pcm.step QueueThread.side) (.init MQTTData QueueThread.side NUM) s.pcm
  order : s.arrived.map carried = (s.pcm.offered .library).map some

theorem ordered_reachable (h : Reachable Device.step .init s) : Ordered s := by
  refine h.invariant (I := Ordered) ⟨.refl _, rfl⟩ fun s l s' hi hs => ?_
  obtain ⟨pl, new, hstep, harrived, hnew⟩ := step_queue hs
  refine ⟨hi.queue.next hstep, ?_⟩
  rw [harrived, List.map_append, hi.order, hnew, Pcm.offered_step library_only rfl hstep,
    List.map_append]

/-- What was processed was offered first, and nothing else was if the queue is
drained. -/
theorem Ordered.processed (h : Ordered s) : ∃ later,
    s.pcm.offered .library = s.pcm.processed ++ later ∧
      (s.pcm.Drained QueueThread.side → later = []) := by
  obtain ⟨c, hc⟩ := Pcm.shows_reachable h.queue
  have hlaw := c.law
  obtain ⟨hcontent, hsent, hreceived⟩ : c.content = s.pcm.bq.q ∧ c.sent = s.pcm.pushed ∧
      c.received = s.pcm.popped := by simpa [Channel.view] using hc.view
  have hhand : s.pcm.popped = s.pcm.processed ++ s.pcm.inHand .consumer :=
    Pcm.handInv_reachable consumer_only rfl h.queue
  rw [hcontent, hsent, hreceived, hhand] at hlaw
  refine ⟨s.pcm.inHand .consumer ++ (s.pcm.bq.q ++ s.pcm.inCall .library), ?_, fun hdrained => ?_⟩
  · rw [Pcm.offered, hlaw, List.append_assoc, List.append_assoc]
  · rw [hdrained.empty, Pcm.inHand, Pcm.inCall, hdrained.consume .consumer rfl,
      hdrained.product .library rfl]
    rfl

/-- No thread has a statement to execute. -/
def Still (s : Device) : Prop := ∀ t woken, s.step (.statement t woken) = none

theorem Ordered.drained (h : Ordered s) (hstill : Still s) : s.pcm.Drained QueueThread.side := by
  refine Pcm.drained_of_still (by decide) ⟨.consumer, rfl⟩ h.queue fun t woken => ?_
  exact Option.map_eq_none_iff.1 (hstill t woken)

end Device

/-- Messages that are answered, one call of `process` after another. -/
theorem answers_published {R : MQTTClient_message → CJson D → Prop}
    {ms : List MQTTClient_message} {mds : List MQTTData}
    (hcarried : ms.map carried = mds.map some)
    (hanswer : ∀ m ∈ ms, ∃ reply, answer cJSON_Parse m = some reply ∧ R m reply) :
    List.Forall₂ R ms (mds.filterMap fun md => md.process cJSON_Parse) := by
  induction ms generalizing mds with
  | nil =>
      cases mds with
      | nil => exact .nil
      | cons md mds => cases hcarried
  | cons m ms ih =>
      cases mds with
      | nil => cases hcarried
      | cons md mds =>
          rw [List.map_cons, List.map_cons, List.cons.injEq] at hcarried
          obtain ⟨reply, hreply, hr⟩ := hanswer m List.mem_cons_self
          have hprocess : md.process cJSON_Parse = some reply := by
            rw [answer, hcarried.1] at hreply
            exact hreply
          rw [List.filterMap_cons_some hprocess]
          exact .cons hr (ih hcarried.2 fun m hm => hanswer m (List.mem_cons_of_mem _ hm))

/-- The calls of `pubmsg` are the replies to the messages in the order they
arrived, and the device stands still only when all of them are answered. -/
def Answered (cJSON_Parse : List UInt8 → Option (CJson D × Nat))
    (id : MQTTClient_message → List UInt8) (s : Device) : Prop :=
  List.Forall₂ (fun m reply => IsReply (id m) reply)
    (s.arrived.take (s.published cJSON_Parse).length) (s.published cJSON_Parse) ∧
  (Still s → (s.published cJSON_Parse).length = s.arrived.length)

/-- A request gets its one reply from `process` exactly if its object ends
within the first 255 bytes and the first member named `MSGID`, in any case, is
the id of the request. In every run in which all messages are like that, in
every state, `pubmsg` has been called with their replies, in order, once for
each; and the device stands still only when all are answered. -/
theorem requests_answered_iff (cJSON_Parse : List UInt8 → Option (CJson D × Nat))
    (hparse : ReadsObjects cJSON_Parse) :
    (∀ message id, Request cJSON_Parse message id →
      ((∃ reply, answer cJSON_Parse message = some reply ∧ IsReply id reply) ↔
        Reaches cJSON_Parse message id)) ∧
    ∀ s, Reachable Device.step .init s → ∀ id : MQTTClient_message → List UInt8,
      (∀ m ∈ s.arrived, Reaches cJSON_Parse m (id m)) → Answered cJSON_Parse id s := by
  refine ⟨fun message id hrequest => ⟨?_, answer_of_reaches hparse⟩, fun s h id hreaches => ?_⟩
  · rintro ⟨reply, hreply, his⟩
    exact reaches_of_answer hparse hrequest hreply his
  have hordered := ordered_reachable h
  obtain ⟨later, hoffered, hdone⟩ := hordered.processed
  have hsplit : s.arrived.map carried = (s.pcm.processed ++ later).map some := by
    rw [hordered.order, hoffered]
  have hfirst : (s.arrived.take s.pcm.processed.length).map carried =
      s.pcm.processed.map some := by
    have hlen : s.pcm.processed.length = (s.pcm.processed.map some).length :=
      (List.length_map some).symm
    rw [List.map_take, hsplit, List.map_append, hlen, List.take_left]
  have hreplies : List.Forall₂ (fun m reply => IsReply (id m) reply)
      (s.arrived.take s.pcm.processed.length) (s.published cJSON_Parse) :=
    answers_published hfirst fun m hm =>
      answer_of_reaches hparse (hreaches m (List.mem_of_mem_take hm))
  have hlen : (s.published cJSON_Parse).length = s.pcm.processed.length := by
    rw [← hreplies.length_eq, ← List.length_map (f := carried), hfirst, List.length_map]
  refine ⟨by rw [hlen]; exact hreplies, fun hstill => ?_⟩
  have hnone : later = [] := hdone (hordered.drained hstill)
  rw [hlen, ← List.length_map (f := carried), hsplit, hnone, List.append_nil, List.length_map]

/-! ## A parser of one text -/

/-- It knows the text of one object, and what goes on after it. -/
def parseOnly (known : List UInt8) (child : List (List UInt8 × CJson Nat)) (text : List UInt8) :
    Option (CJson Nat × Nat) :=
  if known <+: text then some (.object child, known.length) else none

theorem readsObjects_parseOnly (known : List UInt8) (child : List (List UInt8 × CJson Nat)) :
    ReadsObjects (parseOnly known child) := by
  intro text child' stop h n
  rw [parseOnly] at h
  split at h
  · next hknown =>
      cases h
      exact if_congr (List.prefix_take_iff.trans (and_iff_right hknown)) rfl rfl
  · cases h

/-- A request with this id and a note. -/
def requestChild (note : List UInt8) : List (List UInt8 × CJson Nat) :=
  [(bytes "MSGID", .string (bytes "7")), (bytes "NOTE", .string note)]

def requestText (note : List UInt8) : List UInt8 :=
  bytes "\x7b\"MSGID\":\"7\",\"NOTE\":\"" ++ note ++ bytes "\"\x7d"

def parseRequest (note : List UInt8) : List UInt8 → Option (CJson Nat × Nat) :=
  parseOnly (requestText note) (requestChild note)

def requestMessage (note : List UInt8) : MQTTClient_message :=
  inMemory (requestText note ++ [0]) []

theorem parseRequest_self (note : List UInt8) : parseRequest note (requestText note) =
    some (.object (requestChild note), (requestText note).length) :=
  if_pos List.prefix_rfl

theorem requestMessage_text {note : List UInt8} (h : 0 ∉ note) :
    str ((requestMessage note).payload.take (requestMessage note).payloadlen) =
      some (requestText note) := by
  have hzero : 0 ∉ requestText note := by
    rw [requestText, List.mem_append, List.mem_append, not_or, not_or]
    exact ⟨⟨by decide, h⟩, by decide⟩
  rw [requestMessage, inMemory, List.append_nil, List.take_length]
  exact str_append_zero hzero

theorem requestMessage_request {note : List UInt8} (h : 0 ∉ note) :
    Request (parseRequest note) (requestMessage note) (bytes "7") :=
  ⟨_, _, _, requestMessage_text h, parseRequest_self note, List.mem_cons_self⟩

theorem requestMessage_reaches {note : List UInt8} (h : 0 ∉ note)
    (hlen : (requestText note).length ≤ 255) :
    Reaches (parseRequest note) (requestMessage note) (bytes "7") :=
  ⟨_, _, _, requestMessage_text h, parseRequest_self note, hlen, rfl⟩

/-- One message, and all statements until nobody has another. -/
def oneMessage (message : MQTTClient_message) : List Device.Label :=
  .msgarrvd message :: (List.replicate 5 (.statement .library ∅) ++
    List.replicate 11 (.statement .consumer ∅))

theorem requests_answered_short :
    ∃ s : Device, s.arrived = [requestMessage []] ∧
      Answered (parseRequest []) (fun _ => bytes "7") s ∧
      ((∃ reply, answer (parseRequest []) (requestMessage []) = some reply ∧
        IsReply (bytes "7") reply) ↔
        Reaches (parseRequest []) (requestMessage []) (bytes "7")) :=
  ⟨_, rfl,
    (requests_answered_iff (parseRequest []) (readsObjects_parseOnly _ _)).2 _
      ⟨oneMessage (requestMessage []), run_get (by decide +kernel)⟩ (fun _ => bytes "7")
      (fun m hm => List.mem_singleton.1 hm ▸
        requestMessage_reaches (by decide) (by decide +kernel)),
    (requests_answered_iff (parseRequest []) (readsObjects_parseOnly _ _)).1
      (requestMessage []) (bytes "7") (requestMessage_request (by decide))⟩

/-- A note that does not fit. -/
def longNote : List UInt8 := List.replicate 255 (ch 'a')

theorem still_of_pc {s : Device} (hlibrary : s.pcm.pc .library = .idle)
    (hconsumer : s.pcm.pc .consumer = .blocked) (hwoken : s.pcm.bq.empty.woken = ∅) : Still s := by
  intro t woken
  cases t with
  | library =>
      simp [Device.step, Pcm.step, QueueThread.side, Pcm.pushData, hlibrary]
  | consumer =>
      rw [Device.step, Pcm.statement_blocked hconsumer]
      simp [BlockQueue.resume, CondVar.resume, BlockQueue.cond, QueueThread.side, hwoken]

/-- The device when it is through with the request. -/
def longRequestDone : Device :=
  ((oneMessage (requestMessage longNote)).foldlM Device.step .init).get (by decide +kernel)

theorem longRequest_dropped :
    Reachable Device.step .init longRequestDone ∧
      (∀ m ∈ longRequestDone.arrived, Request (parseRequest longNote) m (bytes "7")) ∧
      ¬ Answered (parseRequest longNote) (fun _ => bytes "7") longRequestDone := by
  refine ⟨⟨oneMessage (requestMessage longNote), run_get _⟩, fun m hm => ?_, fun h => ?_⟩
  · have harrived : m ∈ [requestMessage longNote] := hm
    rw [List.mem_singleton] at harrived
    subst harrived
    exact requestMessage_request (by decide +kernel)
  · have hlen := h.2 (still_of_pc (by decide +kernel) (by decide +kernel) (by decide +kernel))
    exact absurd hlen (by decide +kernel)

end Mqtt

end IotCamera
