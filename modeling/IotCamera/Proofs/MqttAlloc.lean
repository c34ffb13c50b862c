import IotCamera.Mqtt.Alloc

/-!
# What an allocation failure leaves behind

All the trees there are, are the roots of the memory, and the calls of the
library say what they do to them: a member that is added or given up changes
none, an item that is added to another is a root no more. So what `xintiao`
leaves behind is read off from which of its calls fail. Members may fail as
they like. But the two objects are made before either is looked at, and one is
left if the other could not be made; and a `DATA` that could not be added is
left when the root is deleted. In the first case, and when the text cannot be
printed, `NULL` comes back, which `process` hands on to `pubmsg`.
-/

namespace IotCamera

open CString Nodes

variable {D : Type}

namespace Items

variable {s : Items D} {as : List Nat} {a b object : Nat} {name : List UInt8} {fails : Bool}

/-- The roots and what is alive after a member was added, or was not. -/
def Kept (s : Items D) (as : List Nat) (s' : Items D) : Prop :=
  Roots s' as ∧ ∀ t, (s.node t).isSome → (s'.node t).isSome

theorem Delete_spec (h : Roots s (a :: as)) : ∃ s', s.Delete (some a) = some s' ∧ Roots s' as := by
  obtain ⟨ts, -, hdrop, hroots⟩ := h.drop
  exact ⟨_, hdrop, hroots⟩

/-- A new member is added, or deleted again. -/
theorem AddOrDelete_new (h : Roots s as) (hobject : (s.node object).isSome) (x : ItemValue D) :
    ∃ s', AddOrDelete (s.new x) fails object name (some s.made) = some s' ∧ Kept s as s' := by
  cases fails with
  | false =>
      obtain ⟨s', hlink, hroots, halive⟩ := h.leaf (k := name) (x := x) hobject
      refine ⟨s', ?_, hroots, halive⟩
      rw [AddOrDelete, add_item_to_object, if_neg Bool.false_ne_true, hlink]
      rfl
  | true => exact h.new_drop x

theorem AddStringToObject_spec (h : Roots s as) (hobject : (s.node object).isSome)
    (createFails strdupFails : Bool) (string : Option (List UInt8)) :
    ∃ s', s.AddStringToObject createFails strdupFails object name string = some s' ∧
      Kept s as s' := by
  have hsame : Kept s as s := ⟨h, fun _ ht => ht⟩
  cases string with
  | none => exact ⟨s, rfl, hsame⟩
  | some string =>
      cases createFails with
      | true => exact ⟨s, rfl, hsame⟩
      | false => exact AddOrDelete_new h hobject (.string string)

theorem AddNumberToObject_spec (h : Roots s as) (hobject : (s.node object).isSome)
    (createFails strdupFails : Bool) (number : D) :
    ∃ s', s.AddNumberToObject createFails strdupFails object name number = some s' ∧
      Kept s as s' := by
  cases createFails with
  | true => exact ⟨s, rfl, h, fun _ ht => ht⟩
  | false => exact AddOrDelete_new h hobject (.number number)

theorem AddItemToObject_spec (h : Roots s (a :: b :: as)) (fails : Bool) (name : List UInt8) :
    ∃ s', s.AddItemToObject fails a name (some b) = some s' ∧
      Kept s (a :: if fails then b :: as else as) s' := by
  cases fails with
  | true => exact ⟨s, rfl, h, fun _ ht => ht⟩
  | false =>
      obtain ⟨s', hlink, hroots, halive⟩ := h.link (k := name)
      refine ⟨s', ?_, hroots, halive⟩
      rw [AddItemToObject, add_item_to_object, if_neg Bool.false_ne_true, hlink]
      rfl

theorem Print_spec (h : Roots s (a :: as)) (fails : Bool) :
    ∃ p, s.Print fails a = some p ∧ (p = none ↔ fails = true) := by
  cases fails with
  | true => exact ⟨none, rfl, by simp⟩
  | false =>
      obtain ⟨r, hr⟩ := h.fold printed
      refine ⟨some r, ?_, by simp⟩
      rw [Print, if_neg Bool.false_ne_true, hr, Option.map_some]

end Items

namespace Alloc

variable {s : Items D} {as : List Nat} {fails : JsonCall → Bool}

theorem AddStringToObject_spec {object : Nat} (fails : JsonCall → Bool) (h : Roots s as)
    (hobject : (s.node object).isSome) (name : List UInt8) (string : Option (List UInt8)) :
    ∃ s', AddStringToObject fails object name string s = some s' ∧ Items.Kept s as s' :=
  Items.AddStringToObject_spec h hobject _ _ string

theorem AddNumberToObject_spec {object : Nat} (fails : JsonCall → Bool) (h : Roots s as)
    (hobject : (s.node object).isSome) (name : List UInt8) (number : D) :
    ∃ s', AddNumberToObject fails object name number s = some s' ∧ Items.Kept s as s' :=
  Items.AddNumberToObject_spec h hobject _ _ number

variable [NatCast D]

/-- With both objects there only two of the calls matter: adding the data to
the root, and printing. -/
theorem fill_spec (fails : JsonCall → Bool) {root data : Nat} (h : Roots s (root :: data :: as))
    (UUID : Option (List UInt8)) :
    ∃ p s', fill fails UUID root data s = some (p, s') ∧ (p = none ↔ fails .Print = true) ∧
      Roots s' (if fails (.strdup (bytes "DATA")) then data :: as else as) := by
  have hroot := h.alive List.mem_cons_self
  have hdata := h.alive (List.mem_cons_of_mem _ List.mem_cons_self)
  -- the five members of the root, one after the other
  obtain ⟨s₁, h₁, hr₁, ha₁⟩ := AddStringToObject_spec fails h hroot
    (bytes "DEVID") (some devId)
  have hroot₁ := ha₁ _ hroot
  obtain ⟨s₂, h₂, hr₂, ha₂⟩ := AddStringToObject_spec fails hr₁ hroot₁
    (bytes "MSGID") UUID
  have hroot₂ := ha₂ _ hroot₁
  obtain ⟨s₃, h₃, hr₃, ha₃⟩ := AddStringToObject_spec fails hr₂ hroot₂
    (bytes "TIME") (some [])
  have hroot₃ := ha₃ _ hroot₂
  obtain ⟨s₄, h₄, hr₄, ha₄⟩ := AddNumberToObject_spec fails hr₃ hroot₃
    (bytes "MSGTYPE") ((1 : Nat) : D)
  have hroot₄ := ha₄ _ hroot₃
  obtain ⟨s₅, h₅, hr₅, ha₅⟩ := AddNumberToObject_spec fails hr₄ hroot₄
    (bytes "DEVTYPE") ((0 : Nat) : D)
  have hdata₅ := ha₅ _ (ha₄ _ (ha₃ _ (ha₂ _ (ha₁ _ hdata))))
  -- the data, which changes owner or not, and its number
  obtain ⟨s₆, h₆, hr₆, ha₆⟩ := Items.AddItemToObject_spec hr₅
    (fails (.strdup (bytes "DATA"))) (bytes "DATA")
  obtain ⟨s₇, h₇, hr₇, -⟩ := AddNumberToObject_spec fails hr₆
    (ha₆ _ hdata₅) (bytes "CMDID") ((2 : Nat) : D)
  obtain ⟨p, hp, hnone⟩ := Items.Print_spec hr₇ (fails .Print)
  obtain ⟨s₈, h₈, hr₈⟩ := Items.Delete_spec hr₇
  refine ⟨p, s₈, ?_, hnone, hr₈⟩
  rw [fill, h₁, Option.bind_eq_bind, Option.bind_some, h₂, Option.bind_some, h₃, Option.bind_some,
    h₄, Option.bind_some, h₅, Option.bind_some, h₆, Option.bind_some, h₇, Option.bind_some, hp,
    Option.bind_eq_bind, Option.bind_some, h₈, Option.bind_some]

/-- The calls that have to succeed for there to be a text, and nothing else
left. -/
def Sound (fails : JsonCall → Bool) : Prop :=
  fails .CreateRoot = false ∧ fails .CreateData = false ∧
    fails (.strdup (bytes "DATA")) = false ∧ fails .Print = false

theorem xintiao_spec (h : Roots s as) (fails : JsonCall → Bool) (UUID : Option (List UInt8)) :
    ∃ p s' left, xintiao fails UUID s = some (p, s') ∧ Roots s' (left ++ as) ∧
      (p ≠ none ∧ left = [] ↔ Sound fails) := by
  unfold xintiao Items.CreateObject Sound
  cases fails .CreateRoot with
  | true =>
      cases fails .CreateData with
      | true => exact ⟨none, s, [], rfl, h, by simp⟩
      | false => exact ⟨none, s.new .object, [s.made], rfl, h.new _, by simp⟩
  | false =>
      cases fails .CreateData with
      | true => exact ⟨none, s.new .object, [s.made], rfl, h.new _, by simp⟩
      | false =>
          have hnew : Roots ((s.new .object).new .object) (s.made :: (s.new .object).made :: as) :=
            ((h.new _).new _).perm (.swap ..)
          obtain ⟨p, s', hfill, hnone, hroots⟩ := fill_spec fails hnew UUID
          cases hadd : fails (.strdup (bytes "DATA")) with
          | true =>
              rw [if_pos hadd] at hroots
              exact ⟨p, s', [(s.new .object).made], hfill, hroots, by simp⟩
          | false =>
              rw [if_neg (by rw [hadd]; exact Bool.false_ne_true)] at hroots
              exact ⟨p, s', [], hfill, hroots, by simp [hnone]⟩

variable {cJSON_Parse : List UInt8 → Option (CJson D × Nat)} {md : MQTTData}

/-- The text is an object with a `MSGID`, and memory is there for it. -/
def Asks (fails : JsonCall → Bool) (cJSON_Parse : List UInt8 → Option (CJson D × Nat))
    (md : MQTTData) : Prop :=
  fails .Parse = false ∧ ∃ item stop pSub, cJSON_Parse md.msg = some (item, stop) ∧
    item.GetObjectItem (bytes "MSGID") = some pSub

theorem process_spec (fails : JsonCall → Bool)
    (cJSON_Parse : List UInt8 → Option (CJson D × Nat)) (md : MQTTData) :
    ∃ calls s left, process fails cJSON_Parse md = some (calls, s) ∧ Roots s left ∧
      ((∀ str ∈ calls, str ≠ none) ∧ left = [] ↔ (Asks fails cJSON_Parse md → Sound fails)) := by
  unfold process Asks
  cases fails .Parse with
  | true => exact ⟨[], .empty, [], rfl, .empty, by simp⟩
  | false =>
      rw [if_neg Bool.false_ne_true]
      cases cJSON_Parse md.msg with
      | none => exact ⟨[], .empty, [], rfl, .empty, by simp⟩
      | some r =>
          obtain ⟨item, stop⟩ := r
          have hparsed : Roots (Nodes.empty.new (.parsed item) : Items D) [0] := Roots.empty.new _
          dsimp only
          cases hsub : item.GetObjectItem (bytes "MSGID") with
          | none =>
              obtain ⟨s, hdelete, hroots⟩ := Items.Delete_spec hparsed
              refine ⟨[], s, [], ?_, hroots, by simp [hsub]⟩
              dsimp only
              rw [hdelete, Option.bind_eq_bind, Option.bind_some]
          | some pSub =>
              obtain ⟨p, s', left, hxintiao, hroots, hsound⟩ :=
                xintiao_spec hparsed fails pSub.valuestring
              obtain ⟨s, hdelete, hroots⟩ := Items.Delete_spec (hroots.perm List.perm_append_comm)
              refine ⟨[p], s, left, ?_, hroots, ?_⟩
              · dsimp only
                rw [hxintiao, Option.bind_eq_bind, Option.bind_some, Option.bind_eq_bind]
                dsimp only
                rw [hdelete, Option.bind_some]
              · rw [List.forall_mem_singleton, hsound]
                constructor
                · intro hs _
                  exact hs
                · intro hs
                  exact hs ⟨rfl, item, stop, pSub, rfl, hsub⟩

/-- No call of `pubmsg` with `NULL`, and every item deleted exactly once at the
end. -/
def Survives (fails : JsonCall → Bool) (cJSON_Parse : List UInt8 → Option (CJson D × Nat))
    (md : MQTTData) : Prop :=
  ∃ calls s, process fails cJSON_Parse md = some (calls, s) ∧ (∀ str ∈ calls, str ≠ none) ∧
    ∀ t < s.made, s.freed t = 1

/-- If `xintiao` is not called, nothing is left. If it is, a text is published
and nothing is left exactly if both objects could be made, the data could be
added, and the text could be printed. -/
theorem process_survives_iff (fails : JsonCall → Bool)
    (cJSON_Parse : List UInt8 → Option (CJson D × Nat)) (md : MQTTData) :
    Survives fails cJSON_Parse md ↔ (Asks fails cJSON_Parse md → Sound fails) := by
  obtain ⟨calls, s, left, hprocess, hroots, hiff⟩ := process_spec fails cJSON_Parse md
  rw [← hiff, ← hroots.freed_once]
  constructor
  · intro h
    obtain ⟨calls', s', hprocess', hsurvives⟩ := h
    rw [hprocess] at hprocess'
    cases hprocess'
    exact hsurvives
  · intro h
    exact ⟨calls, s, hprocess, h⟩

/-- A request comes in, and there is no memory for the text of the answer:
`pubmsg` is called with `NULL`. -/
theorem process_no_text :
    ¬ ∀ (fails : JsonCall → Bool) (cJSON_Parse : List UInt8 → Option (CJson Nat × Nat))
      (md : MQTTData), Survives fails cJSON_Parse md := by
  intro h
  obtain ⟨calls, s, hprocess, hnone, -⟩ := h (fun call => call = .Print)
    (fun _ => some (.object [(bytes "MSGID", .string (bytes "1"))], 13))
    ⟨bytes "(null)", bytes "\x7b\"MSGID\":\"1\"\x7d"⟩
  cases hprocess
  exact hnone none List.mem_cons_self rfl

/-- With memory for everything, what is published is what it was without
asking. -/
theorem process_enough :
    (process (fun _ => false) cJSON_Parse md).map Prod.fst =
      some ((md.process cJSON_Parse).toList.map some) := by
  rw [process, if_neg Bool.false_ne_true, MQTTData.process]
  cases cJSON_Parse md.msg with
  | none => rfl
  | some r =>
      obtain ⟨item, stop⟩ := r
      simp only [Option.bind_eq_bind, Option.bind_some]
      cases item.GetObjectItem (bytes "MSGID") with
      | none => rfl
      | some pSub =>
          dsimp only
          rw [Option.bind_some pSub]
          cases pSub.valuestring with
          | none => rfl
          | some id => rfl

end Alloc

end IotCamera
