import IotCamera.Json.Heap
import IotCamera.Mqtt.Process

/-!
# Requests when memory runs out

`xintiao` and `process` once more, with the items in memory and every call of
the library that makes something free to fail. A run is given the calls that
fail; each of them is made at most once, so it is enough to say which they
are. The calls of `pubmsg` are kept with their argument, which is what
`xintiao` returns and may be `NULL`, and the memory is kept as `process`
leaves it.

`pubmsg` takes the length of its argument as soon as there is a connection.
`process` has no `return` at its end and is taken to return there.
-/

namespace IotCamera

open CString

variable {D : Type} [NatCast D]

/-- The calls that can fail. Making a member and copying its name are two of
them, and go by the name of the member. -/
inductive JsonCall
  | Parse
  | CreateRoot
  | CreateData
  | CreateItem (name : List UInt8)
  | strdup (name : List UInt8)
  | Print
  deriving DecidableEq

namespace Alloc

variable (fails : JsonCall → Bool)

def AddStringToObject (object : Nat) (name : List UInt8) (string : Option (List UInt8))
    (s : Items D) : Option (Items D) :=
  s.AddStringToObject (fails (.CreateItem name)) (fails (.strdup name)) object name string

def AddNumberToObject (object : Nat) (name : List UInt8) (number : D) (s : Items D) :
    Option (Items D) :=
  s.AddNumberToObject (fails (.CreateItem name)) (fails (.strdup name)) object name number

/-- The rest of `xintiao`, once both objects are there. The root is deleted
whether there is a text or not. -/
def fill (UUID : Option (List UInt8)) (pJsonRoot pJsonData : Nat) (s : Items D) :
    Option (Option (CJson D) × Items D) := do
  let s ← AddStringToObject fails pJsonRoot (bytes "DEVID") (some devId) s
  let s ← AddStringToObject fails pJsonRoot (bytes "MSGID") UUID s
  let s ← AddStringToObject fails pJsonRoot (bytes "TIME") (some []) s
  let s ← AddNumberToObject fails pJsonRoot (bytes "MSGTYPE") ((1 : Nat) : D) s
  let s ← AddNumberToObject fails pJsonRoot (bytes "DEVTYPE") ((0 : Nat) : D) s
  let s ← s.AddItemToObject (fails (.strdup (bytes "DATA"))) pJsonRoot (bytes "DATA")
    (some pJsonData)
  let s ← AddNumberToObject fails pJsonData (bytes "CMDID") ((2 : Nat) : D) s
  let p ← s.Print (fails .Print) pJsonRoot
  let s ← s.Delete (some pJsonRoot)
  some (p, s)

/-- What is returned, and the memory. -/
def xintiao (UUID : Option (List UInt8)) (s : Items D) :
    Option (Option (CJson D) × Items D) :=
  let (pJsonRoot, s) := s.CreateObject (fails .CreateRoot)
  let (pJsonData, s) := s.CreateObject (fails .CreateData)
  match pJsonRoot with
  | none => some (none, s)
  | some pJsonRoot =>
      match pJsonData with
      | none => some (none, s)
      | some pJsonData => fill fails UUID pJsonRoot pJsonData s

/-- The arguments of the calls of `pubmsg`, and the memory. -/
def process (cJSON_Parse : List UInt8 → Option (CJson D × Nat)) (md : MQTTData) :
    Option (List (Option (CJson D)) × Items D) :=
  match if fails .Parse then none else cJSON_Parse md.msg with
  | none => some ([], .empty)
  | some (item, _) =>
      let s : Items D := Nodes.empty.new (.parsed item)
      let pJson := some 0
      match item.GetObjectItem (bytes "MSGID") with
      | none => do
          let s ← s.Delete pJson
          some ([], s)
      | some pSub => do
          let (str, s) ← xintiao fails pSub.valuestring s
          let s ← s.Delete pJson
          some ([str], s)

end Alloc

end IotCamera
