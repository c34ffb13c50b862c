import IotCamera.Json.Item
import IotCamera.Lib.Nodes

/-!
# JSON items in memory

`cJSON.c` keeps an item and its children in nodes of their own, and each of
the calls that make one can find no memory for it. A call is told here whether
it does: making an item fails as a whole, and what it had of it is freed on
the spot; taking a copy of the name fails in `add_item_to_object`, which then
leaves the object and the item as they are. What becomes of the item is up to
the caller. `cJSON_AddStringToObject` and `cJSON_AddNumberToObject` delete
their own; `cJSON_AddItemToObject`, which has no result, drops the answer.

The tree that the parser builds is kept whole in one node, since nothing is
taken out of it or added to it. A printed text is given as the item it is the
print of, as before. A use of an item that has been deleted has no result.
-/

namespace IotCamera

variable {D : Type}

/-- What a node holds beside its children. -/
inductive ItemValue (D : Type)
  | parsed (item : CJson D)
  | number (valuedouble : D)
  | string (valuestring : List UInt8)
  | object

abbrev Items (D : Type) := Nodes (ItemValue D) (List UInt8)

namespace Items

variable (s : Items D)

def CreateObject (fails : Bool) : Option Nat × Items D :=
  if fails then (none, s) else (some s.made, s.new .object)

/-- There is no copy of a `NULL`. -/
def CreateString (fails : Bool) (string : Option (List UInt8)) : Option Nat × Items D :=
  match string with
  | none => (none, s)
  | some string => if fails then (none, s) else (some s.made, s.new (.string string))

def CreateNumber (fails : Bool) (num : D) : Option Nat × Items D :=
  if fails then (none, s) else (some s.made, s.new (.number num))

def Delete (item : Option Nat) : Option (Items D) :=
  match item with
  | none => some s
  | some item => s.drop s.made item

/-- Whether the item was added. -/
def add_item_to_object (strdupFails : Bool) (object : Nat) (string : List UInt8)
    (item : Option Nat) : Option (Bool × Items D) :=
  match item with
  | none => some (false, s)
  | some item =>
      if strdupFails then some (false, s)
      else (s.link object string item).map fun s => (true, s)

def AddItemToObject (strdupFails : Bool) (object : Nat) (string : List UInt8)
    (item : Option Nat) : Option (Items D) :=
  (s.add_item_to_object strdupFails object string item).map Prod.snd

/-- The end of the functions that add an item they have made. -/
def AddOrDelete (strdupFails : Bool) (object : Nat) (name : List UInt8) (item : Option Nat) :
    Option (Items D) := do
  let (added, s) ← s.add_item_to_object strdupFails object name item
  if added then some s else s.Delete item

def AddStringToObject (createFails strdupFails : Bool) (object : Nat) (name : List UInt8)
    (string : Option (List UInt8)) : Option (Items D) :=
  let (string_item, s) := s.CreateString createFails string
  AddOrDelete s strdupFails object name string_item

def AddNumberToObject (createFails strdupFails : Bool) (object : Nat) (name : List UInt8)
    (number : D) : Option (Items D) :=
  let (number_item, s) := s.CreateNumber createFails number
  AddOrDelete s strdupFails object name number_item

/-- The item that a node with these children stands for. -/
def printed : ItemValue D → List (List UInt8 × CJson D) → CJson D
  | .parsed item, _ => item
  | .number valuedouble, _ => .number valuedouble
  | .string valuestring, _ => .string valuestring
  | .object, child => .object child

def Print (fails : Bool) (item : Nat) : Option (Option (CJson D)) :=
  if fails then some none else (s.fold printed s.made item).map some

end Items

end IotCamera
