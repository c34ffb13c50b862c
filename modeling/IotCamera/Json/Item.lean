import IotCamera.Lib.CString

/-!
# JSON items

What the program uses of `cJSON.c`: items, looking a member up, and building
an object member by member. An item keeps its children in the order they were
added, and the children of an object have names. Strings are C strings, and
the numbers, which the C code keeps as doubles, are any type with the natural
numbers in it.

`cJSON_GetObjectItem` compares names without regard to case, and returns the
first member that matches. The case-sensitive lookup is its sibling; the
program does not call it, but it is what the name of a member means.
-/

namespace IotCamera

open CString

variable {D : Type}

/-- `cJSON`, as the parser and the constructors make it. -/
inductive CJson (D : Type)
  | false
  | true
  | null
  | number (valuedouble : D)
  | string (valuestring : List UInt8)
  | array (child : List (CJson D))
  | object (child : List (List UInt8 × CJson D))

/-- In the C locale. -/
def tolower (b : UInt8) : UInt8 := if 65 ≤ b && b ≤ 90 then b + 32 else b

/-- The strings end where the lists do. -/
def case_insensitive_strcmp : List UInt8 → List UInt8 → Int
  | [], [] => 0
  | a :: _, [] => (tolower a).toNat
  | [], b :: _ => -((tolower b).toNat : Int)
  | a :: string1, b :: string2 =>
      if tolower a = tolower b then case_insensitive_strcmp string1 string2
      else (tolower a).toNat - (tolower b).toNat

namespace CJson

/-- The children of an object; those of an array have no names. -/
def members : CJson D → List (List UInt8 × CJson D)
  | object child => child
  | _ => []

def GetObjectItem (item : CJson D) (string : List UInt8) : Option (CJson D) :=
  (item.members.find? fun c => case_insensitive_strcmp string c.1 = 0).map Prod.snd

def GetObjectItemCaseSensitive (item : CJson D) (string : List UInt8) : Option (CJson D) :=
  (item.members.find? fun c => c.1 = string).map Prod.snd

/-- The field `valuestring`, which is `NULL` in other items. -/
def valuestring : CJson D → Option (List UInt8)
  | string s => some s
  | _ => none

/-! ## Building an object

Objects under construction are their children. -/

variable (child : List (List UInt8 × CJson D)) (name : List UInt8)

def AddItemToObject (item : CJson D) : List (List UInt8 × CJson D) := child ++ [(name, item)]

/-- There is no item to add if the string is `NULL`. -/
def AddStringToObject (string : Option (List UInt8)) : List (List UInt8 × CJson D) :=
  match string with
  | none => child
  | some s => AddItemToObject child name (.string s)

def AddNumberToObject (number : D) : List (List UInt8 × CJson D) :=
  AddItemToObject child name (.number number)

end CJson

end IotCamera
