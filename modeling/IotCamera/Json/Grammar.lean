import IotCamera.Json.Print

/-!
# What JSON text means

The texts that a printed item is, and the texts that are to be read as an
item, apart from buffers, offsets and memory.

`text` is what the print of an item is meant to be. `Value n item t` says that
`t` is a JSON text of `item`, with brackets nested no deeper than `n`; it is
the standard's notion of it, so that the white space is the standard's and not
what this parser takes for white space, and a string may spell its characters
in any of the ways there are. Two things are ours. Numbers are whatever
`strtod` reads as a whole, and a string has no zero byte in it, since what is
read is a C string.

A number that is printed is read back as what its text says, not always as
the number it was: that is `reread`. One that is not finite comes back as
`null`.
-/

namespace IotCamera

open CString

variable {D : Type} (dbl : Doubles D)

/-! ## The print of an item -/

/-- The text of a number. -/
def numeral (d : D) : List UInt8 :=
  if dbl.notFinite d then bytes "null"
  else
    match dbl.sscanf (dbl.sprintf 15 d) with
    | none => dbl.sprintf 17 d
    | some test => if dbl.compare_double test d then dbl.sprintf 15 d else dbl.sprintf 17 d

def quoted (s : List UInt8) : List UInt8 := ch '"' :: s.flatMap escaped ++ [ch '"']

variable (format : Bool)

mutual

/-- At this depth, which is how far the lines of an object are indented. -/
def text : Nat → CJson D → List UInt8
  | _, .null => bytes "null"
  | _, .false => bytes "false"
  | _, .true => bytes "true"
  | _, .number valuedouble => numeral dbl valuedouble
  | _, .string valuestring => quoted valuestring
  | depth, .array child => ch '[' :: textElements (depth + 1) child ++ [ch ']']
  | depth, .object child =>
      ch '{' :: formatted format [10] ++ textMembers (depth + 1) child ++
        formatted format (tabs depth) ++ [ch '}']

def textElements : Nat → List (CJson D) → List UInt8
  | _, [] => []
  | depth, item :: next =>
      text depth item ++ (if next.isEmpty then [] else ch ',' :: formatted format [ch ' ']) ++
        textElements depth next

def textMembers : Nat → List (List UInt8 × CJson D) → List UInt8
  | _, [] => []
  | depth, (string, item) :: next =>
      formatted format (tabs depth) ++ quoted string ++ ch ':' :: formatted format [9] ++
        text depth item ++ (if next.isEmpty then [] else [ch ',']) ++ formatted format [10] ++
        textMembers depth next

end

/-! ## The texts of an item -/

def whiteSpace : List UInt8 := [9, 10, 13, ch ' ']

/-- Nothing but white space. -/
def Ws (w : List UInt8) : Prop := ∀ b ∈ w, b ∈ whiteSpace

structure Numeral (d : D) (t : List UInt8) : Prop where
  chars : ∀ b ∈ t, numberChar b
  head : ∃ b ∈ t.head?, b = ch '-' ∨ isdigit b
  /-- the part of it that is looked at -/
  length_le : t.length ≤ 63
  read : dbl.strtod t = some (d, t.length)

/-- The characters with escapes of their own, by what is behind the
backslash. -/
def shortEscapes : List (UInt8 × UInt8) :=
  [(ch '"', ch '"'), (ch '\\', ch '\\'), (ch '/', ch '/'), (ch 'b', 8), (ch 'f', 12),
    (ch 'n', 10), (ch 'r', 13), (ch 't', 9)]

/-- A hexadecimal digit, in either case. -/
def HexDigit (b : UInt8) (n : Nat) : Prop :=
  (bytes "0123456789abcdef")[n]? = some b ∨ (bytes "0123456789ABCDEF")[n]? = some b

/-- Four of them. -/
inductive Hex4 : List UInt8 → Nat → Prop
  | digits {a b c d : UInt8} {k l m n : Nat} : HexDigit a k → HexDigit b l → HexDigit c m →
      HexDigit d n → Hex4 [a, b, c, d] (((k * 16 + l) * 16 + m) * 16 + n)

/-- What stands for a string between its quotes. -/
inductive Chars : List UInt8 → List UInt8 → Prop
  | nil : Chars [] []
  | plain {b : UInt8} {s t : List UInt8} (hctl : 31 < b) (hquote : b ≠ ch '"')
      (hslash : b ≠ ch '\\') : Chars s t → Chars (b :: s) (b :: t)
  | escape {e b : UInt8} {s t : List UInt8} : (e, b) ∈ shortEscapes → Chars s t →
      Chars (b :: s) (ch '\\' :: e :: t)
  | unicode {c : Char} {x s t : List UInt8} : c.toNat < 0x10000 → Hex4 x c.toNat → Chars s t →
      Chars (String.utf8EncodeChar c ++ s) (ch '\\' :: ch 'u' :: x ++ t)
  | surrogates {c : Char} {x y s t : List UInt8} : 0x10000 ≤ c.toNat →
      Hex4 x (0xD800 + (c.toNat - 0x10000) / 0x400) →
      Hex4 y (0xDC00 + (c.toNat - 0x10000) % 0x400) → Chars s t →
      Chars (String.utf8EncodeChar c ++ s)
        (ch '\\' :: ch 'u' :: x ++ ch '\\' :: ch 'u' :: y ++ t)

structure StringText (s t : List UInt8) : Prop where
  zero : 0 ∉ s
  chars : ∃ u, Chars s u ∧ t = ch '"' :: u ++ [ch '"']

section

variable {α : Type} (Item : α → List UInt8 → Prop)

/-- Texts with white space around them and commas between them. -/
inductive Separated : List α → List UInt8 → Prop
  | last {a : α} {w t w' : List UInt8} : Ws w → Item a t → Ws w' →
      Separated [a] (w ++ t ++ w')
  | cons {a : α} {as : List α} {w t w' u : List UInt8} : Ws w → Item a t → Ws w' →
      Separated as u → Separated (a :: as) (w ++ t ++ w' ++ ch ',' :: u)

/-- What is between a pair of brackets. -/
def Bracketed (items : List α) (t : List UInt8) : Prop :=
  items = [] ∧ Ws t ∨ Separated Item items t

end

/-- A name with its value. -/
inductive MemberText (Item : CJson D → List UInt8 → Prop) :
    List UInt8 × CJson D → List UInt8 → Prop
  | mk {string : List UInt8} {item : CJson D} {s w w' t : List UInt8} : StringText string s →
      Ws w → Ws w' → Item item t → MemberText Item (string, item) (s ++ w ++ ch ':' :: w' ++ t)

/-- A text of an item, if it is said what the texts one level further in
are. -/
inductive ValueText (Inner : Option (CJson D → List UInt8 → Prop)) : CJson D → List UInt8 → Prop
  | null : ValueText Inner .null (bytes "null")
  | false : ValueText Inner .false (bytes "false")
  | true : ValueText Inner .true (bytes "true")
  | number {d : D} {t : List UInt8} : Numeral dbl d t → ValueText Inner (.number d) t
  | string {s t : List UInt8} : StringText s t → ValueText Inner (.string s) t
  | array {R : CJson D → List UInt8 → Prop} {child : List (CJson D)} {u : List UInt8} :
      Inner = some R → Bracketed R child u →
      ValueText Inner (.array child) (ch '[' :: u ++ [ch ']'])
  | object {R : CJson D → List UInt8 → Prop} {child : List (List UInt8 × CJson D)}
      {u : List UInt8} : Inner = some R → Bracketed (MemberText R) child u →
      ValueText Inner (.object child) (ch '{' :: u ++ [ch '}'])

/-- A text of an item, with brackets nested no deeper than this. -/
def Value : Nat → CJson D → List UInt8 → Prop
  | 0 => ValueText dbl none
  | n + 1 => ValueText dbl (some (Value n))

/-! ## Items -/

/-- Brackets nested no deeper than this, and strings that are C strings. -/
inductive Printable : Nat → CJson D → Prop
  | null {n : Nat} : Printable n .null
  | false {n : Nat} : Printable n .false
  | true {n : Nat} : Printable n .true
  | number {n : Nat} {d : D} : Printable n (.number d)
  | string {n : Nat} {s : List UInt8} : 0 ∉ s → Printable n (.string s)
  | array {n : Nat} {child : List (CJson D)} : (∀ item ∈ child, Printable n item) →
      Printable (n + 1) (.array child)
  | object {n : Nat} {child : List (List UInt8 × CJson D)} : (∀ m ∈ child, 0 ∉ m.1) →
      (∀ m ∈ child, Printable n m.2) → Printable (n + 1) (.object child)

/-- What `sprintf` prints of a finite number can be read. -/
def Doubles.Legible (dbl : Doubles D) : Prop :=
  ∀ d, dbl.notFinite d = false → ∀ p, p = 15 ∨ p = 17 → ∃ d', Numeral dbl d' (dbl.sprintf p d)

/-- What there is to know of fifteen digits and of seventeen: the first are
kept by reading and printing, and the second tell a number from every other. -/
structure Doubles.Exact (dbl : Doubles D) : Prop where
  legible : dbl.Legible
  /-- what has been printed reads as one number -/
  sscanf_eq : ∀ p d, dbl.notFinite d = false →
    dbl.sscanf (dbl.sprintf p d) = (dbl.strtod (dbl.sprintf p d)).map Prod.fst
  compare_refl : ∀ d, dbl.notFinite d = false → dbl.compare_double d d = true
  finite_of_compare : ∀ a b, dbl.compare_double a b = true → dbl.notFinite b = false →
    dbl.notFinite a = false
  digits15 : ∀ d d' n, dbl.notFinite d = false → dbl.strtod (dbl.sprintf 15 d) = some (d', n) →
    dbl.notFinite d' = false → dbl.sprintf 15 d' = dbl.sprintf 15 d
  digits17 : ∀ d, dbl.notFinite d = false → ∃ n, dbl.strtod (dbl.sprintf 17 d) = some (d, n)

/-- A number as its text says it. -/
def Doubles.reread (dbl : Doubles D) (d : D) : D :=
  match dbl.strtod (numeral dbl d) with
  | none => d
  | some (d, _) => d

namespace CJson

mutual

/-- The item that the print of an item says. -/
def reread : CJson D → CJson D
  | .null => .null
  | .false => .false
  | .true => .true
  | .number valuedouble =>
      if dbl.notFinite valuedouble then .null else .number (dbl.reread valuedouble)
  | .string valuestring => .string valuestring
  | .array child => .array (rereadElements child)
  | .object child => .object (rereadMembers child)

def rereadElements : List (CJson D) → List (CJson D)
  | [] => []
  | item :: next => item.reread :: rereadElements next

def rereadMembers : List (List UInt8 × CJson D) → List (List UInt8 × CJson D)
  | [] => []
  | (name, item) :: next => (name, item.reread) :: rereadMembers next

end

end CJson

/-! ## Numbers of one digit -/

/-- A digit is printed as it is read. -/
def oneDigit : Doubles {b : UInt8 // isdigit b} where
  strtod
    | [] => none
    | b :: _ => if h : isdigit b then some (⟨b, h⟩, 1) else none
  notFinite _ := false
  sprintf _ d := [d.1]
  sscanf
    | [] => none
    | b :: _ => if h : isdigit b then some ⟨b, h⟩ else none
  compare_double a b := a = b
  strtod_pos := by
    intro s d n h
    cases s with
    | nil => cases h
    | cons b s =>
        simp only at h
        split at h <;> cases h
        exact Nat.one_pos
  strtod_le := by
    intro s d n h
    cases s with
    | nil => cases h
    | cons b s =>
        simp only at h
        split at h <;> cases h
        simp
  length_sprintf p d := by simp
  sprintf_zero p d := by
    intro h
    have hd := d.2
    rw [← List.mem_singleton.1 h] at hd
    cases hd

/-- The last digit. -/
instance digitCast : NatCast {b : UInt8 // isdigit b} where
  natCast n := ⟨UInt8.ofNat (48 + n % 10), by
    have hall : ∀ k < 10, isdigit (UInt8.ofNat (48 + k)) := by decide
    exact hall _ (Nat.mod_lt n (by decide))⟩

theorem oneDigit_strtod (d : {b : UInt8 // isdigit b}) : oneDigit.strtod [d.1] = some (d, 1) :=
  dif_pos d.2

theorem oneDigit_exact : oneDigit.Exact where
  legible d _ p _ :=
    ⟨d, fun b hb => by rw [List.mem_singleton.1 hb, numberChar, d.2]; rfl,
      ⟨d.1, rfl, .inr d.2⟩, show 1 ≤ 63 by decide, oneDigit_strtod d⟩
  sscanf_eq p d _ := by
    rw [show oneDigit.sprintf p d = [d.1] from rfl, oneDigit_strtod]
    exact dif_pos d.2
  compare_refl d _ := decide_eq_true rfl
  finite_of_compare a b _ h := h
  digits15 d d' n _ h _ := by
    rw [show oneDigit.sprintf 15 d = [d.1] from rfl, oneDigit_strtod] at h
    cases h
    rfl
  digits17 d _ := ⟨1, oneDigit_strtod d⟩

end IotCamera
