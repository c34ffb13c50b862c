import IotCamera.Json.Parse
import IotCamera.Lib.Fallible

/-!
# Printing JSON

`cJSON_Print` and its siblings. A text is put together in a buffer that is
asked to hold so and so much more, and then is filled. It grows if it may,
and if there is memory for it. The functions below return `false` by failing,
and the buffer they leave is still there for whoever called. Writing outside
of the buffer has no result, and neither has looking for the end of a text
that has none.

What `malloc` finds is up to it, and so is what the memory holds that it
finds. The calls are counted, and so are the blocks that have not been freed.
The hooks are the ones the library starts with, or others without a
`reallocate`.
-/

namespace IotCamera

open CString

variable {D : Type}

def INT_MAX : Nat := 2147483647

/-- `internal_hooks`, and what they do. -/
structure InternalHooks where
  /-- the bytes of the block that a call is answered with, if it is -/
  allocate : Nat → (size : Nat) → Option (Vector UInt8 size)
  /-- whether `reallocate` is set -/
  reallocate : Bool

/-- Memory is found, and filled with zeros. -/
def InternalHooks.plain : InternalHooks where
  allocate _ size := some (Vector.replicate size 0)
  reallocate := true

structure Printbuffer where
  buffer : Option (List UInt8)
  length : Nat
  offset : Nat
  depth : Nat
  noalloc : Bool
  format : Bool
  /-- the calls of the allocator so far -/
  calls : Nat
  /-- the blocks that are allocated -/
  live : Nat

/-- A block of the first `n` bytes of another, and whatever is behind them. -/
def regrown (buffer : List UInt8) (n : Nat) {size : Nat} (block : Vector UInt8 size) :
    List UInt8 :=
  (buffer.take n ++ block.toList.drop n).take size

section

variable (hooks : InternalHooks)

/-- The end of `ensure`: a buffer of the new size. -/
def grow (newsize : Nat) (buffer : List UInt8) : Fallible Printbuffer Unit := fun p =>
  match hooks.allocate p.calls newsize with
  | none =>
      some (none, { p with buffer := none, length := 0, calls := p.calls + 1, live := p.live - 1 })
  | some block =>
      if hooks.reallocate then
        some (some (), { p with
          buffer := some (regrown buffer buffer.length block)
          length := newsize
          calls := p.calls + 1 })
      else if p.offset + 1 ≤ buffer.length ∧ p.offset + 1 ≤ newsize then
        some (some (), { p with
          buffer := some (regrown buffer (p.offset + 1) block)
          length := newsize
          calls := p.calls + 1 })
      else none

/-- It fails where the source returns `NULL`. -/
def ensure (needed : Nat) : Fallible Printbuffer Unit := do
  let p ← Fallible.get
  match p.buffer with
  | none => Fallible.fail
  | some buffer =>
      if 0 < p.length ∧ p.length ≤ p.offset then Fallible.fail
      else if INT_MAX < needed then Fallible.fail
      else
        let needed := needed + (p.offset + 1)
        if needed ≤ p.length then pure ()
        else if p.noalloc then Fallible.fail
        else if INT_MAX / 2 < needed then
          if needed ≤ INT_MAX then grow hooks INT_MAX buffer else Fallible.fail
        else grow hooks (needed * 2) buffer

/-- A change of the buffer. -/
def store (f : Nat → List UInt8 → Option (List UInt8)) : Fallible Printbuffer Unit := fun p => do
  let buffer ← p.buffer
  let buffer ← f p.offset buffer
  some (some (), { p with buffer := some buffer })

/-- Asks for the room, fills it and goes on by `length`. -/
def emit (needed : Nat) (bs : List UInt8) (length : Nat) : Fallible Printbuffer Unit := do
  ensure hooks needed
  store fun offset buffer => putBytes buffer offset bs
  Fallible.modify fun p => { p with offset := p.offset + length }

/-- To the end of the text in the buffer. -/
def update_offset : Fallible Printbuffer Unit := fun p =>
  match p.buffer with
  | none => some (some (), p)
  | some buffer =>
      (str (buffer.drop p.offset)).map fun s =>
        (some (), { p with offset := p.offset + s.length })

/-! ## Numbers and strings -/

/-- What is in `number_buffer` when its length is looked at. -/
def numberBuffer (dbl : Doubles D) (d : D) : Option (List UInt8) :=
  if dbl.notFinite d then fits 26 (bytes "null")
  else do
    let number_buffer ← fits 26 (dbl.sprintf 15 d)
    match dbl.sscanf number_buffer with
    | none => fits 26 (dbl.sprintf 17 d)
    | some test =>
        if dbl.compare_double test d then some number_buffer else fits 26 (dbl.sprintf 17 d)

def print_number (dbl : Doubles D) (d : D) : Fallible Printbuffer Unit := do
  let number_buffer ← Fallible.lift (numberBuffer dbl d)
  Fallible.when (25 < number_buffer.length) Fallible.fail
  emit hooks (number_buffer.length + 1) (number_buffer ++ [0]) number_buffer.length

/-- What escaping adds to a character. -/
def escapeExtra (b : UInt8) : Nat :=
  if b = ch '"' ∨ b = ch '\\' ∨ b = 8 ∨ b = 12 ∨ b = 10 ∨ b = 13 ∨ b = 9 then 1
  else if b < 32 then 5 else 0

/-- The loop that counts the additional characters. -/
def escape_characters : List UInt8 → Nat
  | [] => 0
  | b :: input => escapeExtra b + escape_characters input

/-- A digit of `"%04x"`. -/
def hexChar (n : Nat) : UInt8 := if n < 10 then UInt8.ofNat (48 + n) else UInt8.ofNat (87 + n)

/-- The bytes that stand for a character, without the zero byte that `sprintf`
puts behind them. -/
def escaped (b : UInt8) : List UInt8 :=
  if 31 < b ∧ b ≠ ch '"' ∧ b ≠ ch '\\' then [b]
  else if b = ch '\\' then [ch '\\', ch '\\']
  else if b = ch '"' then [ch '\\', ch '"']
  else if b = 8 then [ch '\\', ch 'b']
  else if b = 12 then [ch '\\', ch 'f']
  else if b = 10 then [ch '\\', ch 'n']
  else if b = 13 then [ch '\\', ch 'r']
  else if b = 9 then [ch '\\', ch 't']
  else [ch '\\', ch 'u', ch '0', ch '0', hexChar (b.toNat / 16), hexChar (b.toNat % 16)]

/-- The loop that copies the string; `sprintf` ends what it prints. -/
def escapeLoop : List UInt8 → Nat → List UInt8 → Option (List UInt8)
  | [], _, buffer => some buffer
  | b :: input, output_pointer, buffer => do
      let buffer ← putBytes buffer output_pointer
        (if (escaped b).length = 6 then escaped b ++ [0] else escaped b)
      escapeLoop input (output_pointer + (escaped b).length) buffer

def print_string_ptr (input : Option (List UInt8)) : Fallible Printbuffer Unit :=
  match input with
  | none => emit hooks 3 [ch '"', ch '"', 0] 0
  | some input => do
      let output_length := input.length + escape_characters input
      ensure hooks (output_length + 3)
      if escape_characters input = 0 then
        store fun output buffer => putBytes buffer output (ch '"' :: input ++ [ch '"', 0])
      else
        store fun output buffer => do
          let buffer ← putBytes buffer output [ch '"']
          let buffer ← escapeLoop input (output + 1) buffer
          putBytes buffer (output + output_length + 1) [ch '"', 0]

/-! ## Values -/

/-- What is printed only in a formatted print. -/
def formatted (format : Bool) (bs : List UInt8) : List UInt8 := if format then bs else []

@[simp] theorem formatted_true {bs : List UInt8} : formatted true bs = bs := rfl

@[simp] theorem formatted_false {bs : List UInt8} : formatted false bs = [] := rfl

def tabs (n : Nat) : List UInt8 := List.replicate n 9

/-- The end of `print_object`. -/
def closeObject : Fallible Printbuffer Unit := do
  let p ← Fallible.get
  if p.format then emit hooks (p.depth + 1) (tabs (p.depth - 1) ++ [ch '}', 0]) 0
  else emit hooks 2 [ch '}', 0] 0

variable (dbl : Doubles D)

mutual

def print_value : CJson D → Fallible Printbuffer Unit
  | .null => emit hooks 5 (bytes "null" ++ [0]) 0
  | .false => emit hooks 6 (bytes "false" ++ [0]) 0
  | .true => emit hooks 5 (bytes "true" ++ [0]) 0
  | .number valuedouble => print_number hooks dbl valuedouble
  | .string valuestring => print_string_ptr hooks (some valuestring)
  | .array child => do
      emit hooks 1 [ch '['] 1
      Fallible.modify fun p => { p with depth := p.depth + 1 }
      printElements child
      emit hooks 2 [ch ']', 0] 0
      Fallible.modify fun p => { p with depth := p.depth - 1 }
  | .object child => do
      let p ← Fallible.get
      let opening := ch '{' :: formatted p.format [10]
      emit hooks (opening.length + 1) opening opening.length
      Fallible.modify fun p => { p with depth := p.depth + 1 }
      printMembers child
      closeObject hooks
      Fallible.modify fun p => { p with depth := p.depth - 1 }

/-- The loop of `print_array`. -/
def printElements : List (CJson D) → Fallible Printbuffer Unit
  | [] => pure ()
  | current_element :: next => do
      print_value current_element
      update_offset
      let p ← Fallible.get
      let comma := ch ',' :: formatted p.format [ch ' ']
      Fallible.when (!next.isEmpty) (emit hooks (comma.length + 1) (comma ++ [0]) comma.length)
      printElements next

/-- The loop of `print_object`. -/
def printMembers : List (List UInt8 × CJson D) → Fallible Printbuffer Unit
  | [] => pure ()
  | (string, current_item) :: next => do
      let p ← Fallible.get
      Fallible.when p.format (emit hooks p.depth (tabs p.depth) p.depth)
      print_string_ptr hooks (some string)
      update_offset
      let colon := ch ':' :: formatted p.format [9]
      emit hooks colon.length colon colon.length
      print_value current_item
      update_offset
      let comma := (if next.isEmpty then [] else [ch ',']) ++ formatted p.format [10]
      emit hooks (comma.length + 1) (comma ++ [0]) comma.length
      printMembers next

end

/-! ## The functions of the interface

Each says what it returns, and how many blocks are then allocated. -/

/-- The buffer that printing starts with. -/
def Printbuffer.start (buffer : List UInt8) (noalloc format : Bool) (calls live : Nat) :
    Printbuffer where
  buffer := some buffer
  length := buffer.length
  offset := 0
  depth := 0
  noalloc := noalloc
  format := format
  calls := calls
  live := live

/-- The end of `print`: a block that is no larger than the text. -/
def Printbuffer.printed (p : Printbuffer) : Option (Option (List UInt8) × Nat) := do
  let buffer ← p.buffer
  match hooks.allocate p.calls (p.offset + 1) with
  | none => some (none, p.live - 1)
  | some block =>
      if hooks.reallocate then some (some (regrown buffer buffer.length block), p.live)
      else
        let printed := regrown buffer (min p.length (p.offset + 1)) block
        (putBytes printed p.offset [0]).map fun printed => (some printed, p.live)

def print (item : CJson D) (format : Bool) : Option (Option (List UInt8) × Nat) :=
  match hooks.allocate 0 256 with
  | none => some (none, 0)
  | some block => do
      let print := do
        print_value hooks dbl item
        update_offset
      match print (Printbuffer.start block.toList false format 1 1) with
      | none => none
      | some (none, p) => some (none, if p.buffer.isSome then p.live - 1 else p.live)
      | some (some (), p) => p.printed hooks

def cJSON_Print (item : CJson D) : Option (Option (List UInt8) × Nat) := print hooks dbl item true

def cJSON_PrintUnformatted (item : CJson D) : Option (Option (List UInt8) × Nat) :=
  print hooks dbl item false

def cJSON_PrintBuffered (item : CJson D) (prebuffer : Int) (fmt : Bool) :
    Option (Option (List UInt8) × Nat) :=
  if prebuffer < 0 then some (none, 0)
  else
    match hooks.allocate 0 prebuffer.toNat with
    | none => some (none, 0)
    | some block =>
        match print_value hooks dbl item (Printbuffer.start block.toList false fmt 1 1) with
        | none => none
        | some (none, p) => some (none, if p.buffer.isSome then p.live - 1 else p.live)
        | some (some (), p) => some (p.buffer, p.live)

/-- Into a buffer of the caller: whether it worked, and what is then in it. -/
def cJSON_PrintPreallocated (item : CJson D) (buffer : List UInt8) (format : Bool) :
    Option (Bool × Option (List UInt8)) :=
  match print_value hooks dbl item (Printbuffer.start buffer true format 0 0) with
  | none => none
  | some (ok, p) => some (ok.isSome, p.buffer)

end

end IotCamera
