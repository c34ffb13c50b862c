import IotCamera.Json.Item

/-!
# Reading JSON

`cJSON_Parse` and what it is made of. A parse function works on a buffer, the
text with its zero byte, and on an offset into it. It comes to an item and the
offset behind it, or to a failure, and then the offset is where the text is
reported to be wrong. A byte is read with `content[i]?`, so that reading
outside of the buffer has no result; what a function puts into the memory it
has asked for is put there with `append`, which has no result either if there
is no room left. Memory itself is always found.

The recursion is on what is left of the nesting limit, since that is what
bounds it in the source. The loop over the elements of an array, or the
members of an object, has a budget of rounds besides; running out of it has no
result.

Numbers are doubles, and all that is done with them is done by the C library.
-/

namespace IotCamera

open CString

variable {D : Type}

/-- What the C library does with doubles, and `compare_double`, which is all
arithmetic. -/
structure Doubles (D : Type) where
  /-- the number at the front of a text, and how much of the text it takes up -/
  strtod : List UInt8 → Option (D × Nat)
  /-- `(d * 0) != 0`, for what is not a number or not finite -/
  notFinite : D → Bool
  /-- `"%1.15g"` or `"%1.17g"` -/
  sprintf : Nat → D → List UInt8
  /-- `"%lg"` -/
  sscanf : List UInt8 → Option D
  compare_double : D → D → Bool
  strtod_pos : ∀ {s d n}, strtod s = some (d, n) → 0 < n
  strtod_le : ∀ {s d n}, strtod s = some (d, n) → n ≤ s.length
  /-- a sign, the digits, a point and an exponent of three digits -/
  length_sprintf : ∀ p d, (sprintf p d).length ≤ p + 7
  sprintf_zero : ∀ p d, 0 ∉ sprintf p d

/-- What a parse function comes to. -/
inductive Parsed (α : Type)
  | done (item : α) (offset : Nat)
  | failed (offset : Nat)
  deriving DecidableEq

namespace Parsed

variable {α β : Type}

def map (f : α → β) : Parsed α → Parsed β
  | done item offset => done (f item) offset
  | failed offset => failed offset

/-- Where it leaves off. -/
def offset : Parsed α → Nat
  | done _ offset => offset
  | failed offset => offset

end Parsed

/-- Puts bytes behind those in a block of `size` bytes. -/
def append (size : Nat) (output bs : List UInt8) : Option (List UInt8) :=
  if output.length + bs.length ≤ size then some (output ++ bs) else none

def CJSON_NESTING_LIMIT : Nat := 1000

section

variable (content : List UInt8)

/-- At the end it goes back to the last byte. -/
def buffer_skip_whitespace (offset : Nat) : Nat :=
  let offset := offset + ((content.drop offset).takeWhile fun b => b ≤ 32).length
  if offset = content.length then offset - 1 else offset

/-- The text must go on for two bytes, the zero byte among them. -/
def skip_utf8_bom : Nat :=
  if 4 < content.length ∧ content.take 3 = [0xEF, 0xBB, 0xBF] then 3 else 0

/-! ## Numbers -/

/-- The characters that go into `number_c_string`. -/
def numberChar (b : UInt8) : Bool :=
  isdigit b || b = ch '+' || b = ch '-' || b = ch 'e' || b = ch 'E' || b = ch '.'

def parse_number (dbl : Doubles D) (offset : Nat) : Parsed D :=
  let number_c_string := ((content.drop offset).take 63).takeWhile numberChar
  match dbl.strtod number_c_string with
  | none => .failed offset
  | some (number, after_end) => .done number (offset + after_end)

/-! ## Strings -/

def hexDigit (b : UInt8) : Option Nat :=
  if isdigit b then some (b.toNat - 48)
  else if ch 'A' ≤ b && b ≤ ch 'F' then some (10 + b.toNat - 65)
  else if ch 'a' ≤ b && b ≤ ch 'f' then some (10 + b.toNat - 97)
  else none

/-- The rounds of `parse_hex4` that are left. It comes to 0 on what is not a
digit. -/
def hexRounds (h : Nat) : Nat → Nat → Option Nat
  | 0, _ => some h
  | rounds + 1, input => do
      let b ← content[input]?
      match hexDigit b with
      | none => some 0
      | some d => hexRounds (if rounds = 0 then h + d else (h + d) <<< 4) rounds (input + 1)

def parse_hex4 (input : Nat) : Option Nat := hexRounds content 0 4 input

/-- The bytes of a code point behind the first one, from the last to the
second, and what is left of it for the first. -/
def trailBytes (codepoint : Nat) (output : List UInt8) : Nat → Nat × List UInt8
  | 0 => (codepoint, output)
  | utf8_position + 1 =>
      trailBytes (codepoint >>> 6)
        (UInt8.ofNat ((codepoint ||| 0x80) &&& 0xBF) :: output) utf8_position

def utf8Bytes (utf8_length first_byte_mark codepoint : Nat) : List UInt8 :=
  let (codepoint, output) := trailBytes codepoint [] (utf8_length - 1)
  if 1 < utf8_length then UInt8.ofNat ((codepoint ||| first_byte_mark) &&& 0xFF) :: output
  else UInt8.ofNat (codepoint &&& 0x7F) :: output

/-- The encoding, if there is one. -/
def encodeUtf8 (codepoint : Nat) : Option (List UInt8) :=
  if codepoint < 0x80 then some (utf8Bytes 1 0 codepoint)
  else if codepoint < 0x800 then some (utf8Bytes 2 0xC0 codepoint)
  else if codepoint < 0x10000 then some (utf8Bytes 3 0xE0 codepoint)
  else if codepoint ≤ 0x10FFFF then some (utf8Bytes 4 0xF0 codepoint)
  else none

/-- The bytes that are written, and the `sequence_length`. -/
def utf16_literal_to_utf8 (input_pointer input_end : Nat) :
    Option (Option (List UInt8 × Nat)) := do
  if input_end - input_pointer < 6 then return none
  let first_code ← parse_hex4 content (input_pointer + 2)
  if 0xDC00 ≤ first_code ∧ first_code ≤ 0xDFFF then return none
  if 0xD800 ≤ first_code ∧ first_code ≤ 0xDBFF then
    let second_sequence := input_pointer + 6
    if input_end - second_sequence < 6 then return none
    if (← content[second_sequence]?) ≠ ch '\\' then return none
    if (← content[second_sequence + 1]?) ≠ ch 'u' then return none
    let second_code ← parse_hex4 content (second_sequence + 2)
    if second_code < 0xDC00 ∨ 0xDFFF < second_code then return none
    let codepoint := 0x10000 + (((first_code &&& 0x3FF) <<< 10) ||| (second_code &&& 0x3FF))
    return (encodeUtf8 codepoint).map fun bs => (bs, 12)
  return (encodeUtf8 first_code).map fun bs => (bs, 6)

/-- The first loop of `parse_string`: how far the closing quote is, and the
`skipped_bytes`. -/
def closingQuote : List UInt8 → Option (Nat × Nat)
  | [] => none
  | b :: rest =>
      if b = ch '"' then some (0, 0)
      else if b = ch '\\' then
        match rest with
        | [] => none
        | _ :: rest => (closingQuote rest).map fun r => (r.1 + 2, r.2 + 1)
      else (closingQuote rest).map fun r => (r.1 + 1, r.2)

/-- The escapes of one character. -/
def unescaped (b : UInt8) : Option UInt8 :=
  if b = ch 'b' then some 8
  else if b = ch 'f' then some 12
  else if b = ch 'n' then some 10
  else if b = ch 'r' then some 13
  else if b = ch 't' then some 9
  else if b = ch '"' ∨ b = ch '\\' ∨ b = ch '/' then some b
  else none

/-- The second loop of `parse_string`, which writes into a block of `size`
bytes. -/
def unescapeLoop (size input_end : Nat) :
    Nat → Nat → List UInt8 → Option (Parsed (List UInt8))
  | 0, input_pointer, output =>
      if input_end ≤ input_pointer then some (.done output input_pointer) else none
  | fuel + 1, input_pointer, output =>
      if input_end ≤ input_pointer then some (.done output input_pointer)
      else do
        let b ← content[input_pointer]?
        if b ≠ ch '\\' then
          let output ← append size output [b]
          unescapeLoop size input_end fuel (input_pointer + 1) output
        else
          let e ← content[input_pointer + 1]?
          if e = ch 'u' then
            match ← utf16_literal_to_utf8 content input_pointer input_end with
            | none => some (.failed input_pointer)
            | some (bs, sequence_length) =>
                let output ← append size output bs
                unescapeLoop size input_end fuel (input_pointer + sequence_length) output
          else
            match unescaped e with
            | none => some (.failed input_pointer)
            | some c =>
                let output ← append size output [c]
                unescapeLoop size input_end fuel (input_pointer + 2) output

/-- What is read of the string later ends at its first zero byte. -/
def parse_string (offset : Nat) : Option (Parsed (List UInt8)) := do
  let input_pointer := offset + 1
  if (← content[offset]?) ≠ ch '"' then return .failed input_pointer
  match closingQuote (content.drop input_pointer) with
  | none => return .failed input_pointer
  | some (distance, skipped_bytes) =>
      let input_end := input_pointer + distance
      let allocation_length := input_end - offset - skipped_bytes
      match ← unescapeLoop content (allocation_length + 1) input_end distance input_pointer [] with
      | .failed input_pointer => return .failed input_pointer
      | .done output _ =>
          let output ← append (allocation_length + 1) output [0]
          let valuestring ← str output
          return .done valuestring (input_end + 1)

/-! ## Values -/

/-- The loop of `parse_array` and `parse_object`, up to the closing bracket.
`one` parses what stands between the commas. -/
def parseItems {α : Type} (one : Nat → Option (Parsed α)) (close : UInt8) :
    Nat → Nat → Option (Parsed (List α))
  | 0, _ => none
  | fuel + 1, offset => do
      match ← one (buffer_skip_whitespace content (offset + 1)) with
      | .failed offset => return .failed offset
      | .done item offset =>
          let offset := buffer_skip_whitespace content offset
          if content[offset]? = some (ch ',') then
            let items ← parseItems one close fuel offset
            return items.map (item :: ·)
          else if content[offset]? = some close then return .done [item] (offset + 1)
          else return .failed offset

/-- What `parse_array` and `parse_object` do behind the opening bracket. -/
def parseBrackets {α : Type} (one : Nat → Option (Parsed α)) (close : UInt8) (offset : Nat) :
    Option (Parsed (List α)) :=
  let offset := buffer_skip_whitespace content (offset + 1)
  if content[offset]? = some close then some (.done [] (offset + 1))
  else if content.length ≤ offset then some (.failed (offset - 1))
  else parseItems content one close content.length (offset - 1)

/-- What parses the elements is not there if the nesting limit is reached. -/
def parse_array (parse_value : Option (Nat → Option (Parsed (CJson D)))) (offset : Nat) :
    Option (Parsed (CJson D)) :=
  match parse_value with
  | none => some (.failed offset)
  | some parse_value => do
      if (← content[offset]?) ≠ ch '[' then return .failed offset
      (parseBrackets content parse_value (ch ']') offset).map (Parsed.map .array)

/-- A name, a colon and a value. -/
def parseMember (parse_value : Nat → Option (Parsed (CJson D))) (offset : Nat) :
    Option (Parsed (List UInt8 × CJson D)) := do
  match ← parse_string content offset with
  | .failed offset => return .failed offset
  | .done string offset =>
      let offset := buffer_skip_whitespace content offset
      if content[offset]? ≠ some (ch ':') then return .failed offset
      (parse_value (buffer_skip_whitespace content (offset + 1))).map
        (Parsed.map fun item => (string, item))

def parse_object (parse_value : Option (Nat → Option (Parsed (CJson D)))) (offset : Nat) :
    Option (Parsed (CJson D)) :=
  match parse_value with
  | none => some (.failed offset)
  | some parse_value =>
      if content[offset]? ≠ some (ch '{') then some (.failed offset)
      else
        (parseBrackets content (parseMember content parse_value) (ch '}') offset).map
          (Parsed.map .object)

variable (dbl : Doubles D)

/-- The code of `parse_value`, with what it is one level further in. -/
def parseValueAround (inner : Option (Nat → Option (Parsed (CJson D)))) (offset : Nat) :
    Option (Parsed (CJson D)) :=
  let text := content.drop offset
  if text.take 4 = bytes "null" then some (.done .null (offset + 4))
  else if text.take 5 = bytes "false" then some (.done .false (offset + 5))
  else if text.take 4 = bytes "true" then some (.done .true (offset + 4))
  else
    match content[offset]? with
    | none => some (.failed offset)
    | some b =>
        if b = ch '"' then (parse_string content offset).map (Parsed.map .string)
        else if b = ch '-' || isdigit b then
          some ((parse_number content dbl offset).map .number)
        else if b = ch '[' then parse_array content inner offset
        else if b = ch '{' then parse_object content inner offset
        else some (.failed offset)

/-- With this much of the nesting limit left. -/
def parse_value : Nat → Nat → Option (Parsed (CJson D))
  | 0 => parseValueAround content dbl none
  | left + 1 => parseValueAround content dbl (some (parse_value left))

end

/-- The item, if there is one, and the offset that `return_parse_end` is set
to. -/
def cJSON_ParseWithOpts (dbl : Doubles D) (value : List UInt8) (require_null_terminated : Bool) :
    Option (Option (CJson D) × Nat) := do
  let content := value ++ [0]
  -- an offset behind the buffer is reported as its last byte
  let fail (offset : Nat) : Option (CJson D) × Nat :=
    (none, if offset < content.length then offset else content.length - 1)
  match ← parse_value content dbl CJSON_NESTING_LIMIT
      (buffer_skip_whitespace content (skip_utf8_bom content)) with
  | .failed offset => return fail offset
  | .done item offset =>
      if require_null_terminated then
        let offset := buffer_skip_whitespace content offset
        if content[offset]? = some 0 then return (some item, offset) else return fail offset
      else return (some item, offset)

/-- With where the item ends, as the requests are given it. -/
def cJSON_Parse (dbl : Doubles D) (value : List UInt8) : Option (CJson D × Nat) :=
  match cJSON_ParseWithOpts dbl value false with
  | some (some item, offset) => some (item, offset)
  | _ => none

end IotCamera
