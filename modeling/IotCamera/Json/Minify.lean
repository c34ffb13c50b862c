import IotCamera.Json.Item
import IotCamera.Lib.CString

/-!
# Taking white space and comments out

`cJSON_Minify` goes over a text with two pointers, `json` where it reads and
`into` where it writes, in the same buffer. Both are offsets here, and so are
those of the functions it calls, which set them forward. An access outside of
the buffer has no result.

A loop that moves on in the text is given as many turns as the buffer has
bytes.
-/

namespace IotCamera

open CString

/-- `into[0] = json[0]` -/
def copyByte (buf : List UInt8) (into json : Nat) : Option (List UInt8) := do
  putBytes buf into [← buf[json]?]

/-- The loop of `skip_oneline_comment`: where `input` is afterwards. -/
def onelineLoop (buf : List UInt8) : Nat → Nat → Option Nat
  | 0, _ => none
  | fuel + 1, input => do
      let b ← buf[input]?
      if b = 0 then some input
      else if b = 10 then some (input + 1)
      else onelineLoop buf fuel (input + 1)

def skip_oneline_comment (buf : List UInt8) (input : Nat) : Option Nat :=
  onelineLoop buf buf.length (input + 2)

def multilineLoop (buf : List UInt8) : Nat → Nat → Option Nat
  | 0, _ => none
  | fuel + 1, input => do
      let b ← buf[input]?
      if b = 0 then some input
      else if b = ch '*' then do
        let c ← buf[input + 1]?
        if c = ch '/' then some (input + 2) else multilineLoop buf fuel (input + 1)
      else multilineLoop buf fuel (input + 1)

def skip_multiline_comment (buf : List UInt8) (input : Nat) : Option Nat :=
  multilineLoop buf buf.length (input + 2)

/-- The loop of `minify_string`: the buffer and the two pointers. -/
def stringLoop : Nat → List UInt8 → Nat → Nat → Option (List UInt8 × Nat × Nat)
  | 0, _, _, _ => none
  | fuel + 1, buf, input, output => do
      let b ← buf[input]?
      if b = 0 then some (buf, input, output)
      else do
        let buf ← copyByte buf output input
        let b ← buf[input]?
        if b = ch '"' then do
          let buf ← putBytes buf output [ch '"']
          some (buf, input + 1, output + 1)
        else if b = ch '\\' then do
          let c ← buf[input + 1]?
          if c = ch '"' then do
            let buf ← copyByte buf (output + 1) (input + 1)
            stringLoop fuel buf (input + 2) (output + 2)
          else stringLoop fuel buf (input + 1) (output + 1)
        else stringLoop fuel buf (input + 1) (output + 1)

def minify_string (buf : List UInt8) (input output : Nat) :
    Option (List UInt8 × Nat × Nat) := do
  let buf ← copyByte buf output input
  stringLoop buf.length buf (input + 1) (output + 1)

/-- The loop of `cJSON_Minify`, and the zero byte behind it. -/
def minifyLoop : Nat → List UInt8 → Nat → Nat → Option (List UInt8)
  | 0, _, _, _ => none
  | fuel + 1, buf, json, into => do
      let b ← buf[json]?
      if b = 0 then putBytes buf into [0]
      else if b = ch ' ' ∨ b = 9 ∨ b = 13 ∨ b = 10 then minifyLoop fuel buf (json + 1) into
      else if b = ch '/' then do
        let c ← buf[json + 1]?
        if c = ch '/' then do
          let json ← skip_oneline_comment buf json
          minifyLoop fuel buf json into
        else if c = ch '*' then do
          let json ← skip_multiline_comment buf json
          minifyLoop fuel buf json into
        else minifyLoop fuel buf (json + 1) into
      else if b = ch '"' then do
        let (buf, json, into) ← minify_string buf json into
        minifyLoop fuel buf json into
      else do
        let buf ← copyByte buf into json
        minifyLoop fuel buf (json + 1) (into + 1)

/-- What is in the buffer afterwards. -/
def cJSON_Minify : Option (List UInt8) → Option (Option (List UInt8))
  | none => some none
  | some json => (minifyLoop json.length json 0 0).map some

end IotCamera
