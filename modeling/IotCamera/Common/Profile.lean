import IotCamera.Lib.CString

/-!
# Reading the INI file

`GetProfileString` reads the file line by line, looks for the header of the
section, then for the key, and leaves the text after the `=` in `KeyVal`. The
file is the list of its bytes, or nothing if it cannot be opened. `feof` stops
the loop no sooner than the last line, so the lines it sees are those `fgets`
delivers.

`KeyVal` belongs to the caller, and its old contents can show through: it is
the list of its bytes. The other buffers are the strings in them. There is no
result where a string does not fit its buffer, or where `KeyVal` is read and
holds no zero byte.

The value is trimmed in a block of its own. `malloc` succeeds, and the block is
as long as the string in `KeyVal` and its zero byte. The `memset` after it
clears `sizeof(KeyVal_o)` bytes, and `KeyVal_o` is a pointer: there is no result
if the block is shorter than one. `ptr` is the size of a pointer, which is four
bytes on the camera and eight on most other machines.
-/

namespace IotCamera

open CString

/-- `KEYVALLEN` -/
def keyValLen : Nat := 100

/-- The characters `%[^=|^ |^\t]` stops at. -/
def endsKeyname (b : UInt8) : Bool :=
  b = ch '=' || b = ch '|' || b = ch '^' || b = ch ' ' || b = ch '\t'

/-- `sscanf` with one scanset: the longest prefix of `s` without a character
that `stop` accepts is stored, if it is not empty. -/
def scanset (stop : UInt8 → Bool) (s buf : List UInt8) : Option (List UInt8) :=
  let matched := s.takeWhile fun b => !stop b
  if matched = [] then some buf else strcpy buf matched

/-- The white space on the left is skipped; the copy fits a buffer of the size
of the input. -/
def l_trim (szInput : List UInt8) : List UInt8 := szInput.dropWhile isspace

def a_trim (szInput : List UInt8) : List UInt8 := (l_trim szInput).rdropWhile isspace

/-- What the body of the loop does with a line: `continue`, with the new value
of `found`; `break`; or go for the value, which stands at `c`. -/
inductive Verdict
  | next (found : Nat)
  | stop
  | value (c : List UInt8)
  deriving DecidableEq

/-- The tests of the loop, on a trimmed line that is not empty. -/
def look (appname KeyName : List UInt8) (found : Nat) (buf : List UInt8) : Option Verdict :=
  if found = 0 then
    if buf.head? ≠ some (ch '[') then some (.next found)
    else if buf.take appname.length = appname then some (.next 1)
    else some (.next found)
  else if buf.head? = some (ch '#') then some (.next found)
  else if buf.head? = some (ch '[') then some .stop
  else
    -- strchr(buf, '=')
    match buf.dropWhile fun b => b ≠ ch '=' with
    | [] => some (.next found)
    | _ :: c =>
        (fits 32 (buf.takeWhile fun b => !endsKeyname b)).map fun keyname =>
          if keyname = KeyName then .value c else .next found

/-- `memset(KeyVal_o, 0, sizeof(KeyVal_o))`, `KeyVal_o` pointing to a block of
`n` bytes. -/
def clearBlock (ptr : Nat) (n : Nat) : Option Unit := if ptr ≤ n then some () else none

/-- The value at `c` goes to `KeyVal`. -/
def takeValue (ptr : Nat) (c KeyVal : List UInt8) : Option (List UInt8) := do
  let KeyVal ← scanset (fun b => b = newline) c KeyVal
  let val ← str KeyVal
  -- KeyVal_o = malloc(strlen(KeyVal) + 1)
  clearBlock ptr (val.length + 1)
  let KeyVal_o := a_trim val
  if KeyVal_o.length > 0 then strcpy KeyVal KeyVal_o else some KeyVal

/-- The loop over the lines in `buf_i`: the final `found`, and `KeyVal`. -/
def scan (ptr : Nat) (appname KeyName KeyVal : List UInt8) :
    Nat → List (List UInt8) → Option (Nat × List UInt8)
  | found, [] => some (found, KeyVal)
  | found, buf_i :: rest =>
      let buf_o := l_trim (buf_i.takeWhile fun b => b ≠ 0)
      if buf_o.length ≤ 0 then scan ptr appname KeyName KeyVal found rest
      else
        match look appname KeyName found buf_o with
        | none => none
        | some (.next found) => scan ptr appname KeyName KeyVal found rest
        | some .stop => some (found, KeyVal)
        | some (.value c) => (takeValue ptr c KeyVal).map fun KeyVal => (2, KeyVal)

def GetProfileString (ptr : Nat) (profile : Option (List UInt8))
    (AppName KeyName KeyVal : List UInt8) : Option (Int × List UInt8) :=
  match profile with
  | none => some (-1, KeyVal)
  | some file => do
      let appname ← fits 32 (ch '[' :: AppName ++ [ch ']'])
      let (found, KeyVal) ← scan ptr appname KeyName KeyVal 0
        (fgetsAll (keyValLen - 1) file.length file)
      if found = 2 then some (0, KeyVal) else some (-1, KeyVal)

/-! ## What is scanned -/

/-- A string `sscanf` stores, and the buffer it is for. -/
inductive Token
  | keyname (s : List UInt8)
  | KeyVal (s : List UInt8)
  deriving DecidableEq

/-- Nothing is stored if nothing matches. -/
def scanned (token : List UInt8 → Token) (s : List UInt8) : List Token :=
  if s = [] then [] else [token s]

/-- The loop over the lines once more, with each `sscanf` noted, and no buffer
it has to fit. -/
def tokens (appname KeyName : List UInt8) : Nat → List (List UInt8) → List Token
  | _, [] => []
  | found, buf_i :: rest =>
      let buf := l_trim (buf_i.takeWhile fun b => b ≠ 0)
      if buf.length ≤ 0 then tokens appname KeyName found rest
      else if found = 0 then
        if buf.head? ≠ some (ch '[') then tokens appname KeyName found rest
        else if buf.take appname.length = appname then tokens appname KeyName 1 rest
        else tokens appname KeyName found rest
      else if buf.head? = some (ch '#') then tokens appname KeyName found rest
      else if buf.head? = some (ch '[') then []
      else
        match buf.dropWhile fun b => b ≠ ch '=' with
        | [] => tokens appname KeyName found rest
        | _ :: c =>
            let keyname := buf.takeWhile fun b => !endsKeyname b
            scanned .keyname keyname ++
              if keyname = KeyName then scanned .KeyVal (c.takeWhile fun b => b ≠ newline)
              else tokens appname KeyName found rest

/-- The tokens of one call of `GetProfileString`. -/
def sscanfs (file AppName KeyName : List UInt8) : List Token :=
  tokens (ch '[' :: AppName ++ [ch ']']) KeyName 0 (fgetsAll (keyValLen - 1) file.length file)

end IotCamera
