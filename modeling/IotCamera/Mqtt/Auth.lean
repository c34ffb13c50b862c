import IotCamera.Lib.CString
import IotCamera.Lib.Loop
import Mathlib.Data.Vector.Defs

/-!
# Signing in to the broker

`aiotMqttSign` makes a client id, a user name and a password from the three
names of a device. The password is a keyed hash of the names, and the hash is
computed here as well: SHA-256 as a context that takes its input in parts, and
HMAC over it.

A pointer is the bytes that can be read from there on, and `NULL` is nothing.
An access outside of a buffer has no result. The words `W` of a block that
have been stored so far are a list, so a word that is read before it is there
has none either. `utils_sha256_free` overwrites a context that nobody looks
at any more, and is left out.
-/

namespace IotCamera

open CString

namespace Auth

abbrev uint32_t := BitVec 32

/-- `iot_sha256_context` -/
structure Sha256Context where
  /-- number of bytes processed: `total[0]` -/
  total0 : uint32_t
  /-- `total[1]` -/
  total1 : uint32_t
  /-- intermediate digest state -/
  state : Vector uint32_t 8
  /-- data block being processed -/
  buffer : List UInt8
  is224 : Int

def SHA256_KEY_IOPAD_SIZE : Nat := 64

def GET_UINT32_BE (b : List UInt8) (i : Nat) : Option uint32_t := do
  let b0 ← b[i]?
  let b1 ← b[i + 1]?
  let b2 ← b[i + 2]?
  let b3 ← b[i + 3]?
  some (BitVec.ofNat 32 b0.toNat <<< 24 ||| BitVec.ofNat 32 b1.toNat <<< 16 |||
    BitVec.ofNat 32 b2.toNat <<< 8 ||| BitVec.ofNat 32 b3.toNat)

def PUT_UINT32_BE (n : uint32_t) (b : List UInt8) (i : Nat) : Option (List UInt8) :=
  putBytes b i [UInt8.ofNat (n >>> 24).toNat, UInt8.ofNat (n >>> 16).toNat,
    UInt8.ofNat (n >>> 8).toNat, UInt8.ofNat n.toNat]

/-- The context of zeros. -/
def utils_sha256_init : Sha256Context where
  total0 := 0
  total1 := 0
  state := Vector.replicate 8 0
  buffer := List.replicate 64 0
  is224 := 0

def utils_sha256_starts (ctx : Sha256Context) : Sha256Context :=
  { ctx with
    total0 := 0
    total1 := 0
    state := #v[0x6A09E667, 0xBB67AE85, 0x3C6EF372, 0xA54FF53A, 0x510E527F, 0x9B05688C, 0x1F83D9AB,
      0x5BE0CD19]
    is224 := 0 }

def K : List uint32_t :=
  [0x428A2F98, 0x71374491, 0xB5C0FBCF, 0xE9B5DBA5,
    0x3956C25B, 0x59F111F1, 0x923F82A4, 0xAB1C5ED5,
    0xD807AA98, 0x12835B01, 0x243185BE, 0x550C7DC3,
    0x72BE5D74, 0x80DEB1FE, 0x9BDC06A7, 0xC19BF174,
    0xE49B69C1, 0xEFBE4786, 0x0FC19DC6, 0x240CA1CC,
    0x2DE92C6F, 0x4A7484AA, 0x5CB0A9DC, 0x76F988DA,
    0x983E5152, 0xA831C66D, 0xB00327C8, 0xBF597FC7,
    0xC6E00BF3, 0xD5A79147, 0x06CA6351, 0x14292967,
    0x27B70A85, 0x2E1B2138, 0x4D2C6DFC, 0x53380D13,
    0x650A7354, 0x766A0ABB, 0x81C2C92E, 0x92722C85,
    0xA2BFE8A1, 0xA81A664B, 0xC24B8B70, 0xC76C51A3,
    0xD192E819, 0xD6990624, 0xF40E3585, 0x106AA070,
    0x19A4C116, 0x1E376C08, 0x2748774C, 0x34B0BCB5,
    0x391C0CB3, 0x4ED8AA4A, 0x5B9CCA4F, 0x682E6FF3,
    0x748F82EE, 0x78A5636F, 0x84C87814, 0x8CC70208,
    0x90BEFFFA, 0xA4506CEB, 0xBEF9A3F7, 0xC67178F2]

/-! ## The macros -/

def SHR (x : uint32_t) (n : Nat) : uint32_t := (x &&& 0xFFFFFFFF) >>> n

def ROTR (x : uint32_t) (n : Nat) : uint32_t := SHR x n ||| x <<< (32 - n)

def S0 (x : uint32_t) : uint32_t := ROTR x 7 ^^^ ROTR x 18 ^^^ SHR x 3

def S1 (x : uint32_t) : uint32_t := ROTR x 17 ^^^ ROTR x 19 ^^^ SHR x 10

def S2 (x : uint32_t) : uint32_t := ROTR x 2 ^^^ ROTR x 13 ^^^ ROTR x 22

def S3 (x : uint32_t) : uint32_t := ROTR x 6 ^^^ ROTR x 11 ^^^ ROTR x 25

def F0 (x y z : uint32_t) : uint32_t := x &&& y ||| z &&& (x ||| y)

def F1 (x y z : uint32_t) : uint32_t := z ^^^ x &&& (y ^^^ z)

/-- The value that `R(t)` stores in `W[t]`. -/
def R (W : List uint32_t) (t : Nat) : Option uint32_t := do
  let w2 ← W[t - 2]?
  let w7 ← W[t - 7]?
  let w15 ← W[t - 15]?
  let w16 ← W[t - 16]?
  some (S1 w2 + w7 + S0 w15 + w16)

/-- `P` on the words of `A` in their order. -/
def P (A : Vector uint32_t 8) (x k : uint32_t) : Vector uint32_t 8 :=
  let temp1 := A[7] + S3 A[4] + F1 A[4] A[5] A[6] + k + x
  let temp2 := S2 A[0] + F0 A[0] A[1] A[2]
  (A.set 3 (A[3] + temp1)).set 7 (temp1 + temp2)

/-- The end of a round: each word of `A` moves on by one, and the last comes
to the front. -/
def turn (A : Vector uint32_t 8) : Vector uint32_t 8 :=
  #v[A[7], A[0], A[1], A[2], A[3], A[4], A[5], A[6]]

/-! ## The hash -/

/-- A round: the words of `W` so far, and `A`. -/
def processRound (data : List UInt8) (i : Nat) (s : List uint32_t × Vector uint32_t 8) :
    Option (List uint32_t × Vector uint32_t 8) := do
  let w ← (if i < 16 then GET_UINT32_BE data (4 * i) else R s.1 i)
  let k ← K[i]?
  some (s.1 ++ [w], turn (P s.2 w k))

def utils_sha256_process (ctx : Sha256Context) (data : List UInt8) : Option Sha256Context := do
  let s ← forLoop 0 64 (processRound data) ([], ctx.state)
  some { ctx with state := ctx.state.zipWith (· + ·) s.2 }

/-- The `while` loop of `utils_sha256_update`: the context, and how much of
the input is left. -/
def updateBlocks (ctx : Sha256Context) (input : List UInt8) (ilen : Nat) :
    Option (Sha256Context × List UInt8 × Nat) :=
  if 64 ≤ ilen then do
    let ctx ← utils_sha256_process ctx input
    updateBlocks ctx (input.drop 64) (ilen - 64)
  else some (ctx, input, ilen)

def utils_sha256_update (ctx : Sha256Context) (input : List UInt8) (ilen : uint32_t) :
    Option Sha256Context :=
  if ilen = 0 then some ctx
  else do
    let left := (ctx.total0 &&& 0x3F).toNat
    let fill := 64 - left
    let total0 := (ctx.total0 + ilen) &&& 0xFFFFFFFF
    let total1 := if total0 < ilen then ctx.total1 + 1 else ctx.total1
    let ctx := { ctx with total0 := total0, total1 := total1 }
    let (ctx, input, ilen, left) ←
      (if left ≠ 0 ∧ fill ≤ ilen.toNat then do
        let buffer ← memcpy ctx.buffer left input fill
        let ctx ← utils_sha256_process { ctx with buffer := buffer } buffer
        some (ctx, input.drop fill, ilen.toNat - fill, 0)
      else some (ctx, input, ilen.toNat, left))
    let (ctx, input, ilen) ← updateBlocks ctx input ilen
    if 0 < ilen then do
      let buffer ← memcpy ctx.buffer left input ilen
      some { ctx with buffer := buffer }
    else some ctx

def sha256_padding : List UInt8 := 0x80 :: List.replicate 63 0

def utils_sha256_finish (ctx : Sha256Context) (output : List UInt8) :
    Option (Sha256Context × List UInt8) := do
  let high := ctx.total0 >>> 29 ||| ctx.total1 <<< 3
  let low := ctx.total0 <<< 3
  -- `msglen` is not set to zeros in the source, but all of it is written
  let msglen ← PUT_UINT32_BE high (List.replicate 8 0) 0
  let msglen ← PUT_UINT32_BE low msglen 4
  let last := ctx.total0 &&& 0x3F
  let padn := if last < 56 then 56 - last else 120 - last
  let ctx ← utils_sha256_update ctx sha256_padding padn
  let ctx ← utils_sha256_update ctx msglen 8
  -- seven statements in the source, one for each word
  let output ← forLoop 0 7 (fun i output => do
    PUT_UINT32_BE (← ctx.state[i]?) output (4 * i)) output
  let output ← (if ctx.is224 = 0 then PUT_UINT32_BE ctx.state[7] output 28 else some output)
  some (ctx, output)

def utils_sha256 (input : List UInt8) (ilen : uint32_t) (output : List UInt8) :
    Option (List UInt8) := do
  let ctx := utils_sha256_starts utils_sha256_init
  let ctx ← utils_sha256_update ctx input ilen
  let (_, output) ← utils_sha256_finish ctx output
  some output

/-! ## The keyed hash -/

/-- A step of the loop that makes one of the pads. -/
def padStep (v : UInt8) (i : Nat) (pad : List UInt8) : Option (List UInt8) :=
  pad[i]?.map fun b => pad.set i (b ^^^ v)

/-- What is in `output` afterwards. -/
def utils_hmac_sha256 (msg : Option (List UInt8)) (msg_len : uint32_t)
    (key : Option (List UInt8)) (key_len : uint32_t) (output : Option (List UInt8)) :
    Option (Option (List UInt8)) :=
  match msg, key, output with
  | some msg, some key, some output =>
      if SHA256_KEY_IOPAD_SIZE < key_len.toNat then some (some output)
      else do
        let k_ipad ← memcpy (List.replicate SHA256_KEY_IOPAD_SIZE 0) 0 key key_len.toNat
        let k_opad ← memcpy (List.replicate SHA256_KEY_IOPAD_SIZE 0) 0 key key_len.toNat
        let k_ipad ← forLoop 0 SHA256_KEY_IOPAD_SIZE (padStep 0x36) k_ipad
        let k_opad ← forLoop 0 SHA256_KEY_IOPAD_SIZE (padStep 0x5c) k_opad
        let context := utils_sha256_starts utils_sha256_init
        let context ← utils_sha256_update context k_ipad 64
        let context ← utils_sha256_update context msg msg_len
        let (_, output) ← utils_sha256_finish context output
        let context := utils_sha256_starts utils_sha256_init
        let context ← utils_sha256_update context k_opad 64
        let context ← utils_sha256_update context output 32
        let (_, output) ← utils_sha256_finish context output
        some (some output)
  | _, _, output => some output

/-! ## The names -/

def PRODUCTKEY_MAXLEN : Nat := 20
def DEVICENAME_MAXLEN : Nat := 32
def DEVICESECRET_MAXLEN : Nat := 64
def SIGN_SOURCE_MAXLEN : Nat := 200
def CLIENTID_MAXLEN : Nat := 150
def USERNAME_MAXLEN : Nat := 64
def PASSWORD_MAXLEN : Nat := 65

/-- A text of the source, with its zero byte. -/
def literal (s : String) : List UInt8 := bytes s ++ [0]

def TIMESTAMP_VALUE : List UInt8 := literal "2524608000000"

def MQTT_CLINETID_KV : List UInt8 :=
  literal "|timestamp=2524608000000,_v=paho-c-1.0.0,securemode=3,signmethod=hmacsha256,lan=C|"

def zEncode : List UInt8 := literal "0123456789ABCDEF"

/-- A step of `_hex2str`: `j` is twice `i` when it starts. -/
def hexStep (input : List UInt8) (i : Nat) (output : List UInt8) : Option (List UInt8) := do
  let b ← input[i]?
  let output ← putBytes output (2 * i) [← zEncode[b.toNat >>> 4 &&& 0xf]?]
  putBytes output (2 * i + 1) [← zEncode[b.toNat &&& 0xf]?]

def _hex2str (input : List UInt8) (input_len : Nat) (output : List UInt8) :
    Option (List UInt8) :=
  forLoop 0 input_len (hexStep input) output

/-- `memcpy(dst + strlen(dst), src, strlen(src))` -/
def copyBehind (dst src : List UInt8) : Option (List UInt8) := do
  memcpy dst (← strlen dst) src (← strlen src)

/-- The check of the three lengths. -/
def tooLong (productKey deviceName deviceSecret : List UInt8) : Option Bool := do
  let n ← strlen productKey
  if PRODUCTKEY_MAXLEN < n then some true
  else do
    let n ← strlen deviceName
    if DEVICENAME_MAXLEN < n then some true
    else do
      let n ← strlen deviceSecret
      some (decide (DEVICESECRET_MAXLEN < n))

/-- The three buffers of the caller. -/
structure SignBuffers where
  clientId : Option (List UInt8)
  username : Option (List UInt8)
  password : Option (List UInt8)

def setupDeviceId (deviceName productKey : List UInt8) : Option (List UInt8) := do
  let deviceId := List.replicate (PRODUCTKEY_MAXLEN + DEVICENAME_MAXLEN + 2) 0
  let deviceId ← memcpy deviceId 0 deviceName (← strlen deviceName)
  let deviceId ← copyBehind deviceId (literal "&")
  copyBehind deviceId productKey

def setupClientId (clientId deviceId : List UInt8) : Option (List UInt8) := do
  let n ← strlen deviceId
  let kv ← strlen MQTT_CLINETID_KV
  let clientId ← memcpy clientId 0 deviceId n
  let clientId ← memcpy clientId n MQTT_CLINETID_KV kv
  putBytes clientId (n + kv) [0]

def setupUsername (username deviceId : List UInt8) : Option (List UInt8) := do
  let n ← strlen deviceId
  let username ← memcpy username 0 deviceId n
  putBytes username n [0]

def setupMacSrc (deviceId deviceName productKey : List UInt8) : Option (List UInt8) := do
  let macSrc := List.replicate SIGN_SOURCE_MAXLEN 0
  let macSrc ← memcpy macSrc 0 (literal "clientId") (← strlen (literal "clientId"))
  let macSrc ← copyBehind macSrc deviceId
  let macSrc ← copyBehind macSrc (literal "deviceName")
  let macSrc ← copyBehind macSrc deviceName
  let macSrc ← copyBehind macSrc (literal "productKey")
  let macSrc ← copyBehind macSrc productKey
  let macSrc ← copyBehind macSrc (literal "timestamp")
  copyBehind macSrc TIMESTAMP_VALUE

def setupPassword (password macSrc deviceSecret : List UInt8) : Option (List UInt8) := do
  let macRes := List.replicate 32 0
  let msg_len := BitVec.ofNat 32 (← strlen macSrc)
  let key_len := BitVec.ofNat 32 (← strlen deviceSecret)
  let macRes ← utils_hmac_sha256 (some macSrc) msg_len (some deviceSecret) key_len (some macRes)
  let macRes ← macRes
  let password ← putBytes password 0 (List.replicate PASSWORD_MAXLEN 0)
  _hex2str macRes 32 password

def aiotMqttSign (productKey deviceName deviceSecret : Option (List UInt8)) (out : SignBuffers) :
    Option (Int × SignBuffers) :=
  match productKey, deviceName, deviceSecret, out with
  | some productKey, some deviceName, some deviceSecret,
      ⟨some clientId, some username, some password⟩ => do
      if ← tooLong productKey deviceName deviceSecret then some (-1, out)
      else do
        let deviceId ← setupDeviceId deviceName productKey
        let clientId ← setupClientId clientId deviceId
        let username ← setupUsername username deviceId
        let macSrc ← setupMacSrc deviceId deviceName productKey
        let password ← setupPassword password macSrc deviceSecret
        some (0, ⟨some clientId, some username, some password⟩)
  | _, _, _, _ => some (-1, out)

end Auth

end IotCamera
