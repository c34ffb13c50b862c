import IotCamera.Proofs.AuthSha

/-!
# The password is an HMAC

`utils_hmac_sha256` is the HMAC of the standard as long as the key is not
longer than a block, and for a longer key it leaves the output alone. The
device secret is never longer: that is checked before anything is written.

The names are put together in buffers of zeros. A string in such a buffer is
always behind the ones before it, and the zeros left over are its end. The
sizes are enough for the longest names, which is where the numbers of the
source come in. `aiotMqttSign_spec` compares the whole with what the names
alone determine: the buffers are changed in all three places or in none.
-/

namespace IotCamera

open CString Packed

namespace Auth

variable {buf msg key output s t : List UInt8} {msg_len key_len : uint32_t} {n : Nat}

/-! ## The keyed hash -/

theorem memcpy_zeros (hkey : n ≤ key.length) (hn : n ≤ 64) :
    memcpy (List.replicate SHA256_KEY_IOPAD_SIZE 0) 0 key n =
      some (key.take n ++ List.replicate (64 - n) 0) := by
  have hlen : (key.take n).length = n := by rw [List.length_take, Nat.min_eq_left hkey]
  have hput := putBytes_append (s := []) (t := key.take n)
    (u := List.replicate SHA256_KEY_IOPAD_SIZE 0)
    (by rw [hlen, List.nil_append, List.length_replicate, SHA256_KEY_IOPAD_SIZE]
        exact Nat.le_trans (Nat.le_of_eq (Nat.zero_add n)) hn)
  rw [hlen, List.nil_append, List.nil_append, List.drop_replicate] at hput
  rw [memcpy, if_pos hkey]
  exact hput

theorem pad_spec (v : UInt8) {pad : List UInt8} (h : pad.length = 64) :
    forLoop 0 SHA256_KEY_IOPAD_SIZE (padStep v) pad = some (pad.map (· ^^^ v)) := by
  have hset := forLoop_set (· ^^^ v) pad
  rw [h] at hset
  exact hset

/-- A pass: two parts from a new context. -/
theorem two_parts {xs ys : List UInt8} {n : uint32_t} (hxs : xs.length = 64)
    (hys : n.toNat ≤ ys.length) (hout : 32 ≤ output.length) :
    ∃ ctx, ((utils_sha256_update (utils_sha256_starts utils_sha256_init) xs 64).bind fun ctx =>
        (utils_sha256_update ctx ys n).bind fun ctx => utils_sha256_finish ctx output) =
      some (ctx, Sha2.sha256 (xs ++ ys.take n.toNat) ++ output.drop 32) := by
  have hstart : Holds (utils_sha256_starts utils_sha256_init) [] := holds_starts rfl
  obtain ⟨ctx1, hctx1, h1⟩ := update_spec xs [] hstart
    (show xs.length = (64 : uint32_t).toNat from hxs)
  have hlen : (ys.take n.toNat).length = n.toNat := by rw [List.length_take, Nat.min_eq_left hys]
  obtain ⟨ctx2, hctx2, h2⟩ := update_spec _ (ys.drop n.toNat) h1 hlen
  rw [List.append_nil] at hctx1
  rw [List.take_append_drop] at hctx2
  obtain ⟨ctx3, hctx3⟩ := finish_spec h2 hout
  exact ⟨ctx3, by rw [hctx1, Option.bind_some, hctx2]; exact hctx3⟩

/-- A key of at most a block: the two passes are those of the HMAC. -/
theorem hmac_spec (msg key output : List UInt8) (msg_len key_len : uint32_t)
    (hmsg : msg_len.toNat ≤ msg.length) (hkey : key_len.toNat ≤ key.length)
    (hout : 32 ≤ output.length) (hshort : key_len.toNat ≤ 64) :
    utils_hmac_sha256 (some msg) msg_len (some key) key_len (some output) =
      some (some (Sha2.hmac Sha2.sha256 64 (key.take key_len.toNat) (msg.take msg_len.toNat) ++
        output.drop 32)) := by
  rw [utils_hmac_sha256]
  obtain ⟨pad, hpad⟩ : ∃ pad, pad = key.take key_len.toNat ++
    List.replicate (64 - key_len.toNat) 0 := ⟨_, rfl⟩
  have hlen : (key.take key_len.toNat).length = key_len.toNat := by
    rw [List.length_take, Nat.min_eq_left hkey]
  have hpadlen : pad.length = 64 := by
    rw [hpad, List.length_append, hlen, List.length_replicate]
    omega
  have hmap (v : UInt8) : (pad.map (· ^^^ v)).length = 64 := by rw [List.length_map, hpadlen]
  have hzeros : memcpy (List.replicate SHA256_KEY_IOPAD_SIZE 0) 0 key key_len.toNat = some pad := by
    rw [hpad]
    exact memcpy_zeros hkey hshort
  obtain ⟨inner, hinner⟩ : ∃ inner, inner =
    Sha2.sha256 (pad.map (· ^^^ 0x36) ++ msg.take msg_len.toNat) := ⟨_, rfl⟩
  have hinnerlen : inner.length = 32 := by rw [hinner, Sha2.length_sha256]
  obtain ⟨ctx, hpass1⟩ := two_parts (hmap 0x36) hmsg hout
  have hreads : (32 : uint32_t).toNat ≤ (inner ++ output.drop 32).length := by
    rw [List.length_append, hinnerlen]
    exact Nat.le_add_right 32 _
  obtain ⟨ctx', hpass2⟩ := two_parts (hmap 0x5c) hreads
    (show 32 ≤ (inner ++ output.drop 32).length from hreads)
  have hhmac : Sha2.hmac Sha2.sha256 64 (key.take key_len.toNat) (msg.take msg_len.toNat) =
      Sha2.sha256 (pad.map (· ^^^ 0x5c) ++ inner) := by
    rw [Sha2.hmac_eq (by omega), hlen, hinner, hpad]
  obtain ⟨c1, hc1, hrest1⟩ := Option.bind_eq_some_iff.1 hpass1
  obtain ⟨c2, hc2, hfin⟩ := Option.bind_eq_some_iff.1 hrest1
  obtain ⟨c1', hc1', hrest1'⟩ := Option.bind_eq_some_iff.1 hpass2
  obtain ⟨c2', hc2', hfin'⟩ := Option.bind_eq_some_iff.1 hrest1'
  rw [← hinner] at hfin
  rw [if_neg (show ¬ SHA256_KEY_IOPAD_SIZE < key_len.toNat from Nat.not_lt_of_le hshort), hzeros,
    hhmac]
  simp only [Option.bind_eq_bind, Option.bind_some, pad_spec _ hpadlen, hc1, hc2, hfin, hc1', hc2',
    hfin']
  have htake : (inner ++ output.drop 32).take (32 : uint32_t).toNat = inner :=
    List.take_left' hinnerlen
  have hdrop : (inner ++ output.drop 32).drop 32 = output.drop 32 := List.drop_left' hinnerlen
  rw [htake, hdrop]

/-- For a longer key nothing is done. -/
theorem hmac_long (msg key output : List UInt8) (msg_len : uint32_t) {key_len : uint32_t}
    (hlong : 64 < key_len.toNat) :
    utils_hmac_sha256 (some msg) msg_len (some key) key_len (some output) = some (some output) := by
  rw [utils_hmac_sha256, if_pos (show SHA256_KEY_IOPAD_SIZE < key_len.toNat from hlong)]

/-- Whatever the key: the HMAC of the text for a key of at most a block, and
nothing for a longer one. -/
theorem utils_hmac_sha256_eq (msg key output : List UInt8) (msg_len key_len : uint32_t)
    (hmsg : msg_len.toNat ≤ msg.length) (hkey : key_len.toNat ≤ key.length)
    (hout : 32 ≤ output.length) :
    utils_hmac_sha256 (some msg) msg_len (some key) key_len (some output) =
      some (some (if 64 < key_len.toNat then output
        else Sha2.hmac Sha2.sha256 64 (key.take key_len.toNat) (msg.take msg_len.toNat) ++
          output.drop 32)) := by
  by_cases hlong : 64 < key_len.toNat
  · rw [if_pos hlong]
    exact hmac_long msg key output msg_len hlong
  · rw [if_neg hlong]
    exact hmac_spec msg key output msg_len key_len hmsg hkey hout (Nat.le_of_not_lt hlong)

theorem utils_hmac_sha256_eq_short :
    utils_hmac_sha256 (some [109, 115, 103]) 3 (some [107, 0]) 1 (some (List.replicate 32 0)) =
      some (some (if 64 < (1 : uint32_t).toNat then List.replicate 32 0
        else Sha2.hmac Sha2.sha256 64 ([107, 0].take (1 : uint32_t).toNat)
          ([109, 115, 103].take (3 : uint32_t).toNat) ++ (List.replicate 32 0).drop 32)) :=
  utils_hmac_sha256_eq _ _ _ 3 1 (by decide) (by decide) (by decide)

/-! ## Hexadecimal digits -/

/-- A digit, in capitals. -/
def upperHex (k : Nat) : UInt8 := if k < 10 then UInt8.ofNat (48 + k) else UInt8.ofNat (55 + k)

/-- Two digits for each byte. -/
def hexString (bs : List UInt8) : List UInt8 :=
  bs.flatMap fun b => [upperHex (b.toNat / 16), upperHex (b.toNat % 16)]

theorem zEncode_get : ∀ k < 16, zEncode[k]? = some (upperHex k) := by decide

theorem length_hexString (bs : List UInt8) : (hexString bs).length = 2 * bs.length := by
  induction bs with
  | nil => rfl
  | cons b bs ih =>
      rw [hexString] at ih
      rw [hexString, List.flatMap_cons, List.length_append, ih, List.length_cons, List.length_cons,
        List.length_cons, List.length_nil]
      omega

theorem hexString_ne_zero {bs : List UInt8} : 0 ∉ hexString bs := by
  have hdigit : ∀ k < 16, upperHex k ≠ 0 := by decide
  intro h
  obtain ⟨b, -, hb⟩ := List.mem_flatMap.1 h
  have hlt : b.toNat < 256 := b.toNat_lt
  rcases List.mem_cons.1 hb with hb | hb
  · exact hdigit _ (by omega) hb.symm
  · exact hdigit _ (by omega) (List.mem_singleton.1 hb).symm

theorem hex2str_spec (input output : List UInt8) (h : 2 * input.length ≤ output.length) :
    _hex2str input input.length output =
      some (hexString input ++ output.drop (2 * input.length)) := by
  obtain ⟨out, hout, hI⟩ : ∃ out, _hex2str input input.length output = some out ∧
      out = hexString (input.take input.length) ++ output.drop (2 * input.length) := by
    refine forLoop_spec (I := fun i out => out = hexString (input.take i) ++ output.drop (2 * i))
      (Nat.zero_le _) rfl fun i out _ hi hI => ?_
    have hlen : (hexString (input.take i)).length = 2 * i := by
      rw [length_hexString, List.length_take]
      omega
    have hlt : (input[i]).toNat < 256 := (input[i]).toNat_lt
    have hhigh : (input[i]).toNat >>> 4 &&& 0xf = (input[i]).toNat / 16 := by
      rw [show 0xf = 2 ^ 4 - 1 from rfl, Nat.and_two_pow_sub_one_eq_mod, Nat.shiftRight_eq_div_pow]
      omega
    have hlow : (input[i]).toNat &&& 0xf = (input[i]).toNat % 16 :=
      Nat.and_two_pow_sub_one_eq_mod _ 4
    have h1 := putBytes_append (s := hexString (input.take i))
      (t := [upperHex ((input[i]).toNat / 16)]) (u := output.drop (2 * i))
      (by rw [List.length_append, List.length_drop, List.length_singleton]; omega)
    have h2 := putBytes_append
      (s := hexString (input.take i) ++ [upperHex ((input[i]).toNat / 16)])
      (t := [upperHex ((input[i]).toNat % 16)]) (u := (output.drop (2 * i)).drop 1)
      (by simp only [List.length_append, List.length_drop, List.length_singleton]; omega)
    rw [hlen, List.length_singleton] at h1
    rw [List.length_append, hlen, List.length_singleton, List.drop_drop, List.drop_drop] at h2
    refine ⟨hexString (input.take (i + 1)) ++ output.drop (2 * (i + 1)), ?_, rfl⟩
    rw [hexStep, hI, List.getElem?_eq_getElem hi]
    simp only [Option.bind_eq_bind, Option.bind_some, hhigh, hlow]
    rw [zEncode_get _ (by omega), zEncode_get _ (by omega), Option.bind_some, h1, Option.bind_some,
      Option.bind_some, List.drop_drop, h2]
    rw [List.take_succ_eq_append_getElem hi, hexString, hexString, List.flatMap_append,
      List.flatMap_singleton, List.append_assoc (List.flatMap _ _) [_] [_]]
    rfl
  rw [hout, hI, List.take_length]

/-! ## Strings one behind the other -/

/-- A buffer of `n` bytes with a string in it and zeros behind. -/
def zeroed (n : Nat) (s : List UInt8) : List UInt8 := s ++ List.replicate (n - s.length) 0

theorem str_zeroed (h : s.length < n) (hs : 0 ∉ s) : str (zeroed n s) = some s := by
  obtain ⟨k, hk⟩ : ∃ k, n - s.length = k + 1 := ⟨n - s.length - 1, by omega⟩
  rw [zeroed, hk, List.replicate_succ, str_append_zero hs]

theorem str_literal {text : String} (h : 0 ∉ bytes text) :
    str (literal text) = some (bytes text) := str_append_zero h

/-- A string of a buffer copied into another. -/
theorem memcpy_str {u : List UInt8} (hstr : str buf = some t)
    (h : s.length + t.length ≤ (s ++ u).length) :
    memcpy (s ++ u) s.length buf t.length = some (s ++ t ++ u.drop t.length) := by
  rw [memcpy, if_pos (Nat.le_of_lt (length_str_lt hstr)), take_of_str hstr, putBytes_append h]

theorem memcpy_zeroed (hstr : str buf = some t) (h : s.length + t.length ≤ n) :
    memcpy (zeroed n s) s.length buf t.length = some (zeroed n (s ++ t)) := by
  rw [zeroed, memcpy_str hstr (by rw [List.length_append, List.length_replicate]; omega),
    List.drop_replicate, zeroed, List.length_append, Nat.sub_sub]

theorem memcpy_first (hstr : str buf = some t) (h : t.length ≤ n) :
    memcpy (List.replicate n 0) 0 buf t.length = some (zeroed n t) := by
  have hnil : zeroed n [] = List.replicate n 0 := by
    rw [zeroed, List.nil_append, List.length_nil, Nat.sub_zero]
  have hcpy := memcpy_zeroed (s := []) (n := n) hstr (by rw [List.length_nil]; omega)
  rwa [hnil, List.nil_append] at hcpy

/-- A string copied behind what is in a buffer, and ended there. -/
theorem memcpy_ended {u : List UInt8} (hstr : str buf = some t)
    (h : s.length + t.length < (s ++ u).length) :
    ((memcpy (s ++ u) s.length buf t.length).bind fun b => putBytes b (s.length + t.length) [0]) =
      some (s ++ t ++ 0 :: u.drop (t.length + 1)) := by
  have hput := putBytes_append (s := s ++ t) (t := [0]) (u := u.drop t.length)
    (by simp only [List.length_append, List.length_drop, List.length_singleton] at h ⊢; omega)
  rw [memcpy_str hstr (Nat.le_of_lt h), Option.bind_some, ← List.length_append, hput,
    List.drop_drop, List.append_assoc (s ++ t) [0]]
  rfl

theorem copyBehind_spec (hstr : str buf = some t) (hs : 0 ∉ s) (h : s.length < n)
    (hroom : s.length + t.length ≤ n) :
    copyBehind (zeroed n s) buf = some (zeroed n (s ++ t)) := by
  rw [copyBehind, strlen_of_str (str_zeroed h hs), strlen_of_str hstr]
  exact memcpy_zeroed hstr hroom

/-- Any number of strings copied one behind the other. -/
theorem copyAll_spec (srcs : List (List UInt8 × List UInt8))
    (hstr : ∀ p ∈ srcs, str p.1 = some p.2) (hs : 0 ∉ s)
    (hroom : (s ++ srcs.flatMap Prod.snd).length < n) :
    (srcs.map Prod.fst).foldlM copyBehind (zeroed n s) =
      some (zeroed n (s ++ srcs.flatMap Prod.snd)) := by
  induction srcs generalizing s with
  | nil => rw [List.flatMap_nil, List.append_nil]; rfl
  | cons p srcs ih =>
      have hp := hstr p List.mem_cons_self
      have hs' : 0 ∉ s ++ p.2 := by
        rw [List.mem_append, not_or]
        exact ⟨hs, not_mem_of_str hp⟩
      rw [List.flatMap_cons, ← List.append_assoc] at hroom ⊢
      rw [List.map_cons, List.foldlM_cons, copyBehind_spec hp hs
        (by simp only [List.length_append] at hroom; omega)
        (by simp only [List.length_append] at hroom; omega)]
      exact ih (fun q hq => hstr q (List.mem_cons_of_mem p hq)) hs' hroom

/-! ## The names -/

/-- Three names that are not too long. -/
structure Names where
  productKey : List UInt8
  deviceName : List UInt8
  deviceSecret : List UInt8
  productKey_le : productKey.length ≤ PRODUCTKEY_MAXLEN
  deviceName_le : deviceName.length ≤ DEVICENAME_MAXLEN
  deviceSecret_le : deviceSecret.length ≤ DEVICESECRET_MAXLEN

namespace Names

/-- The names that three pointers are, if none is `NULL` and none too long. -/
def read (productKey deviceName deviceSecret : Option (List UInt8)) : Option Names := do
  let productKey ← productKey.bind str
  let deviceName ← deviceName.bind str
  let deviceSecret ← deviceSecret.bind str
  if h : productKey.length ≤ PRODUCTKEY_MAXLEN ∧ deviceName.length ≤ DEVICENAME_MAXLEN ∧
      deviceSecret.length ≤ DEVICESECRET_MAXLEN then
    some ⟨productKey, deviceName, deviceSecret, h.1, h.2.1, h.2.2⟩
  else none

variable (names : Names)

def deviceId : List UInt8 := names.deviceName ++ ch '&' :: names.productKey

/-- What the broker is told about the signature. -/
def kv : List UInt8 :=
  bytes "|timestamp=2524608000000,_v=paho-c-1.0.0,securemode=3,signmethod=hmacsha256,lan=C|"

def clientId : List UInt8 := names.deviceId ++ kv

/-- The text that is signed. -/
def source : List UInt8 :=
  bytes "clientId" ++ names.deviceId ++ bytes "deviceName" ++ names.deviceName ++
    bytes "productKey" ++ names.productKey ++ bytes "timestamp" ++ bytes "2524608000000"

def password : List UInt8 :=
  hexString (Sha2.hmac Sha2.sha256 64 names.deviceSecret names.source)

end Names

/-- A string with its end at the front of a buffer, and the rest of the buffer
as it was. -/
def ended (s buf : List UInt8) : List UInt8 := s ++ 0 :: buf.drop (s.length + 1)

section

variable {names : Names} {productKey deviceName deviceSecret : List UInt8}

theorem length_deviceId (names : Names) : names.deviceId.length =
    names.deviceName.length + 1 + names.productKey.length := by
  rw [Names.deviceId, List.length_append, List.length_cons]
  omega

theorem length_deviceId_le (names : Names) : names.deviceId.length ≤ 53 := by
  have hpk : names.productKey.length ≤ 20 := names.productKey_le
  have hdn : names.deviceName.length ≤ 32 := names.deviceName_le
  rw [length_deviceId names]
  omega

theorem setupDeviceId_spec (hpk : str productKey = some names.productKey)
    (hdn : str deviceName = some names.deviceName) :
    setupDeviceId deviceName productKey = some (zeroed 54 names.deviceId) := by
  have hle := length_deviceId_le names
  have hlen := length_deviceId names
  have hfirst : memcpy (List.replicate 54 0) 0 deviceName names.deviceName.length =
      some (zeroed 54 names.deviceName) :=
    memcpy_first hdn (by omega)
  have hrest := copyAll_spec (s := names.deviceName) (n := 54)
    [(literal "&", [ch '&']), (productKey, names.productKey)] ?_ (not_mem_of_str hdn) ?_
  · rw [setupDeviceId, strlen_of_str hdn]
    show (memcpy (List.replicate 54 0) 0 deviceName names.deviceName.length).bind _ = _
    rw [hfirst]
    simpa [Names.deviceId] using hrest
  · intro p hp
    rcases List.mem_cons.1 hp with rfl | hp
    · decide
    · rcases List.mem_singleton.1 hp with rfl
      exact hpk
  · simp
    omega

theorem deviceId_ne_zero (hpk : str productKey = some names.productKey)
    (hdn : str deviceName = some names.deviceName) : 0 ∉ names.deviceId := by
  rw [Names.deviceId, List.mem_append, List.mem_cons, not_or, not_or]
  exact ⟨not_mem_of_str hdn, by decide, not_mem_of_str hpk⟩

theorem setupUsername_spec {username : List UInt8} (hid : 0 ∉ names.deviceId)
    (huser : USERNAME_MAXLEN ≤ username.length) :
    setupUsername username (zeroed 54 names.deviceId) = some (ended names.deviceId username) := by
  have hle := length_deviceId_le names
  have huser' : 64 ≤ username.length := huser
  have hstr := str_zeroed (n := 54) (by omega) hid
  have hcpy := memcpy_ended (s := []) (u := username) hstr
    (by rw [List.length_nil, List.nil_append]; omega)
  simp only [List.nil_append, List.length_nil, Nat.zero_add] at hcpy
  rw [setupUsername, strlen_of_str hstr]
  exact hcpy

theorem setupClientId_spec {clientId : List UInt8} (hid : 0 ∉ names.deviceId)
    (hclient : CLIENTID_MAXLEN ≤ clientId.length) :
    setupClientId clientId (zeroed 54 names.deviceId) = some (ended names.clientId clientId) := by
  have hle := length_deviceId_le names
  have hclient' : 150 ≤ clientId.length := hclient
  have hstr := str_zeroed (n := 54) (by omega) hid
  have hkv : str MQTT_CLINETID_KV = some Names.kv := str_literal (by decide)
  have hkvlen : Names.kv.length = 82 := by decide
  have hcpy := memcpy_str (s := []) (u := clientId) hstr
    (by rw [List.length_nil, List.nil_append]; omega)
  simp only [List.nil_append, List.length_nil] at hcpy
  have hend := memcpy_ended (s := names.deviceId) (u := clientId.drop names.deviceId.length) hkv
    (by rw [List.length_append, List.length_drop, hkvlen]; omega)
  rw [setupClientId, strlen_of_str hstr, strlen_of_str hkv]
  simp only [Option.bind_eq_bind, Option.bind_some, hcpy]
  rw [hend, ended, Names.clientId, List.drop_drop, List.length_append, Nat.add_assoc]

theorem setupMacSrc_spec {deviceId : List UInt8} (hid : str deviceId = some names.deviceId)
    (hpk : str productKey = some names.productKey)
    (hdn : str deviceName = some names.deviceName) :
    setupMacSrc deviceId deviceName productKey = some (zeroed 200 names.source) ∧
      names.source.length < 200 := by
  have hpklen : names.productKey.length ≤ 20 := names.productKey_le
  have hdnlen : names.deviceName.length ≤ 32 := names.deviceName_le
  have hidlen := length_deviceId_le names
  have hlit : str (literal "clientId") = some (bytes "clientId") := str_literal (by decide)
  have hfirst : memcpy (List.replicate SIGN_SOURCE_MAXLEN 0) 0 (literal "clientId")
      (bytes "clientId").length = some (zeroed 200 (bytes "clientId")) :=
    memcpy_first hlit (by decide)
  have hlen : names.source.length = 50 + names.deviceId.length + names.deviceName.length +
      names.productKey.length := by
    have h1 : (bytes "clientId").length = 8 := by decide
    have h2 : (bytes "deviceName").length = 10 := by decide
    have h3 : (bytes "productKey").length = 10 := by decide
    have h4 : (bytes "timestamp").length = 9 := by decide
    have h5 : (bytes "2524608000000").length = 13 := by decide
    simp only [Names.source, List.length_append, h1, h2, h3, h4, h5]
    omega
  have hsource : names.source = bytes "clientId" ++ [(deviceId, names.deviceId),
      (literal "deviceName", bytes "deviceName"), (deviceName, names.deviceName),
      (literal "productKey", bytes "productKey"), (productKey, names.productKey),
      (literal "timestamp", bytes "timestamp"),
      (TIMESTAMP_VALUE, bytes "2524608000000")].flatMap Prod.snd := by
    simp [Names.source]
  refine ⟨?_, by omega⟩
  rw [setupMacSrc, strlen_of_str hlit, hsource]
  refine Eq.trans ?_ (copyAll_spec _ ?_ (by decide) (by rw [← hsource]; omega))
  · simp only [Option.bind_eq_bind, Option.bind_some, hfirst]
    simp
  · intro p hp
    simp only [List.mem_cons, List.not_mem_nil, or_false] at hp
    rcases hp with rfl | rfl | rfl | rfl | rfl | rfl | rfl
    · exact hid
    · exact str_literal (by decide)
    · exact hdn
    · exact str_literal (by decide)
    · exact hpk
    · exact str_literal (by decide)
    · exact str_literal (by decide)

theorem setupPassword_spec {password macSrc : List UInt8}
    (hsrc : str macSrc = some names.source) (hlen : names.source.length < 200)
    (hds : str deviceSecret = some names.deviceSecret) (hpass : PASSWORD_MAXLEN ≤ password.length) :
    setupPassword password macSrc deviceSecret = some (ended names.password password) := by
  have hdslen : names.deviceSecret.length ≤ 64 := names.deviceSecret_le
  have hmsgn : (BitVec.ofNat 32 names.source.length).toNat = names.source.length := by
    rw [BitVec.toNat_ofNat]
    omega
  have hkeyn : (BitVec.ofNat 32 names.deviceSecret.length).toNat = names.deviceSecret.length := by
    rw [BitVec.toNat_ofNat]
    omega
  have hmac := hmac_spec macSrc deviceSecret (List.replicate 32 0)
    (BitVec.ofNat 32 names.source.length) (BitVec.ofNat 32 names.deviceSecret.length)
    (by rw [hmsgn]; exact Nat.le_of_lt (length_str_lt hsrc))
    (by rw [hkeyn]; exact Nat.le_of_lt (length_str_lt hds)) (by rw [List.length_replicate])
    (by omega)
  rw [hmsgn, hkeyn, take_of_str hsrc, take_of_str hds,
    show (List.replicate 32 0 : List UInt8).drop 32 = [] from rfl, List.append_nil] at hmac
  have hpass' : 65 ≤ password.length := hpass
  have hzeros := putBytes_append (s := []) (t := List.replicate PASSWORD_MAXLEN 0) (u := password)
    (by rw [List.length_nil, List.nil_append, List.length_replicate, Nat.zero_add]; exact hpass)
  simp only [List.nil_append, List.length_nil, List.length_replicate] at hzeros
  obtain ⟨mac, hmaceq⟩ : ∃ mac, mac = Sha2.hmac Sha2.sha256 64 names.deviceSecret names.source :=
    ⟨_, rfl⟩
  have hmaclen : mac.length = 32 := by
    rw [hmaceq]
    exact Sha2.length_sha256
  rw [← hmaceq] at hmac
  have hroom : 2 * mac.length ≤
      (List.replicate PASSWORD_MAXLEN 0 ++ password.drop PASSWORD_MAXLEN).length := by
    rw [List.length_append, List.length_replicate, hmaclen]
    exact Nat.le_trans (by decide) (Nat.le_add_right PASSWORD_MAXLEN _)
  have hhex := hex2str_spec mac _ hroom
  rw [hmaclen] at hhex
  have hend : (List.replicate PASSWORD_MAXLEN 0 ++ password.drop PASSWORD_MAXLEN).drop 64 =
      0 :: password.drop PASSWORD_MAXLEN := by
    have hone : (List.replicate PASSWORD_MAXLEN (0 : UInt8)).drop 64 = [0] := by
      rw [List.drop_replicate]
      exact List.replicate_one
    rw [List.drop_append_of_le_length (by rw [List.length_replicate]; decide), hone]
    rfl
  have hover : hexString mac ++ 0 :: password.drop PASSWORD_MAXLEN =
      ended names.password password := by
    rw [ended, Names.password, ← hmaceq, length_hexString, hmaclen]
    rfl
  have hhex' : _hex2str mac 32 (List.replicate PASSWORD_MAXLEN 0 ++ password.drop PASSWORD_MAXLEN) =
      some (ended names.password password) := by
    rw [← hover, ← hend]
    exact hhex
  rw [setupPassword, strlen_of_str hsrc, strlen_of_str hds, Option.bind_eq_bind, Option.bind_some,
    Option.bind_eq_bind, Option.bind_some]
  show (utils_hmac_sha256 (some macSrc) (BitVec.ofNat 32 names.source.length) (some deviceSecret)
    (BitVec.ofNat 32 names.deviceSecret.length) (some (List.replicate 32 0))).bind _ = _
  rw [hmac, Option.bind_some, Option.bind_eq_bind, Option.bind_some, hzeros]
  exact hhex'

theorem source_ne_zero (hpk : str productKey = some names.productKey)
    (hdn : str deviceName = some names.deviceName) : 0 ∉ names.source := by
  have hid := deviceId_ne_zero hpk hdn
  have hpk0 := not_mem_of_str hpk
  have hdn0 := not_mem_of_str hdn
  have h1 : 0 ∉ bytes "clientId" := by decide
  have h2 : 0 ∉ bytes "deviceName" := by decide
  have h3 : 0 ∉ bytes "productKey" := by decide
  have h4 : 0 ∉ bytes "timestamp" := by decide
  have h5 : 0 ∉ bytes "2524608000000" := by decide
  rw [Names.source]
  simp only [List.mem_append, not_or]
  exact ⟨⟨⟨⟨⟨⟨⟨h1, hid⟩, h2⟩, hdn0⟩, h3⟩, hpk0⟩, h4⟩, h5⟩

end

/-! ## Signing -/

/-- What `aiotMqttSign` is to do. -/
def signed (productKey deviceName deviceSecret : Option (List UInt8)) (out : SignBuffers) :
    Int × SignBuffers :=
  match Names.read productKey deviceName deviceSecret, out with
  | some names, ⟨some clientId, some username, some password⟩ =>
      (0, ⟨some (ended names.clientId clientId), some (ended names.deviceId username),
        some (ended names.password password)⟩)
  | _, _ => (-1, out)

/-- What is written can be read back as the strings it is meant to be. -/
theorem Names.strings {productKey deviceName deviceSecret : Option (List UInt8)} {names : Names}
    (h : Names.read productKey deviceName deviceSecret = some names) (buf : List UInt8) :
    str (ended names.clientId buf) = some names.clientId ∧
      str (ended names.deviceId buf) = some names.deviceId ∧
      str (ended names.password buf) = some names.password := by
  rw [Names.read] at h
  obtain ⟨pk, hpk, h⟩ := Option.bind_eq_some_iff.1 h
  obtain ⟨dn, hdn, h⟩ := Option.bind_eq_some_iff.1 h
  obtain ⟨ds, hds, h⟩ := Option.bind_eq_some_iff.1 h
  split at h
  · next hfit =>
      obtain ⟨pkbuf, -, hpk⟩ := Option.bind_eq_some_iff.1 hpk
      obtain ⟨dnbuf, -, hdn⟩ := Option.bind_eq_some_iff.1 hdn
      cases h
      have hid : 0 ∉ (Names.mk pk dn ds hfit.1 hfit.2.1 hfit.2.2).deviceId :=
        deviceId_ne_zero hpk hdn
      refine ⟨str_append_zero ?_, str_append_zero hid, str_append_zero hexString_ne_zero⟩
      rw [Names.clientId, List.mem_append, not_or]
      exact ⟨hid, by decide⟩
  · cases h

theorem tooLong_spec {productKey deviceName deviceSecret pk dn ds : List UInt8}
    (hpk : str productKey = some pk) (hdn : str deviceName = some dn)
    (hds : str deviceSecret = some ds) :
    tooLong productKey deviceName deviceSecret = some (decide (¬ (pk.length ≤ PRODUCTKEY_MAXLEN ∧
      dn.length ≤ DEVICENAME_MAXLEN ∧ ds.length ≤ DEVICESECRET_MAXLEN))) := by
  rw [tooLong, strlen_of_str hpk, strlen_of_str hdn, strlen_of_str hds]
  simp only [Option.bind_eq_bind, Option.bind_some]
  by_cases h1 : PRODUCTKEY_MAXLEN < pk.length
  · have hlong : ¬ (pk.length ≤ PRODUCTKEY_MAXLEN ∧ dn.length ≤ DEVICENAME_MAXLEN ∧
        ds.length ≤ DEVICESECRET_MAXLEN) := fun h => Nat.not_lt.2 h.1 h1
    rw [if_pos h1, decide_eq_true hlong]
  by_cases h2 : DEVICENAME_MAXLEN < dn.length
  · have hlong : ¬ (pk.length ≤ PRODUCTKEY_MAXLEN ∧ dn.length ≤ DEVICENAME_MAXLEN ∧
        ds.length ≤ DEVICESECRET_MAXLEN) := fun h => Nat.not_lt.2 h.2.1 h2
    rw [if_neg h1, if_pos h2, decide_eq_true hlong]
  · have hiff : DEVICESECRET_MAXLEN < ds.length ↔ ¬ (pk.length ≤ PRODUCTKEY_MAXLEN ∧
        dn.length ≤ DEVICENAME_MAXLEN ∧ ds.length ≤ DEVICESECRET_MAXLEN) := by
      rw [Nat.not_lt] at h1 h2
      simp [h1, h2]
    rw [if_neg h1, if_neg h2, decide_eq_decide.2 hiff]

/-- The buffers that there are are as large as the source declares them. -/
structure SignBuffers.Large (out : SignBuffers) : Prop where
  clientId : ∀ buf ∈ out.clientId, CLIENTID_MAXLEN ≤ buf.length
  username : ∀ buf ∈ out.username, USERNAME_MAXLEN ≤ buf.length
  password : ∀ buf ∈ out.password, PASSWORD_MAXLEN ≤ buf.length

theorem read_spec {productKey deviceName deviceSecret pk dn ds : List UInt8}
    (hpk : str productKey = some pk) (hdn : str deviceName = some dn)
    (hds : str deviceSecret = some ds) :
    Names.read (some productKey) (some deviceName) (some deviceSecret) =
      if h : pk.length ≤ PRODUCTKEY_MAXLEN ∧ dn.length ≤ DEVICENAME_MAXLEN ∧
          ds.length ≤ DEVICESECRET_MAXLEN then
        some ⟨pk, dn, ds, h.1, h.2.1, h.2.2⟩
      else none := by
  simp only [Names.read, Option.bind_some, hpk, hdn, hds, Option.bind_eq_bind]

theorem signed_of_null {productKey deviceName deviceSecret : Option (List UInt8)}
    {out : SignBuffers} (h : productKey = none ∨ deviceName = none ∨ deviceSecret = none ∨
      out.clientId = none ∨ out.username = none ∨ out.password = none) :
    signed productKey deviceName deviceSecret out = (-1, out) ∧
      aiotMqttSign productKey deviceName deviceSecret out = some (-1, out) := by
  obtain ⟨clientId, username, password⟩ := out
  have hread : (productKey = none ∨ deviceName = none ∨ deviceSecret = none) →
      Names.read productKey deviceName deviceSecret = none := by
    intro h
    rw [Names.read]
    rcases h with rfl | rfl | rfl <;> simp
  constructor
  · rw [signed]
    intro names clientId username password hsome heq
    cases heq
    rcases h with h | h | h | h | h | h
    · rw [hread (.inl h)] at hsome
      cases hsome
    · rw [hread (.inr (.inl h))] at hsome
      cases hsome
    · rw [hread (.inr (.inr h))] at hsome
      cases hsome
    · cases h
    · cases h
    · cases h
  · rw [aiotMqttSign]
    rintro _ _ _ _ _ _ rfl rfl rfl heq
    cases heq
    rcases h with h | h | h | h | h | h <;> cases h

theorem aiotMqttSign_eq {productKey deviceName deviceSecret : Option (List UInt8)}
    {out : SignBuffers} (hpk : ∀ buf ∈ productKey, 0 ∈ buf) (hdn : ∀ buf ∈ deviceName, 0 ∈ buf)
    (hds : ∀ buf ∈ deviceSecret, 0 ∈ buf) (hout : out.Large) :
    aiotMqttSign productKey deviceName deviceSecret out =
      some (signed productKey deviceName deviceSecret out) := by
  by_cases hnull : productKey = none ∨ deviceName = none ∨ deviceSecret = none ∨
      out.clientId = none ∨ out.username = none ∨ out.password = none
  · obtain ⟨hsigned, hsign⟩ := signed_of_null hnull
    rw [hsign, hsigned]
  obtain ⟨clientId, username, password⟩ := out
  simp only [not_or, ← ne_eq, Option.ne_none_iff_exists'] at hnull
  obtain ⟨⟨productKey, rfl⟩, ⟨deviceName, rfl⟩, ⟨deviceSecret, rfl⟩, ⟨clientId, rfl⟩,
    ⟨username, rfl⟩, ⟨password, rfl⟩⟩ := hnull
  obtain ⟨pk, hpk⟩ := str_of_mem (hpk productKey rfl)
  obtain ⟨dn, hdn⟩ := str_of_mem (hdn deviceName rfl)
  obtain ⟨ds, hds⟩ := str_of_mem (hds deviceSecret rfl)
  have hread := read_spec hpk hdn hds
  have hlong := tooLong_spec hpk hdn hds
  by_cases hfit : pk.length ≤ PRODUCTKEY_MAXLEN ∧ dn.length ≤ DEVICENAME_MAXLEN ∧
      ds.length ≤ DEVICESECRET_MAXLEN
  · rw [dif_pos hfit] at hread
    rw [decide_eq_false (not_not.2 hfit)] at hlong
    obtain ⟨names, hnames⟩ : ∃ names, names = Names.mk pk dn ds hfit.1 hfit.2.1 hfit.2.2 := ⟨_, rfl⟩
    rw [← hnames] at hread
    have hpk' : str productKey = some names.productKey := by rw [hpk, hnames]
    have hdn' : str deviceName = some names.deviceName := by rw [hdn, hnames]
    have hds' : str deviceSecret = some names.deviceSecret := by rw [hds, hnames]
    have hid := deviceId_ne_zero hpk' hdn'
    have hidlen : names.deviceId.length < 54 := Nat.lt_succ_of_le (length_deviceId_le names)
    obtain ⟨hsrc, hsrclen⟩ := setupMacSrc_spec (str_zeroed hidlen hid) hpk' hdn'
    have hpassword := setupPassword_spec (str_zeroed hsrclen (source_ne_zero hpk' hdn')) hsrclen
      hds' (hout.password password rfl)
    have hsigned : signed (some productKey) (some deviceName) (some deviceSecret)
        ⟨some clientId, some username, some password⟩ =
        (0, ⟨some (ended names.clientId clientId), some (ended names.deviceId username),
          some (ended names.password password)⟩) := by
      unfold signed
      rw [hread]
    rw [hsigned, aiotMqttSign, hlong]
    simp only [Option.bind_eq_bind, Option.bind_some, setupDeviceId_spec hpk' hdn',
      setupClientId_spec hid (hout.clientId clientId rfl),
      setupUsername_spec hid (hout.username username rfl), hsrc, hpassword]
    rfl
  · rw [dif_neg hfit] at hread
    rw [decide_eq_true hfit] at hlong
    have hsigned : signed (some productKey) (some deviceName) (some deviceSecret)
        ⟨some clientId, some username, some password⟩ =
        (-1, ⟨some clientId, some username, some password⟩) := by
      unfold signed
      rw [hread]
    rw [hsigned, aiotMqttSign, hlong]
    rfl

/-- With the shortest names and buffers of the sizes of the source. -/
theorem aiotMqttSign_eq_short : aiotMqttSign (some (literal "p")) (some (literal "d"))
    (some (literal "s")) ⟨some (List.replicate 150 1), some (List.replicate 64 1),
      some (List.replicate 65 1)⟩ =
    some (signed (some (literal "p")) (some (literal "d")) (some (literal "s"))
      ⟨some (List.replicate 150 1), some (List.replicate 64 1), some (List.replicate 65 1)⟩) := by
  have hzero (text : String) : ∀ buf ∈ some (literal text), 0 ∈ buf := by
    intro buf hbuf
    rw [← Option.some.inj hbuf]
    exact List.mem_append_right _ List.mem_cons_self
  have hsize (n : Nat) : ∀ buf ∈ some (List.replicate n (1 : UInt8)), n ≤ buf.length := by
    intro buf hbuf
    rw [← Option.some.inj hbuf, List.length_replicate]
  have hlarge : SignBuffers.Large ⟨some (List.replicate 150 1), some (List.replicate 64 1),
      some (List.replicate 65 1)⟩ := ⟨hsize 150, hsize 64, hsize 65⟩
  exact aiotMqttSign_eq (hzero "p") (hzero "d") (hzero "s") hlarge

end Auth

end IotCamera
