import IotCamera.Main.Settings
import IotCamera.Proofs.ProfileBuffer

/-!
# Settings that take effect

`readInifile` has seven lookups to survive. Each needs room, for the names and
for the value, and a value long enough for the block it is trimmed in; and the
two that go through `__tmp` are followed by a `sscanf` that must not find a
number. What it reads there is the value from the file, or, where the file has
none, what the buffer held before: for the first key that is whatever was on the
stack.

So one lookup is described by the string it leaves in its buffer. Trimming does
not change the number at the front of that string. The description is the same
for the two modes and for the five strings, and the function is the seven of
them in a row.

A run that survives stores no number, and both modes keep the values they had.
The settings take effect exactly if the file asks for those.
-/

namespace IotCamera

open CString Profile

variable {ptr : Nat} {profile : Option (List UInt8)} {key KeyVal KeyVal' c s : List UInt8}

/-! ## The string in the buffer -/

namespace Profile

/-- What is in the buffer before it is trimmed: the text up to the end of the
line, or what was there. -/
def held (c KeyVal : List UInt8) : Option (List UInt8) :=
  if upToNewline c = [] then str KeyVal else fits KeyVal.length (upToNewline c)

/-- What trimming leaves of a string, blanks being left as they are. -/
def trimmed (s : List UInt8) : List UInt8 := if Blank s then s else trim s

theorem scanInt_trimmed (s : List UInt8) : scanInt (trimmed s) = scanInt s := by
  rw [trimmed]
  split
  · rfl
  · exact scanInt_trim

/-- Trimming in place keeps the size of the buffer. -/
theorem trimBack_some (h : str KeyVal = some s) (hptr : ptr ≤ s.length + 1) :
    ∃ buf, trimBack ptr KeyVal s = some buf ∧ buf.length = KeyVal.length ∧
      str buf = some (trimmed s) := by
  rw [trimmed]
  by_cases hblank : Blank s
  · rw [if_pos hblank]
    exact ⟨KeyVal, trimBack_of_blank hptr hblank, rfl, h⟩
  · rw [if_neg hblank]
    exact trimBack_of_not_blank hptr hblank h

theorem takeValue_some (hzero : 0 ∉ c) (h : held c KeyVal = some s) (hptr : ptr ≤ s.length + 1) :
    ∃ buf, takeValue ptr c KeyVal = some buf ∧ buf.length = KeyVal.length ∧
      str buf = some (trimmed s) := by
  rw [held] at h
  split at h
  · next hnil =>
      rw [takeValue_of_nil hnil, h, Option.bind_some]
      exact trimBack_some h hptr
  · next hne =>
      obtain ⟨hlen, rfl⟩ := fits_eq_some.1 h
      have hcpy := strcpy_eq_some.2 ⟨hlen, rfl⟩
      obtain ⟨buf, hbuf, hsize, hrest⟩ :=
        trimBack_some (str_strcpy (zero_upToNewline hzero) hcpy) hptr
      refine ⟨buf, ?_, hsize.trans (length_strcpy hcpy), hrest⟩
      rw [takeValue_of_ne_nil hzero hne, hcpy, Option.bind_some, hbuf]

/-- There has to be a string in the buffer, and it has to be long enough. -/
theorem held_of_takeValue {buf : List UInt8} (hzero : 0 ∉ c)
    (h : takeValue ptr c KeyVal = some buf) :
    ∃ s, held c KeyVal = some s ∧ ptr ≤ s.length + 1 := by
  by_cases hnil : upToNewline c = []
  · rw [takeValue_of_nil hnil] at h
    obtain ⟨s, hs, hback⟩ := Option.bind_eq_some_iff.1 h
    refine ⟨s, by rw [held, if_pos hnil, hs], ?_⟩
    by_contra hptr
    rw [trimBack_of_short hptr] at hback
    cases hback
  · have hptr := ptr_le_of_takeValue hzero hnil h
    rw [takeValue_of_ne_nil hzero hnil] at h
    obtain ⟨val, hval, -⟩ := Option.bind_eq_some_iff.1 h
    have hfits := fits_eq_some.2 ⟨(strcpy_eq_some.1 hval).1, rfl⟩
    exact ⟨upToNewline c, by rw [held, if_neg hnil, hfits], hptr⟩

end Profile

/-! ## One lookup -/

/-- The line `GetProfileString` finds among those it sees. -/
def found (profile : Option (List UInt8)) (key : List UInt8) : Option (List UInt8) :=
  profile.bind fun file => assignment (bytes "GENERAL") key (readLines file)

/-- The text it puts into the buffer, if there is any. -/
def stored (profile : Option (List UInt8)) (key : List UInt8) : Option (List UInt8) :=
  (found profile key).bind fun line =>
    if upToNewline (valueText line) = [] then none else some (upToNewline (valueText line))

/-- The names fit the buffers of `GetProfileString`, and the value one of `n`
bytes. -/
def Room (profile : Option (List UInt8)) (key : List UInt8) (n : Nat) : Prop :=
  (∀ file ∈ profile, Fits (bytes "GENERAL") key (readLines file)) ∧
    ∀ v ∈ stored profile key, v.length < n

/-- If the key is there, the string is at least a pointer long with its zero
byte. -/
def FillsBlock (ptr : Nat) (profile : Option (List UInt8)) (key s : List UInt8) : Prop :=
  (found profile key).isSome → ptr ≤ s.length + 1

/-- The string in a buffer after the lookup of the key, with `s` the text it put
there or the string that was there. -/
def after (profile : Option (List UInt8)) (key s : List UInt8) : List UInt8 :=
  if (found profile key).isSome then trimmed s else s

theorem scanInt_after (profile : Option (List UInt8)) (key s : List UInt8) :
    scanInt (after profile key s) = scanInt s := by
  rw [after]
  split
  · exact scanInt_trimmed s
  · rfl

theorem general_eq (h : ∀ file ∈ profile, Fits (bytes "GENERAL") key (readLines file)) :
    general ptr profile key KeyVal =
      match found profile key with
      | none => some KeyVal
      | some line => takeValue ptr (valueText line) KeyVal := by
  cases profile with
  | none => rfl
  | some file =>
      rw [general, getProfileString_eq (h file rfl), found, Option.bind_some]
      cases assignment (bytes "GENERAL") key (readLines file) with
      | none => rfl
      | some line =>
          show ((takeValue ptr (valueText line) KeyVal).map _).map _ = _
          rw [Option.map_map]
          exact Option.map_id'

theorem fits_of_general (h : general ptr profile key KeyVal = some KeyVal') :
    ∀ file ∈ profile, Fits (bytes "GENERAL") key (readLines file) := by
  intro file hfile
  rw [Option.mem_def] at hfile
  subst hfile
  by_contra hfits
  rw [general, getProfileString_none hfits] at h
  cases h

theorem zero_of_found {line : List UInt8} (h : found profile key = some line) :
    0 ∉ valueText line := by
  obtain ⟨file, -, hline⟩ := Option.bind_eq_some_iff.1 h
  exact zero_of_matched hline

/-- In a line that is found, what is held in the buffer is the text put there,
or the old string. -/
theorem held_found {line : List UInt8} (hfound : found profile key = some line)
    (hroom : ∀ v ∈ stored profile key, v.length < KeyVal.length) :
    held (valueText line) KeyVal = (stored profile key).or (str KeyVal) := by
  rw [stored, hfound, Option.bind_some] at hroom ⊢
  rw [held]
  split
  · rfl
  · next hne =>
      rw [if_neg hne] at hroom
      exact fits_eq_some.2 ⟨hroom _ rfl, rfl⟩

theorem general_some (hroom : Room profile key KeyVal.length)
    (h : (stored profile key).or (str KeyVal) = some s) (hblock : FillsBlock ptr profile key s) :
    ∃ buf, general ptr profile key KeyVal = some buf ∧ buf.length = KeyVal.length ∧
      str buf = some (after profile key s) := by
  rw [general_eq hroom.1]
  cases hfound : found profile key with
  | none =>
      rw [stored, hfound] at h
      rw [after, hfound]
      exact ⟨KeyVal, rfl, rfl, h⟩
  | some line =>
      rw [after, hfound]
      rw [FillsBlock, hfound] at hblock
      exact takeValue_some (zero_of_found hfound) ((held_found hfound hroom.2).trans h)
        (hblock rfl)

/-- And there is no other way to get through it. -/
theorem room_of_general (h : general ptr profile key KeyVal = some KeyVal')
    (hstr : (str KeyVal').isSome) :
    Room profile key KeyVal.length ∧
      ∃ s, (stored profile key).or (str KeyVal) = some s ∧ FillsBlock ptr profile key s := by
  have hfits := fits_of_general h
  rw [general_eq hfits] at h
  cases hfound : found profile key with
  | none =>
      rw [hfound] at h
      cases h
      obtain ⟨s, hs⟩ := Option.isSome_iff_exists.1 hstr
      have hstored : stored profile key = none := by rw [stored, hfound, Option.bind_none]
      refine ⟨⟨hfits, fun v hv => ?_⟩, s, by rw [hstored, hs, Option.none_or], fun hsome => ?_⟩
      · rw [hstored] at hv
        cases hv
      · rw [hfound] at hsome
        cases hsome
  | some line =>
      rw [hfound] at h
      obtain ⟨s, hs, hptr⟩ := held_of_takeValue (zero_of_found hfound) h
      have hroom : ∀ v ∈ stored profile key, v.length < KeyVal.length := by
        rw [stored, hfound, Option.bind_some]
        intro v hv
        rw [held] at hs
        split at hs
        · next hnil =>
            rw [if_pos hnil] at hv
            cases hv
        · next hne =>
            rw [if_neg hne] at hv
            cases hv
            exact (fits_eq_some.1 hs).1
      exact ⟨⟨hfits, hroom⟩, s, (held_found hfound hroom).symm.trans hs, fun _ => hptr⟩

/-! ## The seven lookups -/

theorem sscanf_eq_some : sscanf KeyVal = some () ↔ ∃ s, str KeyVal = some s ∧ scanInt s = none := by
  constructor
  · intro h
    obtain ⟨s, hs, h⟩ := Option.bind_eq_some_iff.1 h
    split at h
    · next hnone => exact ⟨s, hs, hnone⟩
    · cases h
  · rintro ⟨s, hs, hnone⟩
    show (str KeyVal).bind _ = _
    rw [hs, Option.bind_some, if_pos hnone]

/-- A mode is looked up in a buffer with the string `old`, or none, and `sscanf`
finds no number there: `s` is the text of the mode, or else the old string. -/
structure Mode (ptr : Nat) (profile : Option (List UInt8)) (key : List UInt8)
    (old : Option (List UInt8)) (s : List UInt8) : Prop where
  room : Room profile key 32
  held : (stored profile key).or old = some s
  block : FillsBlock ptr profile key s
  scan : scanInt s = none

theorem Mode.general (h : Mode ptr profile key (str KeyVal) s) (hlen : KeyVal.length = 32) :
    ∃ buf, general ptr profile key KeyVal = some buf ∧ sscanf buf = some () ∧
      buf.length = 32 ∧ str buf = some (after profile key s) := by
  obtain ⟨buf, hbuf, hsize, hstr⟩ := general_some (hlen.symm ▸ h.room) h.held h.block
  exact ⟨buf, hbuf, sscanf_eq_some.2 ⟨_, hstr, (scanInt_after _ _ _).trans h.scan⟩,
    hsize.trans hlen, hstr⟩

theorem mode_of_general (h : general ptr profile key KeyVal = some KeyVal')
    (hscan : sscanf KeyVal' = some ()) (hlen : KeyVal.length = 32) :
    ∃ s, Mode ptr profile key (str KeyVal) s := by
  obtain ⟨t, ht, hnone⟩ := sscanf_eq_some.1 hscan
  obtain ⟨hroom, s, hs, hblock⟩ := room_of_general h (Option.isSome_iff_exists.2 ⟨t, ht⟩)
  obtain ⟨buf, hbuf, -, hstr⟩ := general_some hroom hs hblock
  rw [h] at hbuf
  cases hbuf
  rw [ht] at hstr
  cases hstr
  exact ⟨s, hlen ▸ hroom, hs, hblock, (scanInt_after _ _ _).symm.trans hnone⟩

/-- A string is looked up in an array of zeros. -/
structure InArray (ptr : Nat) (profile : Option (List UInt8)) (a : List UInt8 × Nat) : Prop where
  room : Room profile a.1 a.2
  block : FillsBlock ptr profile a.1 ((stored profile a.1).getD [])

theorem str_zeros (n : Nat) : str (Packed.zeros (n + 1)).1 = some [] := by
  show str (List.replicate (n + 1) 0) = some []
  rw [List.replicate_succ, str, if_pos List.mem_cons_self]
  rfl

theorem InArray.general {n : Nat} (h : InArray ptr profile (key, n + 1)) :
    ∃ buf, general ptr profile key (Packed.zeros (n + 1)).1 = some buf := by
  have hlen : (Packed.zeros (n + 1)).1.length = n + 1 := (Packed.zeros (n + 1)).2
  have hheld : (stored profile key).or (str (Packed.zeros (n + 1)).1) =
      some ((stored profile key).getD []) := by
    rw [str_zeros]
    cases stored profile key <;> rfl
  obtain ⟨buf, hbuf, -⟩ := general_some (hlen.symm ▸ h.room) hheld h.block
  exact ⟨buf, hbuf⟩

/-- What is copied into an array leaves a string there. -/
theorem str_of_general (h : general ptr profile key KeyVal = some KeyVal')
    (hstr : (str KeyVal).isSome) : (str KeyVal').isSome := by
  rw [general_eq (fits_of_general h)] at h
  cases hfound : found profile key with
  | none =>
      rw [hfound] at h
      cases h
      exact hstr
  | some line =>
      rw [hfound] at h
      have hzero := zero_of_found hfound
      obtain ⟨s, hs, hptr⟩ := held_of_takeValue hzero h
      obtain ⟨buf, hbuf, -, hval⟩ := takeValue_some hzero hs hptr
      obtain rfl := Option.some.inj (h.symm.trans hbuf)
      rw [hval]
      rfl

theorem inArray_of_general {n : Nat}
    (h : general ptr profile key (Packed.zeros (n + 1)).1 = some KeyVal') :
    InArray ptr profile (key, n + 1) := by
  have hstr := str_of_general h (by rw [str_zeros]; rfl)
  obtain ⟨hroom, s, hs, hblock⟩ := room_of_general h hstr
  rw [(Packed.zeros (n + 1)).2] at hroom
  refine ⟨hroom, ?_⟩
  have heq : (stored profile key).getD [] = s := by
    rw [str_zeros] at hs
    cases hv : stored profile key with
    | none =>
        rw [hv, Option.none_or] at hs
        exact Option.some.inj hs
    | some v =>
        rw [hv, Option.some_or] at hs
        exact Option.some.inj hs
  show FillsBlock ptr profile key ((stored profile key).getD [])
  rw [heq]
  exact hblock

/-- The arrays the strings are read into, and their sizes. -/
def arrays : List (List UInt8 × Nat) :=
  [(bytes "RTMPURL", 256), (bytes "RTPPORT", 32), (bytes "RTPHOST", 32),
    (bytes "WIFISSID", 32), (bytes "WIFIPASS", 32)]

/-- What `readInifile` needs to return: the two modes are looked up in `__tmp`,
the second in what the first has left there, and the strings in their arrays. -/
def Survives (ptr : Nat) (profile : Option (List UInt8)) (__tmp : Bytes 32) : Prop :=
  ∃ s t, Mode ptr profile (bytes "NETWORKMOD") (str __tmp.1) s ∧
    Mode ptr profile (bytes "MEDIAMOD") (some (after profile (bytes "NETWORKMOD") s)) t ∧
    ∀ a ∈ arrays, InArray ptr profile a

variable {__tmp : Bytes 32}

theorem readInifile_some (h : Survives ptr profile __tmp) :
    ∃ s, readInifile ptr profile __tmp = some s := by
  obtain ⟨s, t, hnetwork, hmedia, harrays⟩ := h
  obtain ⟨tmp₁, hget₁, hscan₁, hlen₁, hstr₁⟩ := hnetwork.general __tmp.2
  rw [← hstr₁] at hmedia
  obtain ⟨tmp₂, hget₂, hscan₂, -, -⟩ := hmedia.general hlen₁
  have harray : ∀ key n, (key, n + 1) ∈ arrays →
      ∃ buf, general ptr profile key (Packed.zeros (n + 1)).1 = some buf :=
    fun key n hmem => (harrays (key, n + 1) hmem).general
  obtain ⟨rtmpurl, hurl⟩ := harray (bytes "RTMPURL") 255 (by simp [arrays])
  obtain ⟨rtpport, hport⟩ := harray (bytes "RTPPORT") 31 (by simp [arrays])
  obtain ⟨rtphost, hhost⟩ := harray (bytes "RTPHOST") 31 (by simp [arrays])
  obtain ⟨wifissid, hssid⟩ := harray (bytes "WIFISSID") 31 (by simp [arrays])
  obtain ⟨wifipass, hpass⟩ := harray (bytes "WIFIPASS") 31 (by simp [arrays])
  refine ⟨{ Settings.init with rtmpurl, rtpport, rtphost, wifissid, wifipass }, ?_⟩
  simp [readInifile, Settings.init, hget₁, hscan₁, hget₂, hscan₂, hurl, hport, hhost, hssid, hpass]

theorem survives_of_readInifile {s : Settings} (h : readInifile ptr profile __tmp = some s) :
    Survives ptr profile __tmp ∧ s.networkmod = networkWifiap ∧ s.mediamod = mediaRtsp := by
  rw [readInifile] at h
  simp only [Option.bind_eq_bind, Option.bind_eq_some_iff] at h
  obtain ⟨tmp₁, hget₁, _, hscan₁, tmp₂, hget₂, _, hscan₂, rtmpurl, hurl, rtpport, hport,
    rtphost, hhost, wifissid, hssid, wifipass, hpass, hs⟩ := h
  cases hs
  obtain ⟨s, hnetwork⟩ := mode_of_general hget₁ hscan₁ __tmp.2
  obtain ⟨buf, hbuf, -, hlen, hstr⟩ := hnetwork.general __tmp.2
  rw [hget₁, Option.some.injEq] at hbuf
  subst hbuf
  obtain ⟨t, hmedia⟩ := mode_of_general hget₂ hscan₂ hlen
  rw [hstr] at hmedia
  refine ⟨⟨s, t, hnetwork, hmedia, fun a ha => ?_⟩, rfl, rfl⟩
  simp only [arrays, List.mem_cons, List.not_mem_nil, or_false] at ha
  rcases ha with rfl | rfl | rfl | rfl | rfl
  · exact inArray_of_general hurl
  · exact inArray_of_general hport
  · exact inArray_of_general hhost
  · exact inArray_of_general hssid
  · exact inArray_of_general hpass

/-! ## The settings -/

/-- The number the file gives for a mode, or the initial one. -/
def given (profile : Option (List UInt8)) (key : List UInt8) (initial : UInt32) : Int :=
  let line := profile.bind fun file => assignment (bytes "GENERAL") key (lines file)
  (line.bind fun line => scanInt (valueText line)).getD initial.toNat

/-- After `readInifile` the modes are those of the file, and `main` registers a
table it has filled in. -/
def TakesEffect (ptr : Nat) (profile : Option (List UInt8)) (__tmp : Bytes 32) : Prop :=
  ∃ s, readInifile ptr profile __tmp = some s ∧
    (s.networkmod.toNat : Int) = given profile (bytes "NETWORKMOD") networkWifiap ∧
    (s.mediamod.toNat : Int) = given profile (bytes "MEDIAMOD") mediaRtsp ∧
    ∀ mw ∈ registered s.mediamod, mw.Assigned

theorem registered_assigned_iff (mediamod : UInt32) :
    (∀ mw ∈ registered mediamod, mw.Assigned) ↔ mediamod ≠ mediaAvchat := by
  constructor
  · rintro h rfl
    exact absurd (h .unassigned rfl) (by decide)
  · intro hne mw hmw
    rw [registered] at hmw
    split at hmw
    · cases hmw
      decide
    · split at hmw
      · cases hmw
        decide
      · cases hmw

/-- The settings of a file take effect exactly if `readInifile` meets no number,
everything fits and no value is too short for its block, and the file gives the
modes the program starts with. And
of all media modes it is the third for which `main` registers a table it has
not filled in. -/
theorem settings_take_effect_iff (ptr : Nat) (profile : Option (List UInt8))
    (__tmp : Bytes 32) (mediamod : UInt32) :
    (TakesEffect ptr profile __tmp ↔ Survives ptr profile __tmp ∧
      given profile (bytes "NETWORKMOD") networkWifiap = networkWifiap.toNat ∧
      given profile (bytes "MEDIAMOD") mediaRtsp = mediaRtsp.toNat) ∧
    ((∀ mw ∈ registered mediamod, mw.Assigned) ↔ mediamod ≠ mediaAvchat) := by
  refine ⟨?_, registered_assigned_iff mediamod⟩
  constructor
  · rintro ⟨s, hs, hnetwork, hmedia, -⟩
    obtain ⟨hsurvives, hnet, hmed⟩ := survives_of_readInifile hs
    rw [hnet] at hnetwork
    rw [hmed] at hmedia
    exact ⟨hsurvives, hnetwork.symm, hmedia.symm⟩
  · rintro ⟨hsurvives, hnetwork, hmedia⟩
    obtain ⟨s, hs⟩ := readInifile_some hsurvives
    obtain ⟨-, hnet, hmed⟩ := survives_of_readInifile hs
    refine ⟨s, hs, ?_, ?_, ?_⟩
    · rw [hnet, hnetwork]
    · rw [hmed, hmedia]
    · rw [hmed, registered_assigned_iff]
      decide

/-- A file with a mode in it, which is long enough for its block. -/
def stationMode : List UInt8 := bytes "[GENERAL]\nNETWORKMOD=2 (station)\n"

theorem stationMode_lost :
    ¬ TakesEffect 4 (some stationMode) (Packed.zeros 32) ∧
      ¬ ∀ mw ∈ registered mediaAvchat, mw.Assigned := by
  constructor
  · rintro ⟨s, hs, -⟩
    have hnone : readInifile 4 (some stationMode) (Packed.zeros 32) = none := by decide +kernel
    rw [hnone] at hs
    cases hs
  · intro h
    exact absurd (h .unassigned rfl) (by decide)

end IotCamera
