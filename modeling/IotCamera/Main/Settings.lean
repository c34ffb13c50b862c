import IotCamera.Common.Profile
import IotCamera.Lib.Packed

/-!
# The settings

`main` starts with the settings file. `readInifile` looks seven keys up: the
two modes go through `__tmp`, which starts with whatever was on the stack and
is used twice, and the five strings are read straight into their arrays. Later
`main` fills in a table of callbacks for the media mode and registers it.

`sscanf` is given the modes themselves in place of their addresses. They are 1
and 0 at that time, where nothing is mapped, so there is a result only if the
string has no number in it and nothing is stored. The function falls off its
end, and is taken to return.
-/

namespace IotCamera

open CString

/-- `NETWORK_WIFIAP` -/
def networkWifiap : UInt32 := 1

/-- `MEDIA_RTSP` -/
def mediaRtsp : UInt32 := 0

/-- `MEDIA_RTMP` -/
def mediaRtmp : UInt32 := 1

/-- `MEDIA_AVCHAT` -/
def mediaAvchat : UInt32 := 2

/-- The statics of `main.cpp` the settings go to. -/
structure Settings where
  rtmpurl : List UInt8
  wifissid : List UInt8
  wifipass : List UInt8
  rtphost : List UInt8
  rtpport : List UInt8
  networkmod : UInt32
  mediamod : UInt32
  deriving DecidableEq

/-- Before `main` runs. -/
def Settings.init : Settings where
  rtmpurl := (Packed.zeros 256).1
  wifissid := (Packed.zeros 32).1
  wifipass := (Packed.zeros 32).1
  rtphost := (Packed.zeros 32).1
  rtpport := (Packed.zeros 32).1
  networkmod := networkWifiap
  mediamod := mediaRtsp

/-- `GetProfileString(CONFIG_INIT_FILE_PATH, "GENERAL", KeyName, KeyVal)`, where
the answer is not looked at. -/
def general (ptr : Nat) (profile : Option (List UInt8)) (KeyName KeyVal : List UInt8) :
    Option (List UInt8) :=
  (GetProfileString ptr profile (bytes "GENERAL") KeyName KeyVal).map Prod.snd

/-- `sscanf(__tmp, "%d", mode)`: a number would be stored at the address
`mode`. -/
def sscanf (__tmp : List UInt8) : Option Unit := do
  let s ← str __tmp
  if scanInt s = none then some () else none

/-- `main` calls it once, first thing. -/
def readInifile (ptr : Nat) (profile : Option (List UInt8)) (__tmp : Bytes 32) :
    Option Settings := do
  let s := Settings.init
  let __tmp ← general ptr profile (bytes "NETWORKMOD") __tmp.1
  sscanf __tmp
  let __tmp ← general ptr profile (bytes "MEDIAMOD") __tmp
  sscanf __tmp
  let rtmpurl ← general ptr profile (bytes "RTMPURL") s.rtmpurl
  let rtpport ← general ptr profile (bytes "RTPPORT") s.rtpport
  let rtphost ← general ptr profile (bytes "RTPHOST") s.rtphost
  let wifissid ← general ptr profile (bytes "WIFISSID") s.wifissid
  let wifipass ← general ptr profile (bytes "WIFIPASS") s.wifipass
  some { s with rtmpurl, rtpport, rtphost, wifissid, wifipass }

/-! ## The media mode -/

inductive Callback
  | rtsp_write_a
  | rtsp_write_v
  | rtmp_write_a
  | rtmp_write_v
  | rtpts_write_a
  | rtpts_write_v
  deriving DecidableEq

/-- A field that `main` has not assigned holds nothing. -/
structure MEDIA_WRITE where
  write_a : Option Callback
  write_v : Option Callback
  chn : Option Int
  deriving DecidableEq

namespace MEDIA_WRITE

/-- On the stack of `main`. -/
def unassigned : MEDIA_WRITE := ⟨none, none, none⟩

def Assigned (mw : MEDIA_WRITE) : Prop := mw.write_a.isSome ∧ mw.write_v.isSome ∧ mw.chn.isSome

instance (mw : MEDIA_WRITE) : Decidable mw.Assigned :=
  inferInstanceAs (Decidable (mw.write_a.isSome ∧ mw.write_v.isSome ∧ mw.chn.isSome))

end MEDIA_WRITE

/-- The dispatch of `main` on `mediamod`: the table it passes to
`register_mw`. -/
def registered (mediamod : UInt32) : Option MEDIA_WRITE :=
  let mwrtp : MEDIA_WRITE := .unassigned
  let mwrtmp : MEDIA_WRITE := .unassigned
  let mwrtsp : MEDIA_WRITE := .unassigned
  if mediamod = mediaRtsp then
    let mwrtsp := { mwrtsp with write_a := some .rtsp_write_a }
    let mwrtsp := { mwrtsp with write_v := some .rtsp_write_v }
    let mwrtsp := { mwrtsp with chn := some 0 }
    some mwrtsp
  else if mediamod = mediaRtmp then
    let mwrtmp := { mwrtmp with write_a := some .rtmp_write_a }
    let mwrtmp := { mwrtmp with write_v := some .rtmp_write_v }
    let mwrtmp := { mwrtmp with chn := some 1 }
    some mwrtmp
  else if mediamod = mediaAvchat then
    let mwrtp := { mwrtp with write_a := some .rtpts_write_a }
    let mwrtp := { mwrtp with write_v := some .rtpts_write_v }
    let _mwrtp := { mwrtp with chn := some 1 }
    some mwrtmp
  else none

end IotCamera
