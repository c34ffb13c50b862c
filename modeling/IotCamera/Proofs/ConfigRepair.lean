import IotCamera.Proofs.ConfigFailures

/-!
# What a load repairs

`readcfg` is meant to leave a good configuration behind whatever it finds: if
the file has not got both marks it sets the defaults up and has `savecfg`
write them. But `savecfg` first asks whether there is anything to write, and
it asks the shadow copy, not the file. In a process whose shadow copy is the
defaults already there is not, and the damaged file stays as it is.

The process may be anywhere in its life by then, and the file is open to
everybody, so the runs here are those of the process and of an outside world
that replaces the file between two operations. What `readcfg` does in a state
depends on two things of it, the marks in the file and the shadow copy.

It depends on the descriptors too. The first free one may be 0, which is a good
answer of `open`, and the code takes it for a failure: nothing is read then, and
nothing is written into the file that was emptied.
-/

namespace IotCamera

open Lts CFGDATA

namespace Config

variable {s s' : Config} {file : Option (List UInt8)} {bytes : List UInt8} {c : CFGDATA}

inductive Event
  | op (o : Op)
  /-- somebody else replaces the file, or removes it -/
  | outside (file : Option (List UInt8))

def world (s : Config) : Event → Option Config
  | .op o => step s o
  | .outside file => some { s with file := file }

/-- Both marks stand where a record has them. -/
def Marked (bytes : List UInt8) : Prop :=
  (bytes.drop 4).take 4 = (Packed.u32le checkStart).1 ∧
    (bytes.drop 137).take 4 = (Packed.u32le chekEnd).1

/-- The record is valid, and all three copies of it agree. -/
structure Repaired (s : Config) : Prop where
  valid : s.cfgdata.Valid
  bak : s.cfgdata_bak = s.cfgdata
  holds : s.Holds s.cfgdata

/-- The operations of a load succeed: a file that is there is opened, and all
the bytes are moved. The descriptors may be 0. -/
def Succeeds (s : Config) (o : Loading) : Prop :=
  (s.file ≠ none → 0 ≤ o.fd ∧ size ≤ o.got) ∧ 0 ≤ o.saving.fd ∧ size ≤ o.saving.written

instance (s : Config) (o : Loading) : Decidable (Succeeds s o) :=
  inferInstanceAs (Decidable ((s.file ≠ none → 0 ≤ o.fd ∧ size ≤ o.got) ∧
    0 ≤ o.saving.fd ∧ size ≤ o.saving.written))

/-- The defaults are written, or they are there already. -/
def Rewritten (s : Config) (o : Saving) : Prop :=
  s.cfgdata_bak ≠ default ∧ o.fd ≠ 0 ∨ s.cfgdata_bak = default ∧ s.Holds default

/-- The file is read and has both marks; or it is not read, or has not got
them, not even with a zero more at its end, and the defaults are written. -/
def Repairable (s : Config) (o : Loading) : Prop :=
  (o.fd ≠ 0 ∧ ∃ bytes, s.file = some bytes ∧ Marked bytes) ∨
    (o.fd = 0 ∨ ∀ bytes, s.file = some bytes → ¬ Marked (bytes ++ [0])) ∧ s.Rewritten o.saving

/-! ## The marks of a file -/

theorem marked_image : Marked (image c).1 ↔ c.Valid := by
  have hinj : ∀ {u v : UInt32}, (Packed.u32le u).1 = (Packed.u32le v).1 ↔ u = v :=
    fun {u v} => ⟨fun h => Packed.u32le.injective (Subtype.ext h), fun h => by rw [h]⟩
  have hstart : ((image c).1.drop 4).take 4 = (Packed.u32le c.checkstart).1 := by
    have hdrop : (image c).1.drop 4 = (Packed.u32le c.checkstart).1 ++
        ((Packed.byte c.network_mod).1 ++ (c.rtmpurl.1 ++ (Packed.u32le c.checkend).1)) :=
      List.drop_left' (Packed.u32le c.runcount).2
    rw [hdrop]
    exact List.take_left' (Packed.u32le c.checkstart).2
  have hend : ((image c).1.drop 137).take 4 = (Packed.u32le c.checkend).1 := by
    rw [drop_image]
    exact List.take_of_length_le (Nat.le_of_eq (Packed.u32le c.checkend).2)
  rw [Marked, hstart, hend, hinj, hinj, Valid]

theorem Marked.size_le (h : Marked bytes) : size ≤ bytes.length := by
  have hlen := congrArg List.length h.2
  rw [(Packed.u32le chekEnd).2, List.length_take, List.length_drop] at hlen
  show 141 ≤ bytes.length
  omega

theorem marked_take (bytes : List UInt8) : Marked (bytes.take size) ↔ Marked bytes := by
  simp [Marked, List.drop_take, List.take_take, size]

/-- A valid file has both marks, but for the last byte, which may be
missing. -/
theorem valid_ofFile_iff : (ofFile bytes).Valid ↔ Marked bytes ∨ Marked (bytes ++ [0]) := by
  rw [← marked_image]
  by_cases hlen : size ≤ bytes.length
  · have happend : (bytes ++ [0]).take size = bytes.take size :=
      List.take_append_of_le_length hlen
    rw [image_ofFile_of_le hlen, marked_take, ← marked_take (bytes ++ [0]), happend,
      marked_take, or_self]
  · have hnot : ¬ Marked bytes := fun h => hlen h.size_le
    constructor
    · intro h
      rcases length_of_valid (marked_image.1 h) with hle | ⟨-, himage⟩
      · exact absurd hle hlen
      · exact Or.inr (himage ▸ h)
    · intro h
      have hmark : Marked (bytes ++ [0]) := h.resolve_left hnot
      have hsize : size ≤ bytes.length + 1 := by
        have := hmark.size_le
        rwa [List.length_append] at this
      have h140 : size - bytes.length = 1 := by omega
      rw [image_ofFile_of_lt (by omega), h140]
      exact hmark

theorem holds_ofFile_iff (hfile : s.file = some bytes) (hvalid : (ofFile bytes).Valid) :
    s.Holds (ofFile bytes) ↔ Marked bytes := by
  constructor
  · rintro ⟨bytes', hfile', htake⟩
    rw [hfile, Option.some.injEq] at hfile'
    rw [← marked_take, hfile', htake]
    exact marked_image.2 hvalid
  · intro h
    exact ⟨bytes, hfile, (image_ofFile_of_le h.size_le).symm⟩

/-! ## One load -/

/-- Through descriptor 0 the file is emptied and nothing is written. -/
theorem savecfg_zero {o : Saving} (h : s.cfgdata ≠ s.cfgdata_bak) (ho : o.fd = 0) :
    (s.savecfg o).file = some [] := by
  rw [savecfg, if_neg fun hc => h (mymemcmp_images.1 hc), if_neg (not_not_intro ho), openTrunc,
    if_pos (Int.le_of_eq ho.symm)]

theorem not_holds_empty (hfile : s.file = some []) : ¬ s.Holds c := by
  rintro ⟨bytes, hbytes, htake⟩
  rw [hfile] at hbytes
  cases hbytes
  have hlen := congrArg List.length htake
  rw [length_image] at hlen
  exact absurd hlen (by decide)

/-- A load that finds no valid file repairs it exactly if the defaults are
written, or are there already. -/
theorem repaired_default_iff {o : Loading} (hvalid : ¬ (s.load o).cfgdata.Valid)
    (ho : 0 ≤ o.saving.fd ∧ size ≤ o.saving.written) :
    (s.readcfg o).Repaired ↔ s.Rewritten o.saving := by
  by_cases hbak : s.cfgdata_bak = default
  · have hsame : ({ s with cfgdata := default } : Config).savecfg o.saving =
        { s with cfgdata := default } := savecfg_unchanged hbak.symm
    have hread : s.readcfg o = { s with cfgdata := default, cfgdata_bak := default } := by
      rw [readcfg_of_not_valid hvalid, hsame]
    rw [hread]
    constructor
    · intro h
      exact Or.inr ⟨hbak, holds_of_file_eq h.holds rfl⟩
    · rintro (⟨hne, -⟩ | ⟨-, hholds⟩)
      · exact absurd hbak hne
      · exact ⟨valid_default, rfl, holds_of_file_eq hholds rfl⟩
  · have hchanged : ({ s with cfgdata := default } : Config).cfgdata ≠ s.cfgdata_bak :=
      Ne.symm hbak
    by_cases hfd : o.saving.fd = 0
    · have hempty : (s.readcfg o).file = some [] := by
        rw [readcfg_of_not_valid hvalid]
        exact savecfg_zero hchanged hfd
      refine iff_of_false (fun h => not_holds_empty hempty h.holds) ?_
      rintro (⟨-, hne⟩ | ⟨heq, -⟩)
      · exact hne hfd
      · exact hbak heq
    · have hfull : o.saving.Full := ⟨by omega, ho.2⟩
      rw [readcfg_default hvalid hbak hfull]
      exact iff_of_true ⟨valid_default, rfl, holds_image⟩ (Or.inl ⟨hbak, hfd⟩)

/-- A load that does not get at the bytes of a file. -/
theorem repaired_unread_iff {o : Loading} (hfd : o.fd ≤ 0)
    (ho : 0 ≤ o.saving.fd ∧ size ≤ o.saving.written) :
    (s.readcfg o).Repaired ↔ s.Rewritten o.saving := by
  refine repaired_default_iff ?_ ho
  rw [load_none hfd]
  exact not_valid_zero

/-- A load that reads a file. -/
theorem repaired_read_iff {o : Loading} (hfile : s.file = some bytes) (hfull : o.Full)
    (ho : 0 ≤ o.saving.fd ∧ size ≤ o.saving.written) :
    (s.readcfg o).Repaired ↔
      Marked bytes ∨ ¬ Marked (bytes ++ [0]) ∧ s.Rewritten o.saving := by
  have hload := load_full hfile hfull
  by_cases hvalid : (ofFile bytes).Valid
  · have hread : s.readcfg o =
        { s with cfgdata := ofFile bytes, cfgdata_bak := ofFile bytes } := by
      rw [readcfg_of_valid (by rw [hload]; exact hvalid), hload]
    rw [hread]
    constructor
    · intro h
      exact Or.inl ((holds_ofFile_iff hfile hvalid).1 (holds_of_file_eq h.holds rfl))
    · intro h
      have hmarked : Marked bytes := by
        cases h with
        | inl h => exact h
        | inr h => exact (valid_ofFile_iff.1 hvalid).resolve_right h.1
      exact ⟨hvalid, rfl, holds_of_file_eq ((holds_ofFile_iff hfile hvalid).2 hmarked) rfl⟩
  · have hmarks : ¬ (Marked bytes ∨ Marked (bytes ++ [0])) := fun h =>
      hvalid (valid_ofFile_iff.2 h)
    obtain ⟨hmarked, hshort⟩ := not_or.1 hmarks
    rw [repaired_default_iff (by rw [hload]; exact hvalid) ho, or_iff_right hmarked,
      and_iff_right hshort]

theorem repaired_readcfg_iff {o : Loading} (hnone : s.file = none → o.fd < 0)
    (ho : Succeeds s o) : (s.readcfg o).Repaired ↔ s.Repairable o := by
  obtain ⟨hopen, hsave⟩ := ho
  rcases Option.eq_none_or_eq_some s.file with hfile | ⟨bytes, hfile⟩
  · rw [repaired_unread_iff (Int.le_of_lt (hnone hfile)) hsave]
    simp [Repairable, hfile]
  · obtain ⟨hfd, hgot⟩ := hopen (by rw [hfile]; exact Option.some_ne_none bytes)
    by_cases hzero : o.fd = 0
    · rw [repaired_unread_iff (Int.le_of_eq hzero) hsave]
      simp [Repairable, hzero]
    · rw [repaired_read_iff hfile ⟨by omega, hgot⟩ hsave]
      simp [Repairable, hfile, hzero]

/-! ## Every run -/

/-- A load that meets no failure, anywhere in the life of a process whose file
may be replaced at any time, leaves a valid record in all three places exactly
if it reads a file that has both marks, or finds no marks and has the defaults
written: that is, unless the shadow copy is the defaults, or a descriptor is
0. -/
theorem repaired_iff {acts : List Event} {o : Loading}
    (hrun : Run world (boot file) acts s)
    (hload : Run world (boot file) (acts ++ [.op (.readcfg o)]) s')
    (ho : Succeeds s o) : s'.Repaired ↔ s.Repairable o := by
  obtain ⟨t, ht, hstep⟩ := run_snoc.1 hload
  obtain rfl := hrun.unique ht
  obtain ⟨hnone, rfl⟩ := step_load hstep
  exact repaired_readcfg_iff hnone ho

/-- The first start without a file. -/
def firstStart : List Event := [.op (.readcfg ⟨-1, 0, 3, 141⟩)]

/-- The file is emptied from outside. -/
def emptied : List Event := firstStart ++ [.outside (some [])]

theorem repaired_first_start :
    ∃ s : Config, Run world (boot none) firstStart s ∧ s.Repaired := by
  have hload : Run world (boot none) ([] ++ firstStart)
      ⟨some (image CFGDATA.default).1, .default, .default⟩ := by
    rw [Run]
    rfl
  have ho : Succeeds (boot none) ⟨-1, 0, 3, 141⟩ := by decide
  have hshort : ∀ bytes, (boot none).file = some bytes → ¬ Marked (bytes ++ [0]) := by
    intro bytes h
    cases h
  exact ⟨_, hload, (repaired_iff (run_nil.2 rfl) hload ho).2
    (Or.inr ⟨Or.inr hshort, Or.inl ⟨fun h => default_ne_zero h.symm, by decide⟩⟩)⟩

/-- The load after it finds nothing to write, and the file stays empty. -/
theorem emptied_stays :
    ∃ s s' : Config, Run world (boot none) emptied s ∧
      Run world (boot none) (emptied ++ [.op (.readcfg ⟨3, 0, 3, 141⟩)]) s' ∧
      s'.file = some [] ∧ ¬ s'.Repaired := by
  refine ⟨⟨some [], .default, .default⟩, ⟨some [], .default, .default⟩, ?_, ?_, rfl,
    fun h => ?_⟩
  · rw [Run]
    rfl
  · rw [Run]
    rfl
  · obtain ⟨bytes, hfile, htake⟩ := h.holds
    cases hfile
    have hlen := congrArg List.length htake
    rw [length_image] at hlen
    exact absurd hlen (by decide)

/-! ## A torn file -/

theorem take_image_140 (hc : c.Valid) : (image c).1.take 140 ++ [0] = (image c).1 := by
  have hlast : (image c).1.drop 140 = [0] := by
    have hdrop := congrArg (List.drop 3) (drop_image c)
    rw [List.drop_drop, hc.2] at hdrop
    exact hdrop
  rw [← hlast, List.take_append_drop]

/-- A record that is cut short is read as itself or as no valid one: if its
last byte is missing the cleared memory has it, and the byte before that is
not zero. -/
theorem ofFile_take (hc : c.Valid) (m : Nat) :
    ofFile ((image c).1.take m) = c ∨ ¬ (ofFile ((image c).1.take m)).Valid := by
  by_cases hvalid : (ofFile ((image c).1.take m)).Valid
  · left
    rcases length_of_valid hvalid with hlen | ⟨hlen, himage⟩
    · refine ofFile_of_take ?_
      rw [List.length_take, length_image] at hlen
      rw [List.take_of_length_le (Nat.le_trans (Nat.le_of_eq (length_image c)) (by omega)),
        List.take_of_length_le (Nat.le_of_eq (length_image c))]
    · have hm : m = 140 := by
        have hsize : size = 141 := rfl
        rw [List.length_take, length_image] at hlen
        omega
      rw [hm, take_image_140 hc] at himage
      rw [hm]
      exact image_val_inj himage
  · exact Or.inr hvalid

/-- Whatever `open` and `read` answer, what is loaded from the front of a record
is the front of it. -/
theorem load_torn {k : Nat} {o : Loading} (hfile : s.file = some ((image c).1.take k)) :
    ∃ m, s.load o = { s with cfgdata := ofFile ((image c).1.take m) } := by
  have hzero : zero = ofFile ((image c).1.take 0) := by
    rw [List.take_zero, ofFile, List.take_nil, Packed.readInto_nil]
    rfl
  rcases Int.lt_or_le 0 o.fd with hfd | hfd
  · refine ⟨min o.got (min size k), ?_⟩
    have htake : ((image c).1.take (min o.got (min size k))).take size =
        (((image c).1.take k).take size).take o.got := by
      rw [List.take_take, List.take_take, List.take_take]
      congr 1
      omega
    rw [load, if_pos (show o.fd ≠ 0 by omega), read, if_pos (Int.le_of_lt hfd), hfile,
      Option.getD_some, ofFile, htake]
  · exact ⟨0, by rw [load_none hfd, ← hzero]⟩

theorem torn_readcfg (c : CFGDATA) (k : Nat) (s : Config) (o : Loading) (hc : c.Valid)
    (_hk : k ≤ 141) (hfile : s.file = some ((image c).1.take k)) :
    (s.readcfg o).cfgdata = c ∨ (s.readcfg o).cfgdata = default := by
  obtain ⟨m, hload⟩ := load_torn (o := o) hfile
  rcases ofFile_take hc m with hsame | hnot
  · left
    have hcfg : (s.load o).cfgdata = c := by rw [hload, hsame]
    rw [readcfg_of_valid (by rw [hcfg]; exact hc)]
    exact hcfg
  · right
    have hvalid : ¬ (s.load o).cfgdata.Valid := by rwa [hload]
    rw [readcfg_of_not_valid hvalid]
    exact savecfg_cfgdata _

/-- A record that is not the defaults. -/
def counted : CFGDATA := { CFGDATA.default with runcount := 7 }

theorem torn_readcfg_counted :
    ((boot (some ((image counted).1.take 140))).readcfg ⟨3, 141, 3, 141⟩).cfgdata = counted ∨
      ((boot (some ((image counted).1.take 140))).readcfg ⟨3, 141, 3, 141⟩).cfgdata =
        .default :=
  torn_readcfg counted 140 (boot (some ((image counted).1.take 140))) ⟨3, 141, 3, 141⟩
    ⟨rfl, rfl⟩ (by decide) rfl

end Config

end IotCamera
