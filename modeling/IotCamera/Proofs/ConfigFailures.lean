import IotCamera.Lib.Trace
import IotCamera.Proofs.ConfigPersist

/-!
# A save that fails

The shadow copy should say what the file holds, so that a save that did not
reach the file is tried again. `savecfg` updates it all the same: it asks
whether the descriptor is zero, which a failed `open` does not answer, and it
does not look at what `write` answers. So the shadow copy is right as long as
every write it stands for went through, and after the first one that did not
the next save has nothing to do.

Two smaller conditions come with it. Before anything is read or written the
shadow copy is zero and stands for no file at all, so a save of a zero record
is skipped. And a file that lacks the last byte is read as a record the file
does not hold.
-/

namespace IotCamera

open Lts CFGDATA

namespace Config

variable {s s' : Config} {file : Option (List UInt8)} {c d : CFGDATA}

def Op.IsEdit : Op → Prop
  | .edit _ => True
  | _ => False

/-- A file that could be opened is read to its end. -/
def ReadsAll (_ : Config) : Op → Prop
  | .readcfg o | .reboot o => 0 < o.fd → size ≤ o.got
  | _ => True

/-- A `readcfg` does not come upon a file that is valid but for its missing
last byte, and defaults that have to be written are written. -/
def LoadsThrough (o : Loading) (s : Config) : Prop :=
  (∀ bytes, s.file = some bytes → (ofFile bytes).Valid → bytes.length ≠ 140) ∧
  (¬ (s.load o).cfgdata.Valid → s.cfgdata_bak ≠ default → o.saving.Full)

/-- What has to be written is written. -/
def WritesThrough (s : Config) : Op → Prop
  | .edit _ => True
  | .savecfg o => s.cfgdata ≠ s.cfgdata_bak → o.Full
  | .readcfg o => s.LoadsThrough o
  | .reboot o => (boot s.file).LoadsThrough o

/-- Before anything is read or written, a save finds a change. -/
def FirstSaveChanges (file : Option (List UInt8)) (ops : List Op) : Prop :=
  ∀ pre o post s, ops = pre ++ .savecfg o :: post → (∀ op ∈ pre, op.IsEdit) →
    Run step (boot file) pre s → s.cfgdata ≠ s.cfgdata_bak

instance LoadsThrough.instDecidable (o : Loading) (s : Config) :
    Decidable (s.LoadsThrough o) :=
  match h : s.file with
  | none => decidable_of_iff
      (¬ (s.load o).cfgdata.Valid → s.cfgdata_bak ≠ default → o.saving.Full)
      (by simp [LoadsThrough, h])
  | some bytes => decidable_of_iff
      (((ofFile bytes).Valid → bytes.length ≠ 140) ∧
        (¬ (s.load o).cfgdata.Valid → s.cfgdata_bak ≠ default → o.saving.Full))
      (by simp [LoadsThrough, h])

instance ReadsAll.instDecidable (s : Config) : ∀ op, Decidable (ReadsAll s op)
  | .readcfg o | .reboot o => inferInstanceAs (Decidable (0 < o.fd → size ≤ o.got))
  | .edit _ | .savecfg _ => isTrue trivial

instance WritesThrough.instDecidable (s : Config) : ∀ op, Decidable (WritesThrough s op)
  | .edit _ => isTrue trivial
  | .savecfg o => inferInstanceAs (Decidable (s.cfgdata ≠ s.cfgdata_bak → o.Full))
  | .readcfg o => inferInstanceAs (Decidable (s.LoadsThrough o))
  | .reboot o => inferInstanceAs (Decidable ((boot s.file).LoadsThrough o))

/-- So it is in a process that starts with `readcfg`, as `main` does. -/
theorem firstSaveChanges_of_readcfg {o : Loading} {ops : List Op} :
    FirstSaveChanges file (.readcfg o :: ops) := by
  intro pre o' post s hsplit hedits
  cases pre with
  | nil => simp at hsplit
  | cons op pre =>
      rw [List.cons_append, List.cons.injEq] at hsplit
      have hop : op.IsEdit := hedits op List.mem_cons_self
      rw [← hsplit.1] at hop
      exact absurd hop id

/-! ## Saves that go through -/

theorem Holds.unique (h : s.Holds c) (h' : s.Holds d) : c = d := by
  obtain ⟨bytes, hfile, htake⟩ := h
  obtain ⟨bytes', hfile', htake'⟩ := h'
  rw [hfile, Option.some.injEq] at hfile'
  subst hfile'
  exact image_val_inj (htake.symm.trans htake')

theorem holds_of_file_eq (h : s.Holds c) (hfile : s'.file = s.file) : s'.Holds c := by
  obtain ⟨bytes, hbytes, htake⟩ := h
  exact ⟨bytes, hfile.trans hbytes, htake⟩

theorem Holds.savecfg {o : Saving} (h : s.Holds s.cfgdata_bak)
    (ho : s.cfgdata ≠ s.cfgdata_bak → o.Full) :
    (s.savecfg o).Holds (s.savecfg o).cfgdata_bak := by
  by_cases heq : s.cfgdata = s.cfgdata_bak
  · rw [savecfg_unchanged heq]
    exact h
  · rw [savecfg_written heq (ho heq)]
    exact holds_image

/-- After `readcfg` the shadow copy is what the file holds, if it was so
before or the shadow copy is not the defaults. -/
theorem holds_readcfg {o : Loading} (hbak : s.cfgdata_bak = default → s.Holds s.cfgdata_bak)
    (hnone : s.file = none → o.fd < 0) (hgot : 0 < o.fd → size ≤ o.got)
    (ho : s.LoadsThrough o) : (s.readcfg o).Holds (s.readcfg o).cfgdata_bak := by
  obtain ⟨hshort, hwrite⟩ := ho
  by_cases hvalid : (s.load o).cfgdata.Valid
  · rw [readcfg_of_valid hvalid]
    -- it was read from the file
    have hfd : 0 < o.fd := by
      by_contra hle
      rw [load_none (by omega)] at hvalid
      exact not_valid_zero hvalid
    obtain ⟨bytes, hfile⟩ : ∃ bytes, s.file = some bytes := by
      refine Option.ne_none_iff_exists'.1 fun h => ?_
      have := hnone h
      omega
    have hload : s.load o = { s with cfgdata := ofFile bytes } :=
      load_full hfile ⟨hfd, hgot hfd⟩
    rw [hload] at hvalid ⊢
    rcases length_of_valid hvalid with hsize | ⟨h140, -⟩
    · exact ⟨bytes, hfile, (image_ofFile_of_le hsize).symm⟩
    · exact absurd h140 (hshort bytes hfile hvalid)
  · by_cases hdef : s.cfgdata_bak = default
    · have hsame : ({ s with cfgdata := default } : Config).savecfg o.saving =
          { s with cfgdata := default } := savecfg_unchanged hdef.symm
      rw [readcfg_of_not_valid hvalid, hsame]
      have hfile := hbak hdef
      rw [hdef] at hfile
      exact hfile
    · rw [readcfg_default hvalid hdef (hwrite hvalid hdef)]
      exact holds_image

theorem holds_reboot {o : Loading} (hnone : s.file = none → o.fd < 0)
    (hgot : 0 < o.fd → size ≤ o.got) (ho : (boot s.file).LoadsThrough o) :
    ((boot s.file).readcfg o).Holds ((boot s.file).readcfg o).cfgdata_bak :=
  holds_readcfg (fun h => absurd h.symm default_ne_zero) hnone hgot ho

theorem holds_step {op : Op} (h : s.Holds s.cfgdata_bak) (hread : ReadsAll s op)
    (hwrite : WritesThrough s op) (hs : step s op = some s') : s'.Holds s'.cfgdata_bak := by
  cases op with
  | edit c => cases hs; exact h
  | savecfg o => cases hs; exact h.savecfg hwrite
  | readcfg o =>
      obtain ⟨hnone, rfl⟩ := step_load hs
      exact holds_readcfg (fun _ => h) hnone hread hwrite
  | reboot o =>
      obtain ⟨hnone, rfl⟩ := step_load hs
      exact holds_reboot hnone hread hwrite

/-- An operation on the shadow copy of a new process, other than an edit. -/
theorem holds_step_first {op : Op} (hbak : s.cfgdata_bak = zero) (hop : ¬ op.IsEdit)
    (hsave : ∀ o, op = .savecfg o → s.cfgdata ≠ s.cfgdata_bak) (hread : ReadsAll s op)
    (hwrite : WritesThrough s op) (hs : step s op = some s') : s'.Holds s'.cfgdata_bak := by
  cases op with
  | edit c => exact absurd trivial hop
  | savecfg o =>
      cases hs
      rw [savecfg_written (hsave o rfl) (hwrite (hsave o rfl))]
      exact holds_image
  | readcfg o =>
      obtain ⟨hnone, rfl⟩ := step_load hs
      refine holds_readcfg (fun h => ?_) hnone hread hwrite
      rw [hbak] at h
      exact absurd h.symm default_ne_zero
  | reboot o =>
      obtain ⟨hnone, rfl⟩ := step_load hs
      exact holds_reboot hnone hread hwrite

/-- Until something is read or written there are only edits, and the shadow
copy is zero; from then on it is what the file holds. -/
theorem holds_run {ops : List Op} (hsave : FirstSaveChanges file ops)
    (hread : Meets ReadsAll step (boot file) ops)
    (hwrite : Meets WritesThrough step (boot file) ops)
    (hrun : Run step (boot file) ops s) :
    s.Holds s.cfgdata_bak ∨ s.cfgdata_bak = zero ∧ ∀ op ∈ ops, op.IsEdit := by
  induction ops using Trace.snoc_induction generalizing s with
  | nil =>
      rw [run_nil] at hrun
      rw [← hrun]
      exact Or.inr ⟨rfl, fun op hop => by cases hop⟩
  | snoc ops op ih =>
      obtain ⟨t, hops, hs⟩ := run_snoc.1 hrun
      have hpre : ops <+: ops ++ [op] := List.prefix_append ops [op]
      have hr : ReadsAll t op := hread ops op [] t rfl hops
      have hw : WritesThrough t op := hwrite ops op [] t rfl hops
      have hsave' : FirstSaveChanges file ops := fun pre o post s hsplit =>
        hsave pre o (post ++ [op]) s (by rw [hsplit]; simp)
      rcases ih hsave' (hread.take hpre) (hwrite.take hpre) hops with h | ⟨hbak, hedits⟩
      · exact Or.inl (holds_step h hr hw hs)
      · cases op with
        | edit c =>
            cases hs
            refine Or.inr ⟨hbak, fun x hx => ?_⟩
            rcases List.mem_append.1 hx with hx | hx
            · exact hedits x hx
            · rw [List.mem_singleton.1 hx]
              trivial
        | savecfg o =>
            refine Or.inl (holds_step_first hbak id (fun o' ho => ?_) hr hw hs)
            cases ho
            exact hsave ops o [] t rfl hedits hops
        | readcfg o | reboot o =>
            exact Or.inl (holds_step_first hbak id (fun o ho => by cases ho) hr hw hs)

/-! ## Saves that do not -/

theorem not_holds_short (bytes : List UInt8) (hfile : s.file = some bytes)
    (hlen : bytes.length < size) : ¬ s.Holds c := by
  rintro ⟨bytes', hfile', htake⟩
  rw [hfile, Option.some.injEq] at hfile'
  have h := congrArg List.length htake
  rw [← hfile', List.length_take, length_image] at h
  omega

/-- A save that has something to write and does not write all of it leaves
the file alone and the shadow copy changed, or it leaves too short a file. -/
theorem savecfg_torn {o : Saving} (hne : s.cfgdata ≠ s.cfgdata_bak) (ho : ¬ o.Full) :
    ((s.savecfg o).file = s.file ∧ (s.savecfg o).cfgdata_bak = s.cfgdata) ∨
      ∀ c, ¬ (s.savecfg o).Holds c := by
  rw [savecfg, if_neg fun hc => hne (mymemcmp_images.1 hc)]
  rcases Int.lt_trichotomy o.fd 0 with hneg | hzero | hpos
  · -- `open` failed, and its answer is not zero
    left
    simp [openTrunc, write, show ¬ 0 ≤ o.fd by omega, show o.fd ≠ 0 by omega]
  · -- the file is truncated, and the descriptor is taken for a failure
    right
    intro c
    refine not_holds_short [] ?_ (by decide)
    simp [openTrunc, hzero]
  · right
    intro c
    have hwritten : o.written < size := by
      by_contra hle
      exact ho ⟨hpos, Nat.le_of_not_lt hle⟩
    refine not_holds_short ((image s.cfgdata).1.take o.written) ?_ ?_
    · simp [openTrunc, write, show 0 ≤ o.fd by omega, show o.fd ≠ 0 by omega]
    · rw [List.length_take]
      omega

/-- Such a save is forgotten: back at the shadow copy, the next save has
nothing to write, and the file does not hold it. -/
theorem forgotten_of_torn {o : Saving} (o' : Saving) (h : s.Holds s.cfgdata_bak)
    (hne : s.cfgdata ≠ s.cfgdata_bak) (ho : ¬ o.Full) :
    ∃ s', Run step (s.savecfg o) [.edit (s.savecfg o).cfgdata_bak, .savecfg o'] s' ∧
      s'.cfgdata_bak = s'.cfgdata ∧ ¬ s'.Holds s'.cfgdata := by
  refine ⟨{ s.savecfg o with cfgdata := (s.savecfg o).cfgdata_bak }, ?_, rfl, fun hbad => ?_⟩
  · refine run_cons.2 ⟨_, rfl, run_single.2 ?_⟩
    rw [step, savecfg_unchanged rfl]
  · have hholds : (s.savecfg o).Holds (s.savecfg o).cfgdata_bak :=
      holds_of_file_eq hbad rfl
    rcases savecfg_torn hne ho with ⟨hfile, hbak⟩ | hshort
    · rw [hbak] at hholds
      exact hne ((holds_of_file_eq hholds hfile.symm).unique h)
    · exact hshort _ hholds

/-- And so are defaults that `readcfg` does not get into the file. -/
theorem forgotten_of_torn_default {o : Loading} (hvalid : ¬ (s.load o).cfgdata.Valid)
    (hbak : s.cfgdata_bak ≠ default) (ho : ¬ o.saving.Full) (hfile : ¬ s.Holds default) :
    (s.readcfg o).cfgdata_bak = (s.readcfg o).cfgdata ∧
      ¬ (s.readcfg o).Holds (s.readcfg o).cfgdata := by
  have hcfg : (s.readcfg o).cfgdata = default := by
    rw [readcfg_of_not_valid hvalid]
    exact savecfg_cfgdata _
  rw [hcfg, readcfg_of_not_valid hvalid]
  refine ⟨rfl, fun hbad => ?_⟩
  rcases savecfg_torn (s := { s with cfgdata := default }) (Ne.symm hbak) ho with
    ⟨hsame, -⟩ | hshort
  · exact hfile (holds_of_file_eq hbad hsame.symm)
  · exact hshort default (holds_of_file_eq hbad rfl)

/-- In every run in which all that has to be written is written, whenever the
shadow copy equals `cfgdata` after a `savecfg`, or after the one in a
`readcfg`, the file holds `cfgdata`. A save that finds a change and is not
written in full is always forgotten: once `cfgdata` is the shadow copy again,
which it is at once if `open` or `write` failed, the next save writes nothing
and the file does not hold it. And so are the defaults, if `readcfg` fails to
write them. -/
theorem saved_unless_torn (file : Option (List UInt8)) (ops : List Op) :
    (FirstSaveChanges file ops → Meets ReadsAll step (boot file) ops →
      Meets WritesThrough step (boot file) ops →
      ∀ pre op s, pre ++ [op] <+: ops → ¬ op.IsEdit → Run step (boot file) (pre ++ [op]) s →
        s.cfgdata_bak = s.cfgdata → s.Holds s.cfgdata) ∧
    (∀ (s : Config) o o', s.Holds s.cfgdata_bak → s.cfgdata ≠ s.cfgdata_bak → ¬ o.Full →
      ∃ s', Run step s [.savecfg o, .edit (s.savecfg o).cfgdata_bak, .savecfg o'] s' ∧
        s'.cfgdata_bak = s'.cfgdata ∧ ¬ s'.Holds s'.cfgdata) ∧
    (∀ (s : Config) o, ¬ (s.load o).cfgdata.Valid → s.cfgdata_bak ≠ default →
      ¬ o.saving.Full → ¬ s.Holds default →
      (s.readcfg o).cfgdata_bak = (s.readcfg o).cfgdata ∧
        ¬ (s.readcfg o).Holds (s.readcfg o).cfgdata) := by
  refine ⟨?_, ?_, fun s o => forgotten_of_torn_default⟩
  · intro hsave hread hwrite pre op s hpre hop hrun heq
    have hsave' : FirstSaveChanges file (pre ++ [op]) := by
      obtain ⟨rest, rfl⟩ := hpre
      exact fun pre' o post s hsplit => hsave pre' o (post ++ rest) s (by rw [hsplit]; simp)
    rw [← heq]
    rcases holds_run hsave' (hread.take hpre) (hwrite.take hpre) hrun with h | ⟨-, hedits⟩
    · exact h
    · exact absurd (hedits op (by simp)) hop
  · intro s o o' h hne ho
    obtain ⟨s', hrun, hbak, hlost⟩ := forgotten_of_torn o' h hne ho
    exact ⟨s', run_cons.2 ⟨_, rfl, hrun⟩, hbak, hlost⟩

/-- An edit that is saved. -/
def editSave : List Op :=
  [.readcfg ⟨-1, 0, 3, 141⟩, .edit { CFGDATA.default with runcount := 1 }, .savecfg ⟨3, 141⟩]

theorem saved_edit :
    ∃ s : Config, Run step (boot none) editSave s ∧ s.cfgdata_bak = s.cfgdata ∧
      s.Holds s.cfgdata :=
  ⟨_, run_get (by decide +kernel), by decide +kernel,
    (saved_unless_torn none editSave).1 firstSaveChanges_of_readcfg (by decide +kernel)
      (by decide +kernel) editSave.dropLast (.savecfg ⟨3, 141⟩) _ (List.prefix_refl _) id
      (run_get (by decide +kernel)) (by decide +kernel)⟩

/-- `open` fails once; the save after it could write, and does not. -/
def editSaveFailed : List Op :=
  [.readcfg ⟨-1, 0, 3, 141⟩, .edit { CFGDATA.default with runcount := 1 },
    .savecfg ⟨-1, 0⟩, .savecfg ⟨3, 141⟩]

theorem failed_save_forgotten :
    ∃ s : Config, Run step (boot none) editSaveFailed s ∧ s.cfgdata_bak = s.cfgdata ∧
      ¬ s.Holds s.cfgdata := by
  refine ⟨⟨some (image CFGDATA.default).1, { CFGDATA.default with runcount := 1 },
    { CFGDATA.default with runcount := 1 }⟩, ?_, rfl, fun h => ?_⟩
  · rw [Run]
    decide +kernel
  · exact absurd (holds_image.unique h) (by decide +kernel)

end Config

end IotCamera
