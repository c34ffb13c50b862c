import IotCamera.Main.Config

/-!
# The configuration survives

`savecfg` writes only if `cfgdata` differs from `cfgdata_bak`, so everything
rests on the shadow copy being what the file holds. With a file system that
does its work it is, after every operation: the one that reads the file copies
what it read, the ones that write it copy what they wrote, and an edit touches
neither. Then `readcfg` brings back the shadow copy, which is `cfgdata` as the
last `savecfg` found it.

One file is special. The last byte of a valid configuration is zero, and
`readcfg` reads over cleared memory, so a file that lacks just that byte is
taken for valid. Nothing needs writing then, and the file stays a byte short.
-/

namespace IotCamera

namespace CFGDATA

/-- The configuration `readcfg` makes of a file; missing bytes count as
zeros. -/
def ofFile (bytes : List UInt8) : CFGDATA :=
  image.symm (Packed.readInto (bytes.take size) (Packed.zeros size))

theorem image_val_inj {c d : CFGDATA} (h : (image c).1 = (image d).1) : c = d :=
  image.injective (Subtype.ext h)

@[simp] theorem length_image (c : CFGDATA) : (image c).1.length = size := (image c).2

theorem image_ofFile (bytes : List UInt8) :
    (image (ofFile bytes)).1 = (Packed.readInto (bytes.take size) (Packed.zeros size)).1 := by
  rw [ofFile, Equiv.apply_symm_apply]

theorem image_ofFile_of_le {bytes : List UInt8} (h : size ≤ bytes.length) :
    (image (ofFile bytes)).1 = bytes.take size := by
  rw [image_ofFile, Packed.readInto_of_le (by rw [List.length_take]; omega),
    List.take_take, Nat.min_self]

theorem image_ofFile_of_lt {bytes : List UInt8} (h : bytes.length ≤ size) :
    (image (ofFile bytes)).1 = bytes ++ List.replicate (size - bytes.length) 0 := by
  rw [image_ofFile, List.take_of_length_le h, Packed.readInto_zeros h]

/-- What was written is what is read back. -/
theorem ofFile_of_take {bytes : List UInt8} {c : CFGDATA}
    (h : bytes.take size = (image c).1) : ofFile bytes = c := by
  have hlen : size ≤ bytes.length := by
    have := congrArg List.length h
    rw [List.length_take, length_image] at this
    omega
  exact image_val_inj ((image_ofFile_of_le hlen).trans h)

theorem ofFile_image (c : CFGDATA) : ofFile (image c).1 = c :=
  ofFile_of_take (List.take_of_length_le (Nat.le_of_eq (length_image c)))

theorem drop_image (c : CFGDATA) : (image c).1.drop 137 = (Packed.u32le c.checkend).1 := by
  have hsplit : (image c).1 = ((Packed.u32le c.runcount).1 ++ ((Packed.u32le c.checkstart).1 ++
      ((Packed.byte c.network_mod).1 ++ c.rtmpurl.1))) ++ (Packed.u32le c.checkend).1 := by
    rw [List.append_assoc, List.append_assoc, List.append_assoc]
    rfl
  rw [hsplit]
  refine List.drop_left' ?_
  simp only [List.length_append, (Packed.u32le c.runcount).2, (Packed.u32le c.checkstart).2,
    (Packed.byte c.network_mod).2, c.rtmpurl.2]

/-- A file read as valid is missing the last byte at most, which is zero. -/
theorem length_of_valid {bytes : List UInt8} (h : (ofFile bytes).Valid) :
    size ≤ bytes.length ∨
      bytes.length = 140 ∧ (image (ofFile bytes)).1 = bytes ++ [0] := by
  by_cases hlen : size ≤ bytes.length
  · exact Or.inl hlen
  · have himage := image_ofFile_of_lt (Nat.le_of_not_le hlen)
    -- the byte before the last one is not zero
    have hbyte : (image (ofFile bytes)).1[139]? = some 5 := by
      rw [← List.getElem?_drop (i := 137) (j := 2), drop_image, h.2]
      rfl
    have h139 : ¬ bytes.length ≤ 139 := by
      intro hle
      rw [himage, List.getElem?_append_right hle, List.getElem?_replicate] at hbyte
      split at hbyte <;> simp at hbyte
    have hsize : size = 141 := rfl
    have h140 : bytes.length = 140 := by omega
    rw [h140] at himage
    exact Or.inr ⟨h140, himage⟩

theorem valid_default : default.Valid := ⟨rfl, rfl⟩

theorem not_valid_zero : ¬ zero.Valid := by decide

theorem default_ne_zero : default ≠ zero :=
  fun h => not_valid_zero (h ▸ valid_default)

end CFGDATA

open Lts CFGDATA

theorem mymemcmp_eq_zero {n : Nat} {s1 s2 : List UInt8} (h1 : s1.length = n)
    (h2 : s2.length = n) : mymemcmp s1 s2 n = 0 ↔ s1 = s2 := by
  induction n generalizing s1 s2 with
  | zero =>
      rw [List.eq_nil_of_length_eq_zero h1, List.eq_nil_of_length_eq_zero h2]
      simp [mymemcmp]
  | succ n ih =>
      obtain ⟨a, s1, rfl⟩ := List.exists_cons_of_length_eq_add_one h1
      obtain ⟨b, s2, rfl⟩ := List.exists_cons_of_length_eq_add_one h2
      rw [List.length_cons, Nat.succ_inj] at h1 h2
      by_cases hab : a = b
      · simp [mymemcmp, hab, ih h1 h2]
      · simp [mymemcmp, hab]

/-- All the bytes are written. -/
def Saving.Full (o : Saving) : Prop := 0 < o.fd ∧ size ≤ o.written

/-- The file is opened and all the bytes it has are read. -/
def Loading.Full (o : Loading) : Prop := 0 < o.fd ∧ size ≤ o.got

instance (o : Saving) : Decidable o.Full :=
  inferInstanceAs (Decidable (0 < o.fd ∧ size ≤ o.written))

instance (o : Loading) : Decidable o.Full :=
  inferInstanceAs (Decidable (0 < o.fd ∧ size ≤ o.got))

namespace Config

variable {s s' : Config} {file : Option (List UInt8)}

/-! ## The two routines -/

theorem mymemcmp_images {c d : CFGDATA} :
    mymemcmp (image c).1 (image d).1 size = 0 ↔ c = d := by
  rw [mymemcmp_eq_zero (length_image c) (length_image d)]
  exact ⟨image_val_inj, fun h => by rw [h]⟩

theorem savecfg_unchanged {o : Saving} (h : s.cfgdata = s.cfgdata_bak) :
    s.savecfg o = s := by
  rw [savecfg, if_pos (mymemcmp_images.2 h)]

theorem savecfg_written {o : Saving} (h : s.cfgdata ≠ s.cfgdata_bak) (ho : o.Full) :
    s.savecfg o =
      ⟨some (image s.cfgdata).1, s.cfgdata, s.cfgdata⟩ := by
  obtain ⟨hfd, hwritten⟩ := ho
  have htake : (image s.cfgdata).1.take o.written = (image s.cfgdata).1 :=
    List.take_of_length_le (by rw [length_image]; exact hwritten)
  rw [savecfg, if_neg fun hc => h (mymemcmp_images.1 hc)]
  simp only [openTrunc, write, if_pos (Int.le_of_lt hfd), if_pos (show o.fd ≠ 0 by omega), htake]

@[simp] theorem openTrunc_cfgdata (fd : Int) : (s.openTrunc fd).cfgdata = s.cfgdata := by
  rw [openTrunc]
  split <;> rfl

@[simp] theorem write_cfgdata (fd : Int) (n : Nat) :
    (s.write fd n).cfgdata = s.cfgdata := by
  rw [write]
  split <;> rfl

@[simp] theorem savecfg_cfgdata (o : Saving) : (s.savecfg o).cfgdata = s.cfgdata := by
  rw [savecfg]
  split
  · rfl
  · split <;> simp

theorem load_full {o : Loading} {bytes : List UInt8} (hfile : s.file = some bytes)
    (ho : o.Full) : s.load o = { s with cfgdata := ofFile bytes } := by
  obtain ⟨hfd, hgot⟩ := ho
  have htake : (bytes.take size).take o.got = bytes.take size :=
    List.take_of_length_le (Nat.le_trans (List.length_take_le _ _) hgot)
  rw [load, if_pos (show o.fd ≠ 0 by omega), read, if_pos (Int.le_of_lt hfd), hfile,
    Option.getD_some, htake]
  rfl

/-- Nothing is read through a descriptor that is not positive. -/
theorem load_none {o : Loading} (h : o.fd ≤ 0) : s.load o = { s with cfgdata := zero } := by
  rw [load]
  split
  · rw [read, if_neg (by omega), Packed.readInto_nil]
    rfl
  · rfl

theorem readcfg_of_valid {o : Loading} (h : (s.load o).cfgdata.Valid) :
    s.readcfg o = { s with
      cfgdata := (s.load o).cfgdata
      cfgdata_bak := (s.load o).cfgdata } := by
  simp only [readcfg, if_pos h]
  rfl

theorem readcfg_of_not_valid {o : Loading} (h : ¬ (s.load o).cfgdata.Valid) :
    s.readcfg o = { ({ s with cfgdata := default } : Config).savecfg o.saving with
      cfgdata_bak := default } := by
  simp only [readcfg, if_neg h, savecfg_cfgdata]
  rfl

/-- The defaults are written, over any other shadow copy. -/
theorem readcfg_default {o : Loading} (h : ¬ (s.load o).cfgdata.Valid)
    (hbak : s.cfgdata_bak ≠ default) (ho : o.saving.Full) :
    s.readcfg o = ⟨some (image default).1, default, default⟩ := by
  rw [readcfg_of_not_valid h, savecfg_written (Ne.symm hbak) ho]

/-! ## The shadow copy mirrors the file -/

/-- The first bytes of the file are those of `c`. -/
def Holds (s : Config) (c : CFGDATA) : Prop :=
  ∃ bytes, s.file = some bytes ∧ bytes.take size = (image c).1

theorem holds_image {c d e : CFGDATA} : Holds ⟨some (image c).1, d, e⟩ c :=
  ⟨_, rfl, List.take_of_length_le (Nat.le_of_eq (length_image c))⟩

/-- Nothing fails, and an edit leaves the marks alone. -/
def Clean (s : Config) : Op → Prop
  | .edit c => c.checkstart = s.cfgdata.checkstart ∧ c.checkend = s.cfgdata.checkend
  | .savecfg o => o.Full
  | .readcfg o | .reboot o => (s.file ≠ none → o.Full) ∧ o.saving.Full

instance Clean.instDecidable (s : Config) : ∀ op, Decidable (Clean s op)
  | .edit c => inferInstanceAs (Decidable
      (c.checkstart = s.cfgdata.checkstart ∧ c.checkend = s.cfgdata.checkend))
  | .savecfg o => inferInstanceAs (Decidable o.Full)
  | .readcfg o | .reboot o =>
      inferInstanceAs (Decidable ((s.file ≠ none → o.Full) ∧ o.saving.Full))

/-- The configuration a first `readcfg` finds. -/
def initialConfig : Option (List UInt8) → CFGDATA
  | none => default
  | some bytes => if (ofFile bytes).Valid then ofFile bytes else default

/-- The file, which is `file` as it was at the start if it is a byte short, is
read as the shadow copy; and the copies are valid. -/
structure PersistInv (file : Option (List UInt8)) (s : Config) : Prop where
  mirrors : ∃ bytes, s.file = some bytes ∧ ofFile bytes = s.cfgdata_bak ∧
    (size ≤ bytes.length ∨ file = some bytes)
  valid_bak : s.cfgdata_bak.Valid
  valid : s.cfgdata.Valid

theorem persistInv_written {c : CFGDATA} (hc : c.Valid) :
    PersistInv file ⟨some (image c).1, c, c⟩ :=
  ⟨⟨_, rfl, ofFile_image c, Or.inl (Nat.le_of_eq (length_image c).symm)⟩, hc, hc⟩

theorem step_load {o : Loading} {t : Config}
    (h : (if s.file = none ∧ 0 ≤ o.fd then none else some t) = some s') :
    (s.file = none → o.fd < 0) ∧ s' = t := by
  split at h
  · cases h
  · next hc =>
      refine ⟨fun hnone => ?_, (Option.some.inj h).symm⟩
      by_contra hfd
      exact hc ⟨hnone, by omega⟩

theorem readcfg_boot {o : Loading} (hnone : file = none → o.fd < 0)
    (hfull : file ≠ none → o.Full) (hsave : o.saving.Full) :
    PersistInv file ((boot file).readcfg o) ∧
      ((boot file).readcfg o).cfgdata = initialConfig file ∧
      ((boot file).readcfg o).cfgdata_bak = initialConfig file := by
  have hbak : (boot file).cfgdata_bak ≠ default := fun h => default_ne_zero h.symm
  cases file with
  | none =>
      have hload : (boot none).load o = boot none :=
        load_none (Int.le_of_lt (hnone rfl))
      rw [readcfg_default (by rw [hload]; exact not_valid_zero) hbak hsave]
      exact ⟨persistInv_written valid_default, rfl, rfl⟩
  | some bytes =>
      have hload :
          (boot (some bytes)).load o = { boot (some bytes) with cfgdata := ofFile bytes } :=
        load_full rfl (hfull (Option.some_ne_none bytes))
      by_cases hvalid : (ofFile bytes).Valid
      · rw [readcfg_of_valid (by rw [hload]; exact hvalid), hload, initialConfig, if_pos hvalid]
        exact ⟨⟨⟨bytes, rfl, rfl, Or.inr rfl⟩, hvalid, hvalid⟩, rfl, rfl⟩
      · rw [readcfg_default (by rw [hload]; exact hvalid) hbak hsave, initialConfig,
          if_neg hvalid]
        exact ⟨persistInv_written valid_default, rfl, rfl⟩

theorem PersistInv.readcfg {o : Loading} (h : PersistInv file s) (ho : o.Full) :
    s.readcfg o = { s with cfgdata := s.cfgdata_bak } := by
  obtain ⟨⟨bytes, hfile, hread, -⟩, hbak, -⟩ := h
  have hload := load_full hfile ho
  rw [readcfg_of_valid (by rw [hload, hread]; exact hbak), hload, hread]

theorem PersistInv.reboot {o : Loading} (h : PersistInv file s) (ho : o.Full) :
    (boot s.file).readcfg o = { s with cfgdata := s.cfgdata_bak } := by
  obtain ⟨⟨bytes, hfile, hread, -⟩, hbak, -⟩ := h
  have hload : (boot s.file).load o = { boot s.file with cfgdata := ofFile bytes } :=
    load_full hfile ho
  rw [readcfg_of_valid (by rw [hload, hread]; exact hbak), hload, hread]
  rfl

/-! ## Every run -/

def Op.Saves : Op → Prop
  | .savecfg _ => True
  | _ => False

def Op.Loads : Op → Prop
  | .readcfg _ | .reboot _ => True
  | _ => False

theorem PersistInv.full {o : Loading} (h : PersistInv file s)
    (ho : (s.file ≠ none → o.Full) ∧ o.saving.Full) : o.Full := by
  obtain ⟨⟨bytes, hfile, -⟩, -⟩ := h
  exact ho.1 (by rw [hfile]; exact Option.some_ne_none bytes)

/-- What a clean operation does to the two copies: an edit leaves the shadow
copy, a save moves `cfgdata` into it, and a load moves it back. -/
theorem PersistInv.copies {op : Op} (h : PersistInv file s) (hc : Clean s op)
    (hs : step s op = some s') :
    (op.Saves → s'.cfgdata_bak = s.cfgdata) ∧ (¬ op.Saves → s'.cfgdata_bak = s.cfgdata_bak) ∧
    (op.Loads → s'.cfgdata = s.cfgdata_bak) := by
  cases op with
  | edit c =>
      cases hs
      exact ⟨False.elim, fun _ => rfl, False.elim⟩
  | savecfg o =>
      cases hs
      refine ⟨fun _ => ?_, fun hn => absurd trivial hn, False.elim⟩
      by_cases heq : s.cfgdata = s.cfgdata_bak
      · rw [savecfg_unchanged heq, heq]
      · rw [savecfg_written heq hc]
  | readcfg o =>
      obtain ⟨-, rfl⟩ := step_load hs
      rw [h.readcfg (h.full hc)]
      exact ⟨False.elim, fun _ => rfl, fun _ => rfl⟩
  | reboot o =>
      obtain ⟨-, rfl⟩ := step_load hs
      rw [h.reboot (h.full hc)]
      exact ⟨False.elim, fun _ => rfl, fun _ => rfl⟩

theorem PersistInv.step {op : Op} (h : PersistInv file s) (hc : Clean s op)
    (hs : step s op = some s') : PersistInv file s' := by
  cases op with
  | edit c =>
      cases hs
      obtain ⟨hstart, hend⟩ := h.valid
      exact ⟨h.mirrors, h.valid_bak, hc.1.trans hstart, hc.2.trans hend⟩
  | savecfg o =>
      cases hs
      by_cases heq : s.cfgdata = s.cfgdata_bak
      · rw [savecfg_unchanged heq]
        exact h
      · rw [savecfg_written heq hc]
        exact persistInv_written h.valid
  | readcfg o =>
      obtain ⟨-, rfl⟩ := step_load hs
      rw [h.readcfg (h.full hc)]
      exact ⟨h.mirrors, h.valid_bak, h.valid_bak⟩
  | reboot o =>
      obtain ⟨-, rfl⟩ := step_load hs
      rw [h.reboot (h.full hc)]
      exact ⟨h.mirrors, h.valid_bak, h.valid_bak⟩

theorem PersistInv.bak_of_no_save {ops : List Op} (h : PersistInv file s)
    (hrun : Run Config.step s ops s') (hclean : Meets Clean Config.step s ops)
    (hno : ∀ op ∈ ops, ¬ op.Saves) :
    PersistInv file s' ∧ s'.cfgdata_bak = s.cfgdata_bak := by
  induction ops generalizing s with
  | nil =>
      rw [run_nil] at hrun
      subst hrun
      exact ⟨h, rfl⟩
  | cons op ops ih =>
      obtain ⟨t, ht, hrest⟩ := run_cons.1 hrun
      obtain ⟨hc, hclean'⟩ := meets_cons.1 hclean
      obtain ⟨hinv, hbak⟩ := ih (h.step hc ht) hrest (hclean' t ht)
        fun x hx => hno x (List.mem_cons_of_mem op hx)
      rw [hbak, (h.copies hc ht).2.1 (hno op List.mem_cons_self)]
      exact ⟨hinv, rfl⟩

theorem PersistInv.cfgdata_of_load {ops : List Op} {l : Op} (h : PersistInv file s)
    (hrun : Run Config.step s (ops ++ [l]) s')
    (hclean : Meets Clean Config.step s (ops ++ [l]))
    (hno : ∀ op ∈ ops, ¬ op.Saves) (hl : l.Loads) : s'.cfgdata = s.cfgdata_bak := by
  obtain ⟨t, hops, hlast⟩ := run_snoc.1 hrun
  obtain ⟨hinv, hbak⟩ := h.bak_of_no_save hops (hclean.take (List.prefix_append ops [l])) hno
  rw [(hinv.copies (hclean ops l [] t rfl hops) hlast).2.2 hl, hbak]

/-- The state after the `readcfg` a process starts with. -/
theorem persistInv_first {o : Loading} (hclean : Clean (boot file) (.readcfg o))
    (hs : step (boot file) (.readcfg o) = some s) :
    PersistInv file s ∧ s.cfgdata = initialConfig file ∧ s.cfgdata_bak = initialConfig file := by
  obtain ⟨hnone, rfl⟩ := step_load hs
  exact readcfg_boot hnone hclean.1 hclean.2

/-- In every run that starts with `readcfg` and in which nothing fails, the
first bytes of the file are those of the shadow copy; or the file is still the
initial one, and lacks only the zero that ends them. A `readcfg` brings back
`cfgdata` as it was at the latest `savecfg`, whether that wrote or not. If there was none,
it brings back the configuration of the initial file, or the defaults. -/
theorem config_persists (file : Option (List UInt8)) (o : Loading) (ops : List Op)
    (s : Config) (hrun : Run step (boot file) (.readcfg o :: ops) s)
    (hclean : Meets Clean step (boot file) (.readcfg o :: ops)) :
    (s.Holds s.cfgdata_bak ∨ ∃ bytes, file = some bytes ∧ s.file = some bytes ∧
      bytes.length = 140 ∧ (image s.cfgdata_bak).1 = bytes ++ [0]) ∧
    (∀ pre sv mid l t, ops = pre ++ .savecfg sv :: (mid ++ [l]) →
      (∀ op ∈ mid, ¬ op.Saves) → l.Loads → Run step (boot file) (.readcfg o :: pre) t →
      s.cfgdata = t.cfgdata) ∧
    ((∀ op ∈ ops, ¬ op.Saves) → (∀ l ∈ ops.getLast?, l.Loads) →
      s.cfgdata = initialConfig file) := by
  obtain ⟨s₁, hfirst, hrest⟩ := run_cons.1 hrun
  obtain ⟨hc, hclean'⟩ := meets_cons.1 hclean
  obtain ⟨hinv, hcfg, hbak⟩ := persistInv_first hc hfirst
  have hmeets := hclean' s₁ hfirst
  refine ⟨?_, ?_, fun hno hlast => ?_⟩
  · obtain ⟨⟨bytes, hfile, hread, hlen⟩, hvalid, -⟩ :=
      hrest.invariant_of_meets (fun _ _ _ h hc hs => h.step hc hs) hmeets hinv
    rw [← hread] at hvalid ⊢
    rcases length_of_valid hvalid with hsize | ⟨h140, himage⟩
    · exact Or.inl ⟨bytes, hfile, (image_ofFile_of_le hsize).symm⟩
    · have hshort : file = some bytes :=
        hlen.resolve_left fun h => by rw [h140] at h; exact absurd h (by decide)
      exact Or.inr ⟨bytes, hshort, hfile, h140, himage⟩
  · intro pre sv mid l t hsplit hno hl hpre
    subst hsplit
    obtain ⟨t', hpre', hrest'⟩ := run_append.1 hrest
    obtain ⟨t₂, hsave, hload⟩ := run_cons.1 hrest'
    obtain rfl : t = t' := hpre.unique (run_cons.2 ⟨s₁, hfirst, hpre'⟩)
    have hmeets' := hmeets.drop hpre'
    obtain ⟨hcs, hmeets₂⟩ := meets_cons.1 hmeets'
    have hinv' : PersistInv file t :=
      hpre'.invariant_of_meets (fun _ _ _ h hc hs => h.step hc hs)
        (hmeets.take (List.prefix_append pre _)) hinv
    rw [(hinv'.step hcs hsave).cfgdata_of_load hload (hmeets₂ t₂ hsave) hno hl,
      (hinv'.copies hcs hsave).1 trivial]
  · rcases List.eq_nil_or_concat ops with rfl | ⟨mid, l, hops⟩
    · rw [run_nil] at hrest
      rw [← hrest, hcfg]
    · rw [List.concat_eq_append] at hops
      subst hops
      have hl : l.Loads := hlast l (by simp)
      rw [hinv.cfgdata_of_load hrest hmeets (fun op hop => hno op (List.mem_append_left _ hop)) hl,
        hbak]

/-- An edit, a save, another edit that is lost, and a reboot. -/
def editSaveReboot : List Op :=
  [.edit { CFGDATA.default with runcount := 1 }, .savecfg ⟨3, 141⟩,
    .edit { CFGDATA.default with runcount := 2 }, .reboot ⟨3, 141, 3, 141⟩]

theorem config_persists_reboot :
    ∃ s : Config,
      Run step (boot none) (.readcfg ⟨-1, 0, 3, 141⟩ :: editSaveReboot) s ∧
      (s.Holds s.cfgdata_bak ∨ ∃ bytes, none = some bytes ∧ s.file = some bytes ∧
        bytes.length = 140 ∧ (image s.cfgdata_bak).1 = bytes ++ [0]) :=
  ⟨_, run_get (by decide +kernel),
    (config_persists none ⟨-1, 0, 3, 141⟩ editSaveReboot _ (run_get (by decide +kernel))
      (by decide +kernel)).1⟩

/-- A valid configuration without its last byte. -/
def shortFile : List UInt8 := (image CFGDATA.default).1.dropLast

theorem file_stays_short :
    ∃ s : Config, Run step (boot (some shortFile)) [.readcfg ⟨3, 141, 3, 141⟩] s ∧
      Meets Clean step (boot (some shortFile)) [.readcfg ⟨3, 141, 3, 141⟩] ∧
      ¬ s.Holds s.cfgdata_bak := by
  refine ⟨⟨some shortFile, .default, .default⟩, ?_, by decide +kernel, ?_⟩
  · rw [Run]
    decide +kernel
  · rintro ⟨bytes, hfile, htake⟩
    have hlen := congrArg List.length htake
    rw [← Option.some.inj hfile, List.length_take, length_image, shortFile,
      List.length_dropLast, length_image] at hlen
    exact absurd hlen (by decide)

end Config

end IotCamera
