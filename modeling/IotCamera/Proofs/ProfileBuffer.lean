import IotCamera.Proofs.ProfileScan

/-!
# What shows through from the caller's buffer

`GetProfileString` builds its value in the caller's buffer: `sscanf` puts the
rest of the line there, and the trimmed copy goes over it. Both are left out
for a value of white space. `sscanf` stores nothing if nothing stands between
the `=` and the end of the line, and then the old string is trimmed and
returned; and a copy that is empty is not copied back, so blanks stay blanks.

A value with something else in it goes through both steps, and the buffer it
was built in makes no difference. It has to be as long as a pointer for that,
with its zero byte: a shorter one does not fill the block it is trimmed in, and
clearing the block goes past its end.
-/

namespace IotCamera

open CString

namespace Profile

variable {ptr : Nat} {AppName KeyName KeyVal line c buf : List UInt8} {file : List UInt8}

/-! ## The two steps -/

/-- A value that is not blank was copied in, so there was room. -/
theorem length_of_takeValue (hzero : 0 ∉ c) (hblank : ¬ Blank (upToNewline c))
    (h : takeValue ptr c KeyVal = some buf) : (upToNewline c).length < KeyVal.length := by
  rw [takeValue_of_ne_nil hzero (ne_nil_of_not_blank hblank)] at h
  obtain ⟨val, hval, -⟩ := Option.bind_eq_some_iff.1 h
  exact (strcpy_eq_some.1 hval).1

/-- Whatever was in the buffer, a value that is not blank is there trimmed. -/
theorem str_of_takeValue (hzero : 0 ∉ c) (hblank : ¬ Blank (upToNewline c))
    (h : takeValue ptr c KeyVal = some buf) : str buf = some (trim (upToNewline c)) := by
  have hptr := ptr_le_of_takeValue hzero (ne_nil_of_not_blank hblank) h
  obtain ⟨buf', hbuf', hstr⟩ :=
    takeValue_of_not_blank hzero hblank (length_of_takeValue hzero hblank h) hptr
  rw [h, Option.some.injEq] at hbuf'
  rw [hbuf', hstr]

/-- In some buffer with room for it, a blank value leaves something else than
the empty string, if it leaves anything. -/
theorem takeValue_of_blank (ptr : Nat) (hzero : 0 ∉ c) (hblank : Blank (upToNewline c)) :
    ∃ KeyVal, (upToNewline c).length < KeyVal.length ∧
      ∀ buf, takeValue ptr c KeyVal = some buf → ∃ s, str buf = some s ∧ s ≠ [] := by
  by_cases hnil : upToNewline c = []
  · -- nothing is stored, and the old string stays
    have hold : str [ch 'a', 0] = some [ch 'a'] := by decide
    refine ⟨[ch 'a', 0], by rw [hnil]; decide, fun buf h => ?_⟩
    rw [takeValue_of_nil hnil, hold, Option.bind_some] at h
    by_cases hptr : ptr ≤ [ch 'a'].length + 1
    · obtain ⟨buf', hbuf', -, hstr⟩ := trimBack_of_not_blank hptr (by decide) hold
      rw [h, Option.some.injEq] at hbuf'
      exact ⟨trim [ch 'a'], hbuf' ▸ hstr, by decide⟩
    · rw [trimBack_of_short hptr] at h
      cases h
  · -- the blanks are stored, and stay
    have hlen : (upToNewline c).length < (upToNewline c ++ [0]).length := by
      rw [List.length_append, List.length_singleton]
      exact Nat.lt_succ_self _
    have hcpy := strcpy_eq_some.2 ⟨hlen, rfl⟩
    refine ⟨upToNewline c ++ [0], hlen, fun buf h => ?_⟩
    have hptr := ptr_le_of_takeValue hzero hnil h
    rw [takeValue_of_ne_nil hzero hnil, hcpy, Option.bind_some, trimBack_of_blank hptr hblank,
      Option.some.injEq] at h
    exact ⟨upToNewline c, h ▸ str_strcpy (zero_upToNewline hzero) hcpy, hnil⟩

/-! ## Two runs -/

/-- The buffer has room for the value of the line that is looked for. -/
def HasRoom (file AppName KeyName KeyVal : List UInt8) : Prop :=
  ∀ line ∈ assignment AppName KeyName (readLines file),
    (upToNewline (valueText line)).length < KeyVal.length

/-- On any two buffers with room for the value, `GetProfileString` keeps inside
its own and gives the same answer; and if that is 0, both hold the same string,
which is the trimmed value of the line it matched. -/
def IgnoresBuffer (ptr : Nat) (file AppName KeyName : List UInt8) : Prop :=
  ∀ KeyVal KeyVal', HasRoom file AppName KeyName KeyVal → HasRoom file AppName KeyName KeyVal' →
    ∃ answer buf buf',
      GetProfileString ptr (some file) AppName KeyName KeyVal = some (answer, buf) ∧
      GetProfileString ptr (some file) AppName KeyName KeyVal' = some (answer, buf') ∧
      (answer = 0 → str buf = str buf' ∧
        ∃ line, assignment AppName KeyName (readLines file) = some line ∧
          str buf = some (trim (valueText line)))

theorem exists_room (file AppName KeyName : List UInt8) :
    ∃ KeyVal, HasRoom file AppName KeyName KeyVal := by
  cases hline : assignment AppName KeyName (readLines file) with
  | none => exact ⟨[], fun line h => by rw [hline] at h; cases h⟩
  | some line =>
      refine ⟨List.replicate ((upToNewline (valueText line)).length + 1) 0, fun l h => ?_⟩
      rw [hline] at h
      cases h
      rw [List.length_replicate]
      exact Nat.lt_succ_self _

theorem fits_of_isSome {r : Int × List UInt8}
    (h : GetProfileString ptr (some file) AppName KeyName KeyVal = some r) :
    Fits AppName KeyName (readLines file) := by
  by_contra hfits
  rw [getProfileString_none hfits] at h
  cases h

theorem matched_of_zero
    (h : GetProfileString ptr (some file) AppName KeyName KeyVal = some (0, buf)) :
    Fits AppName KeyName (readLines file) ∧
      ∃ line, assignment AppName KeyName (readLines file) = some line ∧
        takeValue ptr (valueText line) KeyVal = some buf := by
  have hfits := fits_of_isSome h
  cases hline : assignment AppName KeyName (readLines file) with
  | none =>
      rw [getProfileString_eq hfits, hline] at h
      simp at h
  | some line =>
      rw [getProfileString_matched hfits hline] at h
      obtain ⟨buf', hbuf', heq⟩ := Option.map_eq_some_iff.1 h
      cases heq
      exact ⟨hfits, line, rfl, hbuf'⟩

/-- Over a matched line the answer is 0, and the string is its value. -/
theorem IgnoresBuffer.stored (h : IgnoresBuffer ptr file AppName KeyName)
    (hroom : HasRoom file AppName KeyName KeyVal)
    (hline : assignment AppName KeyName (readLines file) = some line) :
    ∃ buf, GetProfileString ptr (some file) AppName KeyName KeyVal = some (0, buf) ∧
      str buf = some (trim (valueText line)) := by
  obtain ⟨answer, buf, buf', hrun, -, hsame⟩ := h KeyVal KeyVal hroom hroom
  have hanswer : answer = 0 := by
    rw [getProfileString_matched (fits_of_isSome hrun) hline] at hrun
    obtain ⟨kept, -, heq⟩ := Option.map_eq_some_iff.1 hrun
    exact (congrArg Prod.fst heq).symm
  subst hanswer
  obtain ⟨-, l, hl, hval⟩ := hsame rfl
  rw [hline, Option.some.injEq] at hl
  exact ⟨buf, hrun, hl ▸ hval⟩

/-- A blank value would leave something in some buffer. -/
theorem IgnoresBuffer.not_blank (h : IgnoresBuffer ptr file AppName KeyName)
    (hline : assignment AppName KeyName (readLines file) = some line) :
    ¬ Blank (valueText line) := by
  intro hblank
  obtain ⟨KeyVal, hlen, hleft⟩ := takeValue_of_blank ptr (zero_of_matched hline)
    ((blank_value (assignment_mem hline)).2 hblank)
  have hroom : HasRoom file AppName KeyName KeyVal := by
    intro l hl
    rw [hline] at hl
    cases hl
    exact hlen
  obtain ⟨buf, hbuf, hstr⟩ := h.stored hroom hline
  obtain ⟨-, l, hl, htake⟩ := matched_of_zero hbuf
  rw [hline, Option.some.injEq] at hl
  obtain ⟨s, hs, hne⟩ := hleft buf (hl ▸ htake)
  rw [hstr, trim_eq_nil.2 hblank, Option.some.injEq] at hs
  exact hne hs.symm

/-- The answer of `GetProfileString` and the string it leaves do not depend on
what was in the caller's buffer, the string being the trimmed value of the
matched line, exactly if the section name and the keys fit the buffers of the
function, and the text after the `=` of the matched line, if there is one, is
not blank and at least a pointer long with its zero byte. -/
theorem ignores_buffer_iff (ptr : Nat) (file AppName KeyName : List UInt8) :
    IgnoresBuffer ptr file AppName KeyName ↔
      Fits AppName KeyName (readLines file) ∧
        ∀ line, assignment AppName KeyName (readLines file) = some line →
          ¬ Blank (valueText line) ∧ ptr ≤ (upToNewline (valueText line)).length + 1 := by
  constructor
  · intro h
    obtain ⟨KeyVal, hroom⟩ := exists_room file AppName KeyName
    obtain ⟨answer, buf, -, hrun, -⟩ := h KeyVal KeyVal hroom hroom
    have hfits := fits_of_isSome hrun
    refine ⟨hfits, fun line hline => ?_⟩
    have hblank := h.not_blank hline
    obtain ⟨buf, hbuf, hstr⟩ := h.stored hroom hline
    exact ⟨hblank, (stores_iff hfits hline hblank (hroom line hline)).1 ⟨buf, hbuf, hstr⟩⟩
  · rintro ⟨hfits, hvalue⟩ KeyVal KeyVal' hroom hroom'
    cases hline : assignment AppName KeyName (readLines file) with
    | none =>
        refine ⟨-1, KeyVal, KeyVal', ?_, ?_, fun h => absurd h (by decide)⟩
        · rw [getProfileString_eq hfits, hline]
        · rw [getProfileString_eq hfits, hline]
    | some line =>
        obtain ⟨hblank, hptr⟩ := hvalue line hline
        obtain ⟨buf, hbuf, hstr⟩ := (stores_iff hfits hline hblank (hroom line hline)).2 hptr
        obtain ⟨buf', hbuf', hstr'⟩ := (stores_iff hfits hline hblank (hroom' line hline)).2 hptr
        exact ⟨0, buf, buf', hbuf, hbuf', fun _ => ⟨hstr.trans hstr'.symm, line, rfl, hstr⟩⟩

/-- The key is there, and nothing after its `=`. -/
def emptyValue : List UInt8 := bytes "[GENERAL]\nMEDIAMOD=\n"

theorem old_value_returned :
    GetProfileString 4 (some emptyValue) (bytes "GENERAL") (bytes "MEDIAMOD")
        (bytes "station" ++ [0]) = some (0, bytes "station" ++ [0]) ∧
      ¬ IgnoresBuffer 4 emptyValue (bytes "GENERAL") (bytes "MEDIAMOD") := by
  refine ⟨by decide +kernel, fun h => ?_⟩
  have hroom :
      HasRoom emptyValue (bytes "GENERAL") (bytes "MEDIAMOD") (bytes "station" ++ [0]) := by
    unfold HasRoom
    decide +kernel
  have hroom' :
      HasRoom emptyValue (bytes "GENERAL") (bytes "MEDIAMOD") (bytes "hotspot" ++ [0]) := by
    unfold HasRoom
    decide +kernel
  obtain ⟨answer, buf, buf', hrun, hrun', hsame⟩ := h _ _ hroom hroom'
  have hstation : GetProfileString 4 (some emptyValue) (bytes "GENERAL") (bytes "MEDIAMOD")
      (bytes "station" ++ [0]) = some (0, bytes "station" ++ [0]) := by decide +kernel
  have hhotspot : GetProfileString 4 (some emptyValue) (bytes "GENERAL") (bytes "MEDIAMOD")
      (bytes "hotspot" ++ [0]) = some (0, bytes "hotspot" ++ [0]) := by decide +kernel
  rw [hstation] at hrun
  rw [hhotspot] at hrun'
  cases hrun
  cases hrun'
  exact absurd (hsame rfl).1 (by decide +kernel)

end Profile

end IotCamera
