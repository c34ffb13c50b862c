import IotCamera.Common.Profile

/-!
# What the INI reader looks up

The loop of `GetProfileString` carries a small state from line to line. Read
as a grammar it says something simpler: the section is what stands between
the line that opens it and the next header, and the value is the text after
the `=` of the first line there that assigns to the key.

The two agree on whatever lines the loop sees, one line at a time. A line that
is passed over leaves the state alone, and there are only three that are not:
the one that opens the section, the header that ends it, and the assignment.
The grammar looks at the lines as they are; the loop trims them first, and the
lemmas at the start say that this makes no difference to an `=`.
-/

namespace IotCamera

open CString

namespace Profile

variable {ptr : Nat} {AppName KeyName KeyVal line c : List UInt8} {ls : List (List UInt8)}

/-! ## The grammar -/

/-- The line without the white space on its left. -/
def left (line : List UInt8) : List UInt8 := line.dropWhile isspace

/-- The line starts with `[AppName]`. -/
def Opens (AppName line : List UInt8) : Prop := (ch '[' :: AppName ++ [ch ']']) <+: left line

/-- The line starts with a bracket. -/
def IsHeader (line : List UInt8) : Prop := (left line).head? = some (ch '[')

/-- The line is no comment, and has an `=`. -/
def HasKey (line : List UInt8) : Prop :=
  (left line).head? ≠ some (ch '#') ∧ ch '=' ∈ line

/-- What `GetProfileString` takes for the key of a line. -/
def keyToken (line : List UInt8) : List UInt8 :=
  (left line).takeWhile fun b => !endsKeyname b

/-- The line assigns to the key. -/
def Assigns (KeyName line : List UInt8) : Prop := HasKey line ∧ keyToken line = KeyName

/-- The text after the first `=`. -/
def valueText (line : List UInt8) : List UInt8 :=
  (line.dropWhile fun b => b ≠ ch '=').drop 1

instance : DecidablePred (Opens AppName) := fun line =>
  inferInstanceAs (Decidable ((ch '[' :: AppName ++ [ch ']']) <+: left line))

instance : DecidablePred IsHeader := fun line =>
  inferInstanceAs (Decidable ((left line).head? = some (ch '[')))

instance : DecidablePred HasKey := fun line =>
  inferInstanceAs (Decidable ((left line).head? ≠ some (ch '#') ∧ ch '=' ∈ line))

instance : DecidablePred (Assigns KeyName) := fun line =>
  inferInstanceAs (Decidable (HasKey line ∧ keyToken line = KeyName))

/-- The lines after the one that opens the section, up to the next header. -/
def sectionLines (AppName : List UInt8) (ls : List (List UInt8)) : List (List UInt8) :=
  ((ls.dropWhile fun line => ¬ Opens AppName line).drop 1).takeWhile fun line => ¬ IsHeader line

/-- The first line of the section that assigns to the key. -/
def assignment (AppName KeyName : List UInt8) (ls : List (List UInt8)) :
    Option (List UInt8) :=
  (sectionLines AppName ls).find? fun line => Assigns KeyName line

/-! ## Lines and their trimmed text -/

theorem left_eq_nil : left line = [] ↔ Blank line := dropWhile_eq_nil_iff_blank

theorem not_mem_blank {b : UInt8} (h : Blank line) (hb : isspace b = false) : b ∉ line := by
  intro hmem
  rw [h b hmem] at hb
  cases hb

/-- A character that is no white space is found in the trimmed text where it
is in the line. -/
theorem dropWhile_left {b : UInt8} (hb : isspace b = false) :
    (left line).dropWhile (fun x => x ≠ b) = line.dropWhile fun x => x ≠ b := by
  have hspaces : ∀ x ∈ line.takeWhile isspace, decide (x ≠ b) = true := by
    intro x hx
    have hxs : isspace x = true := List.mem_takeWhile_imp hx
    have hne : x ≠ b := by
      rintro rfl
      rw [hxs] at hb
      cases hb
    simpa using hne
  calc (left line).dropWhile (fun x => x ≠ b)
      = (line.takeWhile isspace ++ left line).dropWhile (fun x => x ≠ b) :=
        (List.dropWhile_append_of_pos hspaces).symm
    _ = line.dropWhile fun x => x ≠ b := by
        rw [left, List.takeWhile_append_dropWhile]

theorem dropWhile_ne_eq_nil {b : UInt8} : (line.dropWhile fun x => x ≠ b) = [] ↔ b ∉ line := by
  rw [List.dropWhile_eq_nil_iff]
  constructor
  · intro h hb
    simpa using h b hb
  · intro h x hx
    simpa using fun hxb : x = b => h (hxb ▸ hx)

theorem dropWhile_eq_cons (h : ch '=' ∈ line) :
    ∃ b, ((left line).dropWhile fun x => x ≠ ch '=') = b :: valueText line := by
  rw [dropWhile_left (by decide), valueText]
  cases hd : line.dropWhile fun x => x ≠ ch '=' with
  | nil => exact absurd h (dropWhile_ne_eq_nil.1 hd)
  | cons b c => exact ⟨b, rfl⟩

theorem valueText_suffix : valueText line <:+ line :=
  (List.drop_suffix 1 _).trans (List.dropWhile_suffix _)

/-! ## One line -/

variable {appname : List UInt8}

/-- `[AppName]` -/
def header (AppName : List UInt8) : List UInt8 := ch '[' :: AppName ++ [ch ']']

theorem opens_iff : Opens AppName line ↔
    (left line).take (header AppName).length = header AppName := by
  rw [Opens, List.prefix_iff_eq_take, eq_comm]
  rfl

theorem look_zero_of_opens (h : Opens AppName line) :
    look (header AppName) KeyName 0 (left line) = some (.next 1) := by
  have hhead : (left line).head? = some (ch '[') := by
    obtain ⟨rest, hrest⟩ := h
    rw [← hrest]
    rfl
  rw [look, if_pos rfl, if_neg (by rw [hhead]; simp), if_pos (opens_iff.1 h)]

theorem look_zero_of_not_opens (h : ¬ Opens AppName line) :
    look (header AppName) KeyName 0 (left line) = some (.next 0) := by
  rw [look, if_pos rfl]
  split
  · rfl
  · rw [if_neg fun htake => h (opens_iff.2 htake)]

theorem look_one_of_header (h : IsHeader line) :
    look appname KeyName 1 (left line) = some .stop := by
  rw [IsHeader] at h
  rw [look, if_neg (by decide), if_neg (by rw [h]; decide), if_pos h]

theorem look_one_of_no_key (h : ¬ HasKey line) (hheader : ¬ IsHeader line) :
    look appname KeyName 1 (left line) = some (.next 1) := by
  rw [look, if_neg (by decide)]
  split
  · rfl
  · next hcomment =>
      rw [IsHeader] at hheader
      have hno : ch '=' ∉ line := fun heq => h ⟨hcomment, heq⟩
      rw [if_neg hheader, dropWhile_left (by decide), dropWhile_ne_eq_nil.2 hno]

theorem look_one_of_key (h : HasKey line) (hheader : ¬ IsHeader line) :
    look appname KeyName 1 (left line) =
      if (keyToken line).length < 32 then
        some (if keyToken line = KeyName then .value (valueText line) else .next 1)
      else none := by
  obtain ⟨b, hb⟩ := dropWhile_eq_cons h.2
  rw [IsHeader] at hheader
  rw [look, if_neg (by decide), if_neg h.1, if_neg hheader, hb]
  show (fits 32 (keyToken line)).map _ = _
  rw [fits]
  split <;> rfl

/-! ## All lines -/

/-- A line as the loop sees it, up to a zero byte if the file has one. -/
def text (buf_i : List UInt8) : List UInt8 := buf_i.takeWhile fun b => b ≠ 0

/-- The keys the loop copies fit `keyname`: those of the lines it passes over,
and that of the assignment it finds. -/
def KeysFit (KeyName : List UInt8) (ls : List (List UInt8)) : Prop :=
  (∀ line ∈ ls.takeWhile fun line => ¬ Assigns KeyName line,
    HasKey line → (keyToken line).length < 32) ∧
  ((∃ line ∈ ls, Assigns KeyName line) → KeyName.length < 32)

theorem keysFit_nil : KeysFit KeyName [] := ⟨by simp, by simp⟩

theorem keysFit_cons_of_assigns (h : Assigns KeyName line) :
    KeysFit KeyName (line :: ls) ↔ KeyName.length < 32 := by
  rw [KeysFit, List.takeWhile_cons_of_neg (by simpa using h)]
  constructor
  · intro hfit
    exact hfit.2 ⟨line, List.mem_cons_self, h⟩
  · intro hlen
    exact ⟨by simp, fun _ => hlen⟩

theorem keysFit_cons (h : ¬ Assigns KeyName line) :
    KeysFit KeyName (line :: ls) ↔
      (HasKey line → (keyToken line).length < 32) ∧ KeysFit KeyName ls := by
  rw [KeysFit, List.takeWhile_cons_of_pos (by simpa using h), List.forall_mem_cons, and_assoc]
  refine and_congr_right fun _ => and_congr_right fun _ => ?_
  simp [h]

variable {l : List UInt8} {found : Nat}

theorem scan_cons (h : left (text l) ≠ []) :
    scan ptr appname KeyName KeyVal found (l :: ls) =
      match look appname KeyName found (left (text l)) with
      | none => none
      | some (.next f) => scan ptr appname KeyName KeyVal f ls
      | some .stop => some (found, KeyVal)
      | some (.value c) => (takeValue ptr c KeyVal).map fun KeyVal => (2, KeyVal) := by
  have hlen : ¬ (left (text l)).length ≤ 0 := by
    rw [Nat.le_zero, List.length_eq_zero_iff]
    exact h
  rw [scan, if_neg]
  · rfl
  · exact hlen

/-- The loop goes on. A line of white space is skipped before it is looked at,
and looking at it would change nothing. -/
theorem scan_next {f : Nat} (hlook : look appname KeyName found (left (text l)) = some (.next f))
    (hf : left (text l) = [] → f = found) :
    scan ptr appname KeyName KeyVal found (l :: ls) = scan ptr appname KeyName KeyVal f ls := by
  by_cases hnil : left (text l) = []
  · have hlen : (left (text l)).length ≤ 0 := by
      rw [hnil]
      exact Nat.le_refl 0
    rw [hf hnil, scan, if_pos]
    exact hlen
  · rw [scan_cons hnil, hlook]

/-- In the section: up to the next header, the first assignment decides. -/
theorem scan_one (ptr : Nat) (appname KeyName KeyVal : List UInt8) (ls : List (List UInt8)) :
    let sec := (ls.map text).takeWhile fun line => ¬ IsHeader line
    (KeysFit KeyName sec → scan ptr appname KeyName KeyVal 1 ls =
      match sec.find? fun line => Assigns KeyName line with
      | none => some (1, KeyVal)
      | some line => (takeValue ptr (valueText line) KeyVal).map fun KeyVal => (2, KeyVal)) ∧
    (¬ KeysFit KeyName sec → scan ptr appname KeyName KeyVal 1 ls = none) := by
  induction ls with
  | nil => exact ⟨fun _ => rfl, fun h => absurd keysFit_nil h⟩
  | cons l ls ih =>
      by_cases hheader : IsHeader (text l)
      · have hne : left (text l) ≠ [] := by
          intro hnil
          rw [IsHeader, hnil] at hheader
          cases hheader
        rw [List.map_cons, List.takeWhile_cons_of_neg (by simpa using hheader), scan_cons hne,
          look_one_of_header hheader]
        exact ⟨fun _ => rfl, fun h => absurd keysFit_nil h⟩
      rw [List.map_cons, List.takeWhile_cons_of_pos (by simpa using hheader)]
      by_cases hkey : HasKey (text l)
      · have hne : left (text l) ≠ [] := by
          intro hnil
          exact not_mem_blank (left_eq_nil.1 hnil) (by decide) hkey.2
        rw [scan_cons hne, look_one_of_key hkey hheader]
        by_cases hassign : Assigns KeyName (text l)
        · have htoken : keyToken (text l) = KeyName := hassign.2
          intro sec
          rw [keysFit_cons_of_assigns hassign, List.find?_cons_of_pos (by simpa using hassign),
            htoken, if_pos rfl]
          exact ⟨fun hlen => by rw [if_pos hlen], fun hlen => by rw [if_neg hlen]⟩
        · have htoken : keyToken (text l) ≠ KeyName := fun h => hassign ⟨hkey, h⟩
          intro sec
          rw [keysFit_cons hassign, List.find?_cons_of_neg (by simpa using hassign),
            if_neg htoken]
          by_cases hlen : (keyToken (text l)).length < 32
          · rw [if_pos hlen]
            exact ⟨fun h => ih.1 h.2, fun h => ih.2 fun hfit => h ⟨fun _ => hlen, hfit⟩⟩
          · rw [if_neg hlen]
            exact ⟨fun h => absurd (h.1 hkey) hlen, fun _ => rfl⟩
      · have hassign : ¬ Assigns KeyName (text l) := fun h => hkey h.1
        intro sec
        rw [keysFit_cons hassign, List.find?_cons_of_neg (by simpa using hassign),
          scan_next (look_one_of_no_key hkey hheader) fun _ => rfl]
        exact ⟨fun h => ih.1 h.2, fun h => ih.2 fun hfit => h ⟨fun hk => absurd hk hkey, hfit⟩⟩

/-- Before the section: the first line that opens it decides, if there is
one. -/
theorem scan_zero (ls : List (List UInt8)) :
    scan ptr (header AppName) KeyName KeyVal 0 ls =
      match ls.dropWhile fun line => ¬ Opens AppName (text line) with
      | [] => some (0, KeyVal)
      | _ :: rest => scan ptr (header AppName) KeyName KeyVal 1 rest := by
  induction ls with
  | nil => rfl
  | cons l ls ih =>
      by_cases hopens : Opens AppName (text l)
      · rw [List.dropWhile_cons_of_neg (by simpa using hopens),
          scan_next (look_zero_of_opens hopens)]
        intro hnil
        obtain ⟨rest, hrest⟩ := hopens
        rw [hnil] at hrest
        cases hrest
      · rw [List.dropWhile_cons_of_pos (by simpa using hopens),
          scan_next (look_zero_of_not_opens hopens) fun _ => rfl, ih]

theorem sectionLines_map_text (ls : List (List UInt8)) :
    sectionLines AppName (ls.map text) =
      match ls.dropWhile fun line => ¬ Opens AppName (text line) with
      | [] => []
      | _ :: rest => (rest.map text).takeWhile fun line => ¬ IsHeader line := by
  have hdrop : (ls.map text).dropWhile (fun line => ¬ Opens AppName line) =
      (ls.dropWhile fun line => ¬ Opens AppName (text line)).map text :=
    List.dropWhile_map
  rw [sectionLines, hdrop]
  cases ls.dropWhile fun line => ¬ Opens AppName (text line) with
  | nil => rfl
  | cons l rest => rfl

/-- Over a whole file the loop looks up the assignment; it ends with `found`
at 2 if there is one. -/
theorem scan_lookup (ptr : Nat) (AppName KeyName KeyVal : List UInt8) (ls : List (List UInt8)) :
    (KeysFit KeyName (sectionLines AppName (ls.map text)) →
      ∃ found, found ≠ 2 ∧ scan ptr (header AppName) KeyName KeyVal 0 ls =
        match assignment AppName KeyName (ls.map text) with
        | none => some (found, KeyVal)
        | some line => (takeValue ptr (valueText line) KeyVal).map fun KeyVal => (2, KeyVal)) ∧
    (¬ KeysFit KeyName (sectionLines AppName (ls.map text)) →
      scan ptr (header AppName) KeyName KeyVal 0 ls = none) := by
  rw [scan_zero, assignment, sectionLines_map_text]
  cases ls.dropWhile fun line => ¬ Opens AppName (text line) with
  | nil => exact ⟨fun _ => ⟨0, by decide, rfl⟩, fun h => absurd keysFit_nil h⟩
  | cons l rest =>
      obtain ⟨hfit, hnone⟩ := scan_one ptr (header AppName) KeyName KeyVal rest
      exact ⟨fun h => ⟨1, by decide, hfit h⟩, hnone⟩

/-- The lines the loop sees. -/
def readLines (file : List UInt8) : List (List UInt8) :=
  (fgetsAll (keyValLen - 1) file.length file).map text

/-- The header fits `appname`, and the keys fit `keyname`. -/
def Fits (AppName KeyName : List UInt8) (ls : List (List UInt8)) : Prop :=
  AppName.length ≤ 29 ∧ KeysFit KeyName (sectionLines AppName ls)

theorem length_header : (header AppName).length = AppName.length + 2 := by
  rw [header, List.length_append, List.length_cons, List.length_singleton]

/-- `GetProfileString` looks up the assignment among the lines it sees, and
takes its value. -/
theorem getProfileString_eq {file : List UInt8} (h : Fits AppName KeyName (readLines file)) :
    GetProfileString ptr (some file) AppName KeyName KeyVal =
      match assignment AppName KeyName (readLines file) with
      | none => some (-1, KeyVal)
      | some line => (takeValue ptr (valueText line) KeyVal).map fun KeyVal => (0, KeyVal) := by
  obtain ⟨hname, hkeys⟩ := h
  have hfits : fits 32 (header AppName) = some (header AppName) :=
    fits_eq_some.2 ⟨by rw [length_header]; omega, rfl⟩
  obtain ⟨found, hfound, hscan⟩ := (scan_lookup ptr AppName KeyName KeyVal
    (fgetsAll (keyValLen - 1) file.length file)).1 hkeys
  rw [GetProfileString]
  show (fits 32 (header AppName)).bind (fun appname =>
    (scan ptr appname KeyName KeyVal 0 _).bind _) = _
  rw [hfits, Option.bind_some, hscan]
  show _ = match assignment AppName KeyName ((fgetsAll _ _ file).map text) with
    | none => _
    | some line => _
  cases assignment AppName KeyName ((fgetsAll (keyValLen - 1) file.length file).map text) with
  | none => simp [hfound]
  | some line =>
      cases htake : takeValue ptr (valueText line) KeyVal with
      | none => simp [htake]
      | some buf => simp [htake]

theorem getProfileString_none {file : List UInt8} (h : ¬ Fits AppName KeyName (readLines file)) :
    GetProfileString ptr (some file) AppName KeyName KeyVal = none := by
  rw [GetProfileString]
  show (fits 32 (header AppName)).bind (fun appname =>
    (scan ptr appname KeyName KeyVal 0 _).bind _) = _
  by_cases hname : AppName.length ≤ 29
  · have hkeys : ¬ KeysFit KeyName (sectionLines AppName (readLines file)) :=
      fun hkeys => h ⟨hname, hkeys⟩
    have hscan := (scan_lookup ptr AppName KeyName KeyVal
      (fgetsAll (keyValLen - 1) file.length file)).2 hkeys
    rw [fits_eq_some.2 ⟨by rw [length_header]; omega, rfl⟩, Option.bind_some, hscan,
      Option.bind_none]
  · have hlong : ¬ (header AppName).length < 32 := by
      rw [length_header]
      omega
    rw [fits, if_neg hlong, Option.bind_none]

/-! ## The value -/

/-- The text up to the end of the line. -/
def upToNewline (c : List UInt8) : List UInt8 := c.takeWhile fun b => b ≠ newline

theorem scanset_newline : scanset (fun b => b = newline) c KeyVal =
    if upToNewline c = [] then some KeyVal else strcpy KeyVal (upToNewline c) := by
  have hstop : (fun b : UInt8 => !decide (b = newline)) = fun b => decide (b ≠ newline) := by
    funext b
    rw [decide_not]
  rw [scanset, upToNewline, ← hstop]

theorem ne_nil_of_not_blank (h : ¬ Blank c) : c ≠ [] := by
  intro hnil
  rw [hnil] at h
  exact h blank_nil

theorem zero_upToNewline (h : 0 ∉ c) : 0 ∉ upToNewline c := fun h0 =>
  h ((List.takeWhile_sublist _).subset h0)

/-- The block is cleared, and the trimmed string goes back into the buffer, if
anything is left of it. -/
def trimBack (ptr : Nat) (val s : List UInt8) : Option (List UInt8) :=
  if ptr ≤ s.length + 1 then
    if (trim s).length > 0 then strcpy val (trim s) else some val
  else none

variable {val s : List UInt8}

theorem trimBack_of_blank (hptr : ptr ≤ s.length + 1) (h : Blank s) :
    trimBack ptr val s = some val := by
  rw [trimBack, if_pos hptr, trim_eq_nil.2 h, if_neg (by simp)]

theorem trimBack_of_not_blank (hptr : ptr ≤ s.length + 1) (h : ¬ Blank s)
    (hstr : str val = some s) :
    ∃ buf, trimBack ptr val s = some buf ∧ buf.length = val.length ∧
      str buf = some (trim s) := by
  have htrim : trim s ≠ [] := fun hnil => h (trim_eq_nil.1 hnil)
  have hlen : (trim s).length < val.length :=
    Nat.lt_of_le_of_lt length_trim_le (length_str_lt hstr)
  have hcpy := strcpy_eq_some.2 ⟨hlen, rfl⟩
  have hzero : 0 ∉ trim s := fun h0 => not_mem_of_str hstr (mem_of_mem_trim h0)
  refine ⟨_, ?_, length_strcpy hcpy, str_strcpy hzero hcpy⟩
  rw [trimBack, if_pos hptr, if_pos (List.length_pos_iff.2 htrim), hcpy]

/-- The block of a string that is too short is overrun. -/
theorem trimBack_of_short (hptr : ¬ ptr ≤ s.length + 1) : trimBack ptr val s = none := by
  rw [trimBack, if_neg hptr]

theorem bind_clearBlock (ptr : Nat) (val s : List UInt8) :
    ((clearBlock ptr (s.length + 1)).bind fun _ =>
      if (a_trim s).length > 0 then strcpy val (a_trim s) else some val) = trimBack ptr val s := by
  rw [clearBlock, trimBack]
  split <;> rfl

/-- Nothing is stored, and the old string is trimmed. -/
theorem takeValue_of_nil (h : upToNewline c = []) :
    takeValue ptr c KeyVal = (str KeyVal).bind fun s => trimBack ptr KeyVal s := by
  rw [takeValue, scanset_newline, if_pos h]
  show (str KeyVal).bind _ = _
  simp only [← bind_clearBlock]
  rfl

/-- The text is stored and trimmed. -/
theorem takeValue_of_ne_nil (hzero : 0 ∉ c) (h : upToNewline c ≠ []) :
    takeValue ptr c KeyVal =
      (strcpy KeyVal (upToNewline c)).bind fun val => trimBack ptr val (upToNewline c) := by
  rw [takeValue, scanset_newline, if_neg h]
  cases hcpy : strcpy KeyVal (upToNewline c) with
  | none => rfl
  | some val =>
      rw [Option.bind_some]
      show (str val).bind _ = _
      rw [str_strcpy (zero_upToNewline hzero) hcpy, Option.bind_some, ← bind_clearBlock]
      rfl

theorem takeValue_of_not_blank (hzero : 0 ∉ c) (hblank : ¬ Blank (upToNewline c))
    (hlen : (upToNewline c).length < KeyVal.length) (hptr : ptr ≤ (upToNewline c).length + 1) :
    ∃ buf, takeValue ptr c KeyVal = some buf ∧ str buf = some (trim (upToNewline c)) := by
  have hcpy := strcpy_eq_some.2 ⟨hlen, rfl⟩
  obtain ⟨buf, hbuf, -, hstr⟩ :=
    trimBack_of_not_blank hptr hblank (str_strcpy (zero_upToNewline hzero) hcpy)
  refine ⟨buf, ?_, hstr⟩
  rw [takeValue_of_ne_nil hzero (ne_nil_of_not_blank hblank), hcpy, Option.bind_some, hbuf]

/-- A value that was taken was long enough for its block to be cleared. -/
theorem ptr_le_of_takeValue {buf : List UInt8} (hzero : 0 ∉ c) (h : upToNewline c ≠ [])
    (htake : takeValue ptr c KeyVal = some buf) : ptr ≤ (upToNewline c).length + 1 := by
  rw [takeValue_of_ne_nil hzero h] at htake
  obtain ⟨val, -, hback⟩ := Option.bind_eq_some_iff.1 htake
  by_contra hptr
  rw [trimBack_of_short hptr] at hback
  cases hback

theorem text_of_not_mem (h : 0 ∉ line) : text line = line := by
  rw [text, List.takeWhile_eq_self_iff]
  intro b hb
  simpa using fun h0 : b = 0 => h (h0 ▸ hb)

theorem assignment_mem (h : assignment AppName KeyName ls = some line) : line ∈ ls := by
  have hsec : line ∈ sectionLines AppName ls := List.mem_of_find?_eq_some h
  have hdrop := (List.takeWhile_sublist _).subset hsec
  exact (List.dropWhile_sublist _).subset ((List.drop_sublist 1 _).subset hdrop)

theorem readLines_of_le {file : List UInt8} (hzero : 0 ∉ file)
    (hfit : ∀ line ∈ lines file, line.length ≤ 99) : readLines file = lines file := by
  show (fgetsAll 99 file.length file).map text = lines file
  rw [fgetsAll_of_le (by decide) (Nat.le_refl _) hfit]
  conv_rhs => rw [← List.map_id (lines file)]
  exact List.map_congr_left fun line hline =>
    text_of_not_mem fun h => hzero (mem_of_mem_lines hline h)

/-! ## The value of a matched line -/

variable {file : List UInt8}

/-- The lines the loop sees are the pieces of the lines of the file, up to a
zero byte. -/
theorem readLines_eq : readLines file = ((lines file).flatMap (pieces 99)).map text := by
  show (fgetsAll 99 file.length file).map text = _
  rw [fgetsAll_eq (by decide) (Nat.le_refl _)]

theorem newline_of_readLines (h : line ∈ readLines file) : newline ∉ line.dropLast := by
  rw [readLines_eq] at h
  obtain ⟨piece, hpiece, rfl⟩ := List.mem_map.1 h
  obtain ⟨whole, hwhole, hmem⟩ := List.mem_flatMap.1 hpiece
  have hpart : text piece <:+: whole :=
    (List.takeWhile_prefix _).isInfix.trans (piece_isInfix hmem)
  exact not_mem_dropLast_of_isInfix hpart (newline_not_mem_dropLast hwhole)

theorem zero_of_readLines (h : line ∈ readLines file) : 0 ∉ line := by
  obtain ⟨piece, -, rfl⟩ := List.mem_map.1 h
  intro h0
  simpa using List.mem_takeWhile_imp h0

theorem trim_value (h : line ∈ readLines file) :
    trim (upToNewline (valueText line)) = trim (valueText line) :=
  trim_takeWhile_newline
    (not_mem_dropLast_of_isInfix valueText_suffix.isInfix (newline_of_readLines h))

theorem blank_value (h : line ∈ readLines file) :
    Blank (upToNewline (valueText line)) ↔ Blank (valueText line) := by
  rw [← trim_eq_nil, trim_value h, trim_eq_nil]

theorem zero_of_matched (h : assignment AppName KeyName (readLines file) = some line) :
    0 ∉ valueText line :=
  fun h0 => zero_of_readLines (assignment_mem h) (valueText_suffix.subset h0)

/-- A run over a matched line is the taking of its value. -/
theorem getProfileString_matched (hfits : Fits AppName KeyName (readLines file))
    (hline : assignment AppName KeyName (readLines file) = some line) :
    GetProfileString ptr (some file) AppName KeyName KeyVal =
      (takeValue ptr (valueText line) KeyVal).map fun KeyVal => (0, KeyVal) := by
  rw [getProfileString_eq hfits, hline]

/-- A value that is not blank and has room in the buffer is stored trimmed exactly
if it is at least a pointer long with its zero byte. -/
theorem stores_iff (hfits : Fits AppName KeyName (readLines file))
    (hline : assignment AppName KeyName (readLines file) = some line)
    (hblank : ¬ Blank (valueText line))
    (hroom : (upToNewline (valueText line)).length < KeyVal.length) :
    (∃ buf, GetProfileString ptr (some file) AppName KeyName KeyVal = some (0, buf) ∧
      str buf = some (trim (valueText line))) ↔
      ptr ≤ (upToNewline (valueText line)).length + 1 := by
  have hmem : line ∈ readLines file := assignment_mem hline
  have hzero := zero_of_matched hline
  have hvalue : ¬ Blank (upToNewline (valueText line)) := mt (blank_value hmem).1 hblank
  rw [getProfileString_matched hfits hline]
  constructor
  · rintro ⟨buf, hbuf, -⟩
    obtain ⟨buf', htake, -⟩ := Option.map_eq_some_iff.1 hbuf
    exact ptr_le_of_takeValue hzero (ne_nil_of_not_blank hvalue) htake
  · intro hptr
    obtain ⟨buf, htake, hstr⟩ := takeValue_of_not_blank hzero hvalue hroom hptr
    exact ⟨buf, by rw [htake, Option.map_some], by rw [hstr, trim_value hmem]⟩

/-! ## The whole lookup -/

/-- What the lookup is to do by its grammar: the text after the `=` of the first
assignment in the section, if it is not blank, is what is in `KeyVal`
afterwards, trimmed on both ends; and if there is no assignment, or no file, the
answer is -1 and `KeyVal` is as it was. -/
def MeetsGrammar (ptr : Nat) (profile : Option (List UInt8))
    (AppName KeyName KeyVal : List UInt8) : Prop :=
  (∀ line, (profile.bind fun file => assignment AppName KeyName (lines file)) = some line →
    ¬ Blank (valueText line) →
    ∃ buf, GetProfileString ptr profile AppName KeyName KeyVal = some (0, buf) ∧
      str buf = some (trim (valueText line))) ∧
  ((profile.bind fun file => assignment AppName KeyName (lines file)) = none →
    GetProfileString ptr profile AppName KeyName KeyVal = some (-1, KeyVal))

/-- For a file of short lines, the lookup meets its grammar exactly if the value
it finds, if it is not blank, is at least a pointer long with its zero byte. -/
theorem getProfileString_grammar_iff (ptr : Nat) (profile : Option (List UInt8))
    (AppName KeyName KeyVal : List UInt8)
    (hzero : ∀ file ∈ profile, 0 ∉ file)
    (hshort : ∀ file ∈ profile, ∀ line ∈ lines file, line.length ≤ 99)
    (hname : AppName.length ≤ 29)
    (hkeys : ∀ file ∈ profile, ∀ line ∈ sectionLines AppName (lines file),
      HasKey line → (keyToken line).length ≤ 31)
    (hroom : ∀ file ∈ profile, ∀ line ∈ assignment AppName KeyName (lines file),
      (upToNewline (valueText line)).length < KeyVal.length) :
    MeetsGrammar ptr profile AppName KeyName KeyVal ↔
      ∀ line, (profile.bind fun file => assignment AppName KeyName (lines file)) = some line →
        ¬ Blank (valueText line) → ptr ≤ (upToNewline (valueText line)).length + 1 := by
  cases profile with
  | none =>
      refine iff_of_true ⟨fun line h => ?_, fun _ => rfl⟩ fun line h => ?_
      · cases h
      · cases h
  | some file =>
      have hread : readLines file = lines file :=
        readLines_of_le (hzero file rfl) (hshort file rfl)
      have hfits : Fits AppName KeyName (readLines file) := by
        rw [hread]
        refine ⟨hname, fun line hline hkey => ?_, fun ⟨line, hline, hassign⟩ => ?_⟩
        · exact Nat.lt_succ_of_le
            (hkeys file rfl line ((List.takeWhile_sublist _).subset hline) hkey)
        · rw [← hassign.2]
          exact Nat.lt_succ_of_le (hkeys file rfl line hline hassign.1)
      have hnone : assignment AppName KeyName (lines file) = none →
          GetProfileString ptr (some file) AppName KeyName KeyVal = some (-1, KeyVal) := by
        intro hnone
        rw [getProfileString_eq hfits, hread, hnone]
      rw [MeetsGrammar, Option.bind_some, and_iff_left hnone]
      refine forall_congr' fun line => forall_congr' fun hline => forall_congr' fun hblank => ?_
      exact stores_iff hfits (hread.symm ▸ hline) hblank (hroom file rfl line hline)

/-- A comment, a section with a key in it, and a key of the same name in the
next one. -/
def iniFile : List UInt8 :=
  bytes "# camera\n[GENERAL]\n MEDIAMOD = 1 \r\n[WIFI]\nMEDIAMOD=2"

theorem getProfileString_iniFile :
    MeetsGrammar 4 (some iniFile) (bytes "GENERAL") (bytes "MEDIAMOD") (List.replicate 32 0) := by
  refine (getProfileString_grammar_iff 4 (some iniFile) (bytes "GENERAL") (bytes "MEDIAMOD")
    (List.replicate 32 0) (by decide +kernel) (by decide +kernel) (by decide +kernel)
    (by decide +kernel) (by decide +kernel)).2 fun line hline _ => ?_
  have hassign : assignment (bytes "GENERAL") (bytes "MEDIAMOD") (lines iniFile) =
      some (bytes " MEDIAMOD = 1 \r\n") := by decide +kernel
  rw [Option.bind_some, hassign, Option.some.injEq] at hline
  rw [← hline]
  decide +kernel

example : trim (valueText (bytes " MEDIAMOD = 1 \r\n")) = bytes "1" := by decide +kernel

/-- A mode of one digit, with nothing around it. -/
def oneDigitMode : List UInt8 := bytes "[GENERAL]\nMEDIAMOD=1\n"

theorem oneDigitMode_overruns :
    ¬ MeetsGrammar 4 (some oneDigitMode) (bytes "GENERAL") (bytes "MEDIAMOD")
      (List.replicate 32 0) := by
  intro h
  have hassign : assignment (bytes "GENERAL") (bytes "MEDIAMOD") (lines oneDigitMode) =
      some (bytes "MEDIAMOD=1\n") := by decide +kernel
  obtain ⟨buf, hbuf, -⟩ := h.1 (bytes "MEDIAMOD=1\n") hassign (by decide +kernel)
  have hnone : GetProfileString 4 (some oneDigitMode) (bytes "GENERAL") (bytes "MEDIAMOD")
      (List.replicate 32 0) = none := by decide +kernel
  rw [hnone] at hbuf
  cases hbuf

end Profile

end IotCamera
