import IotCamera.Proofs.Settings

/-!
# Tokens and their buffers

The loop of `GetProfileString` has two scansets without a width. `tokens` says
what they store, whether it fits or not: it is the loop again, so that a token
can be looked at that the loop itself would not survive. A token that does not
fit is where the loop has no result, and there are only two other reasons for
that, as long as the caller's buffer holds a string: a section name that is too
long, and a string that is too short for the block it is trimmed in.

What has to fit is then read off the section: the keys of the lines before the
assignment, and its value. The buffer of a line helps in one place only. Its
99 bytes bound every value below the 256 of the long array, and no other
buffer is that large.
-/

namespace IotCamera

open CString

/-- The token fits its buffer, `KeyVal` being one of `n` bytes, together with
the zero at its end. -/
def Token.Fits (n : Nat) : Token → Prop
  | .keyname s => s.length + 1 ≤ 32
  | .KeyVal s => s.length + 1 ≤ n

namespace Profile

variable {AppName appname KeyName KeyVal line l : List UInt8} {ls : List (List UInt8)}
  {ptr n found : Nat} {P : Token → Prop}

theorem forall_scanned {token : List UInt8 → Token} {s : List UInt8} (hnil : P (token [])) :
    (∀ t ∈ scanned token s, P t) ↔ P (token s) := by
  unfold scanned
  split
  · next hs =>
      rw [hs]
      exact ⟨fun _ => hnil, fun _ t ht => absurd ht List.not_mem_nil⟩
  · rw [List.forall_mem_singleton]

/-! ## One line -/

theorem buf_eq : l_trim (l.takeWhile fun b => b ≠ 0) = left (text l) := rfl

theorem tokens_blank (h : left (text l) = []) :
    tokens appname KeyName found (l :: ls) = tokens appname KeyName found ls := by
  have hlen : (l_trim (l.takeWhile fun b => b ≠ 0)).length ≤ 0 := by
    rw [buf_eq, h]
    exact Nat.le_refl 0
  rw [tokens, if_pos hlen]

theorem not_length_le (h : left (text l) ≠ []) :
    ¬ (l_trim (l.takeWhile fun b => b ≠ 0)).length ≤ 0 := by
  rw [buf_eq, Nat.le_zero, List.length_eq_zero_iff]
  exact h

theorem tokens_opens (h : Opens AppName (text l)) :
    tokens (header AppName) KeyName 0 (l :: ls) = tokens (header AppName) KeyName 1 ls := by
  have hhead : (left (text l)).head? = some (ch '[') := by
    obtain ⟨rest, hrest⟩ := h
    rw [← hrest]
    rfl
  have hne : left (text l) ≠ [] := fun hnil => by
    rw [hnil] at hhead
    cases hhead
  have htake := opens_iff.1 h
  rw [tokens, if_neg (not_length_le hne), if_pos rfl]
  rw [buf_eq]
  rw [if_neg (not_not_intro hhead), if_pos htake]

theorem tokens_not_opens (h : ¬ Opens AppName (text l)) :
    tokens (header AppName) KeyName 0 (l :: ls) = tokens (header AppName) KeyName 0 ls := by
  by_cases hnil : left (text l) = []
  · exact tokens_blank hnil
  rw [tokens, if_neg (not_length_le hnil), if_pos rfl]
  rw [buf_eq]
  split
  · rfl
  · rw [if_neg fun htake => h (opens_iff.2 htake)]

theorem tokens_header (h : IsHeader (text l)) : tokens appname KeyName 1 (l :: ls) = [] := by
  have hne : left (text l) ≠ [] := fun hnil => by
    rw [IsHeader, hnil] at h
    cases h
  rw [IsHeader] at h
  rw [tokens, if_neg (not_length_le hne), if_neg (by decide)]
  rw [buf_eq]
  rw [if_neg (by rw [h]; decide), if_pos h]

theorem tokens_no_key (h : ¬ HasKey (text l)) (hheader : ¬ IsHeader (text l)) :
    tokens appname KeyName 1 (l :: ls) = tokens appname KeyName 1 ls := by
  by_cases hnil : left (text l) = []
  · exact tokens_blank hnil
  rw [IsHeader] at hheader
  rw [tokens, if_neg (not_length_le hnil), if_neg (by decide)]
  rw [buf_eq]
  by_cases hcomment : (left (text l)).head? = some (ch '#')
  · rw [if_pos hcomment]
  · have hno : ch '=' ∉ text l := fun heq => h ⟨hcomment, heq⟩
    rw [if_neg hcomment, if_neg hheader, dropWhile_left (by decide), dropWhile_ne_eq_nil.2 hno]

theorem tokens_key (h : HasKey (text l)) (hheader : ¬ IsHeader (text l)) :
    tokens appname KeyName 1 (l :: ls) = scanned .keyname (keyToken (text l)) ++
      if keyToken (text l) = KeyName then
        scanned .KeyVal (upToNewline (valueText (text l)))
      else tokens appname KeyName 1 ls := by
  have hne : left (text l) ≠ [] := fun hnil =>
    not_mem_blank (left_eq_nil.1 hnil) (by decide) h.2
  obtain ⟨b, hb⟩ := dropWhile_eq_cons h.2
  rw [IsHeader] at hheader
  rw [tokens, if_neg (not_length_le hne), if_neg (by decide)]
  rw [buf_eq]
  rw [if_neg h.1, if_neg hheader, hb]
  rfl

/-! ## The section -/

/-- In the section: the keys up to the first assignment, and its value. -/
theorem tokens_one (hn : 0 < n) (ls : List (List UInt8)) :
    let sec := (ls.map text).takeWhile fun line => ¬ IsHeader line
    (∀ t ∈ tokens appname KeyName 1 ls, t.Fits n) ↔
      KeysFit KeyName sec ∧
        ∀ line ∈ sec.find? fun line => Assigns KeyName line,
          (upToNewline (valueText line)).length < n := by
  induction ls with
  | nil => exact ⟨fun _ => ⟨keysFit_nil, by simp⟩, fun _ => by simp [tokens]⟩
  | cons l ls ih =>
      dsimp only at ih
      by_cases hheader : IsHeader (text l)
      · rw [List.map_cons, List.takeWhile_cons_of_neg (by simpa using hheader),
          tokens_header hheader]
        exact ⟨fun _ => ⟨keysFit_nil, by simp⟩, fun _ => by simp⟩
      rw [List.map_cons, List.takeWhile_cons_of_pos (by simpa using hheader)]
      by_cases hkey : HasKey (text l)
      · have htoken : (∀ t ∈ scanned .keyname (keyToken (text l)), t.Fits n) ↔
            (keyToken (text l)).length < 32 := forall_scanned (by simp [Token.Fits])
        rw [tokens_key hkey hheader, List.forall_mem_append, htoken]
        by_cases hassign : Assigns KeyName (text l)
        · have hvalue : (∀ t ∈ scanned .KeyVal (upToNewline (valueText (text l))), t.Fits n) ↔
              (upToNewline (valueText (text l))).length < n := forall_scanned hn
          intro sec
          rw [if_pos hassign.2, hvalue, keysFit_cons_of_assigns hassign,
            List.find?_cons_of_pos (by simpa using hassign), hassign.2]
          simp
        · have hne : keyToken (text l) ≠ KeyName := fun h => hassign ⟨hkey, h⟩
          intro sec
          rw [if_neg hne, keysFit_cons hassign, List.find?_cons_of_neg (by simpa using hassign),
            ih, and_assoc]
          exact and_congr_left fun _ => ⟨fun h _ => h, fun h => h hkey⟩
      · have hassign : ¬ Assigns KeyName (text l) := fun h => hkey h.1
        intro sec
        rw [tokens_no_key hkey hheader, keysFit_cons hassign,
          List.find?_cons_of_neg (by simpa using hassign), ih, and_assoc]
        exact ⟨fun h => ⟨fun hk => absurd hk hkey, h⟩, fun h => h.2⟩

/-- Before the section nothing is scanned. -/
theorem tokens_zero (ls : List (List UInt8)) :
    tokens (header AppName) KeyName 0 ls =
      match ls.dropWhile fun line => ¬ Opens AppName (text line) with
      | [] => []
      | _ :: rest => tokens (header AppName) KeyName 1 rest := by
  induction ls with
  | nil => rfl
  | cons l ls ih =>
      by_cases hopens : Opens AppName (text l)
      · rw [List.dropWhile_cons_of_neg (by simpa using hopens), tokens_opens hopens]
      · rw [List.dropWhile_cons_of_pos (by simpa using hopens), tokens_not_opens hopens, ih]

/-- The tokens of a call fit if the keys of the section do, and the value. -/
theorem sscanfs_fit (hn : 0 < n) (file : List UInt8) :
    (∀ t ∈ sscanfs file AppName KeyName, t.Fits n) ↔
      KeysFit KeyName (sectionLines AppName (readLines file)) ∧
        ∀ line ∈ assignment AppName KeyName (readLines file),
          (upToNewline (valueText line)).length < n := by
  rw [sscanfs, assignment, readLines, sectionLines_map_text]
  show (∀ t ∈ tokens (header AppName) KeyName 0 _, t.Fits n) ↔ _
  rw [tokens_zero]
  cases (fgetsAll (keyValLen - 1) file.length file).dropWhile
      fun line => ¬ Opens AppName (text line) with
  | nil => exact ⟨fun _ => ⟨keysFit_nil, by simp⟩, fun _ => by simp⟩
  | cons l rest => exact tokens_one hn rest

/-! ## Where the loop has no result -/

/-- If the caller's buffer holds a string, a value is taken exactly if it fits,
and the string that is there then is not too short for its block. -/
theorem takeValue_isSome_iff {c : List UInt8} (hzero : 0 ∉ c) (hstr : (str KeyVal).isSome) :
    (takeValue ptr c KeyVal).isSome ↔
      (upToNewline c).length < KeyVal.length ∧ ∀ s ∈ held c KeyVal, ptr ≤ s.length + 1 := by
  obtain ⟨old, hold⟩ := Option.isSome_iff_exists.1 hstr
  have hpos : 0 < KeyVal.length := Nat.lt_of_le_of_lt (Nat.zero_le _) (length_str_lt hold)
  constructor
  · intro h
    obtain ⟨buf, hbuf⟩ := Option.isSome_iff_exists.1 h
    obtain ⟨s, hs, hptr⟩ := held_of_takeValue hzero hbuf
    refine ⟨?_, fun s' hs' => ?_⟩
    · rw [held] at hs
      split at hs
      · next hnil =>
          rw [hnil]
          exact hpos
      · exact (fits_eq_some.1 hs).1
    · rw [hs] at hs'
      cases hs'
      exact hptr
  · rintro ⟨hlen, hptr⟩
    have hheld : ∃ s, held c KeyVal = some s := by
      rw [held]
      split
      · exact ⟨old, hold⟩
      · exact ⟨_, fits_eq_some.2 ⟨hlen, rfl⟩⟩
    obtain ⟨s, hs⟩ := hheld
    obtain ⟨buf, hbuf, -⟩ := takeValue_some hzero hs (hptr s hs)
    rw [hbuf]
    rfl

/-- And a call has a result exactly if its section name and its tokens fit, and
the block the value is trimmed in is long enough. -/
theorem getProfileString_isSome_iff {file : List UInt8} (hstr : (str KeyVal).isSome) :
    (GetProfileString ptr (some file) AppName KeyName KeyVal).isSome ↔
      AppName.length ≤ 29 ∧ (∀ t ∈ sscanfs file AppName KeyName, t.Fits KeyVal.length) ∧
        ∀ line ∈ assignment AppName KeyName (readLines file),
          ∀ s ∈ held (valueText line) KeyVal, ptr ≤ s.length + 1 := by
  obtain ⟨old, hold⟩ := Option.isSome_iff_exists.1 hstr
  rw [sscanfs_fit (Nat.lt_of_le_of_lt (Nat.zero_le _) (length_str_lt hold)), and_assoc,
    ← and_assoc]
  show _ ↔ Profile.Fits AppName KeyName (readLines file) ∧ _
  by_cases hfits : Profile.Fits AppName KeyName (readLines file)
  · rw [and_iff_right hfits]
    cases hline : assignment AppName KeyName (readLines file) with
    | none =>
        rw [getProfileString_eq hfits, hline]
        simp
    | some line =>
        rw [getProfileString_matched hfits hline, Option.isSome_map,
          takeValue_isSome_iff (zero_of_matched hline) hstr]
        simp
  · rw [getProfileString_none hfits]
    exact ⟨fun h => Bool.noConfusion h, fun h => absurd h.1 hfits⟩

/-! ## Lengths -/

/-- The loop sees at most 99 bytes of a line. -/
theorem length_of_readLines {file : List UInt8} (h : line ∈ readLines file) :
    line.length ≤ 99 := by
  obtain ⟨piece, hpiece, rfl⟩ := List.mem_map.1 h
  have htext : (text piece).length ≤ piece.length := (List.takeWhile_prefix _).length_le
  exact htext.trans (length_of_fgetsAll hpiece)

theorem length_value_le : (upToNewline (valueText line)).length ≤ line.length := by
  have hprefix : upToNewline (valueText line) <+: valueText line := List.takeWhile_prefix _
  exact hprefix.length_le.trans valueText_suffix.length_le

/-- The longest prefix without an end is short if an end comes early. -/
theorem length_takeWhile_lt {p : UInt8 → Bool} {s : List UInt8} (hs : ∃ b ∈ s, p b = false) :
    (s.takeWhile p).length < n ↔ ∃ b ∈ s.take n, p b = false := by
  induction s generalizing n with
  | nil =>
      obtain ⟨b, hb, -⟩ := hs
      cases hb
  | cons a s ih =>
      cases n with
      | zero => simp
      | succ n =>
          by_cases ha : p a = true
          · have hrest : ∃ b ∈ s, p b = false := by
              obtain ⟨b, hb, hpb⟩ := hs
              rcases List.mem_cons.1 hb with rfl | hb
              · rw [ha] at hpb
                cases hpb
              · exact ⟨b, hb, hpb⟩
            rw [List.takeWhile_cons_of_pos ha, List.length_cons, Nat.add_lt_add_iff_right,
              ih hrest, List.take_succ_cons]
            simp [ha]
          · rw [List.takeWhile_cons_of_neg ha, List.take_succ_cons]
            simp [ha]

/-- A key is short if one of its ends is among the first 32 characters. -/
theorem length_keyToken_lt (h : HasKey line) :
    (keyToken line).length < 32 ↔ ∃ b ∈ (left line).take 32, endsKeyname b := by
  have hmem : ch '=' ∈ left line := by
    by_contra hno
    have hdrop := dropWhile_ne_eq_nil.2 hno
    rw [dropWhile_left (by decide)] at hdrop
    exact dropWhile_ne_eq_nil.1 hdrop h.2
  rw [keyToken, length_takeWhile_lt ⟨ch '=', hmem, by decide⟩]
  simp

/-! ## The settings file -/

/-- The keys `readInifile` looks up, and the sizes of the buffers their values
go to. -/
def lookups : List (List UInt8 × Nat) :=
  (bytes "NETWORKMOD", 32) :: (bytes "MEDIAMOD", 32) :: arrays

/-- Every line up to the first that assigns to the key either has no key, or
ends it within its first 32 characters. -/
def EndsEarly (file key : List UInt8) : Prop :=
  ∀ line ∈ (sectionLines (bytes "GENERAL") (readLines file)).takeWhile
      fun line => ¬ Assigns key line,
    HasKey line → ∃ b ∈ (left line).take 32, endsKeyname b

theorem keysFit_iff {file key : List UInt8} (hkey : key.length < 32) :
    KeysFit key (sectionLines (bytes "GENERAL") (readLines file)) ↔ EndsEarly file key := by
  refine (and_iff_left fun _ => hkey).trans ?_
  refine forall_congr' fun line => forall_congr' fun _ => forall_congr' fun h => ?_
  exact length_keyToken_lt h

/-- Whatever the file, a token that does not fit is a key without an early
end, or a value of more than 31 characters for one of the buffers of 32. -/
theorem tokens_fit_iff (file : List UInt8) :
    (∀ l ∈ lookups, ∀ t ∈ sscanfs file (bytes "GENERAL") l.1, t.Fits l.2) ↔
      ∀ l ∈ lookups, EndsEarly file l.1 ∧
        (l.2 = 32 → ∀ line ∈ assignment (bytes "GENERAL") l.1 (readLines file),
          (upToNewline (valueText line)).length ≤ 31) := by
  refine forall_congr' fun l => forall_congr' fun hl => ?_
  have hsize : l.1.length < 32 ∧ (l.2 = 32 ∨ l.2 = 256) := by
    revert l
    decide +kernel
  rw [sscanfs_fit (by omega), keysFit_iff hsize.1]
  refine and_congr_right fun _ => ?_
  rcases hsize.2 with h32 | h256
  · rw [h32]
    exact ⟨fun h _ line hline => Nat.le_of_lt_succ (h line hline),
      fun h line hline => Nat.lt_succ_of_le (h rfl line hline)⟩
  · rw [h256]
    refine ⟨fun _ h => absurd h (by decide), fun _ line hline => ?_⟩
    -- the line is too short for a value that long
    have hlen : line.length ≤ 99 := length_of_readLines (assignment_mem hline)
    have hle : (upToNewline (valueText line)).length ≤ line.length := length_value_le
    omega

/-- A key of 40 letters, of no interest. -/
def longKey : List UInt8 :=
  bytes "[GENERAL]\n" ++ List.replicate 40 (ch 'K') ++ bytes "=1\n"

theorem longKey_overflows : ¬ ∀ l ∈ lookups,
    ∀ t ∈ sscanfs longKey (bytes "GENERAL") l.1, t.Fits l.2 := by
  intro hfit
  have hends := ((tokens_fit_iff longKey).1 hfit (bytes "NETWORKMOD", 32) (by simp [lookups])).1
  revert hends
  unfold EndsEarly
  decide +kernel

end Profile

end IotCamera
