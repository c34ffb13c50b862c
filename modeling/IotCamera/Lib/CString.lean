import Mathlib.Data.List.DropRight
import Mathlib.Data.List.TakeWhile

/-!
# Strings in buffers, and lines in files

A C string is the bytes of a buffer up to the first zero byte. Two ways to
look at a buffer are enough for most programs. One whose old contents nobody
reads is just the string in it, and the only question is whether the string
fits. One whose old contents show through is the list of its bytes: copying a
string in overwrites the front, and reading it back has no answer if there is
no zero byte left.

The white space is that of the C locale, which `isspace` knows and the trim
routines take off. A number at the start of a string is read with or without
the white space around it.

The last part is `fgets`. A line of a file ends with its newline, and only the
last one may lack it. `fgets` delivers a line in one piece if it fits the
buffer and in several if it does not, and one call after another delivers the
pieces of the lines in order.
-/

namespace CString

/-- A character of the source as a byte. -/
def ch (c : Char) : UInt8 := UInt8.ofNat c.toNat

/-- The bytes of a text of the source. -/
def bytes (s : String) : List UInt8 := s.toList.map ch

def isspace (b : UInt8) : Bool := b = 32 || 9 ≤ b && b ≤ 13

/-! ## Buffers -/

variable {buf buf' s t : List UInt8} {n : Nat}

/-- The string in a buffer. -/
def str (buf : List UInt8) : Option (List UInt8) :=
  if 0 ∈ buf then some (buf.takeWhile fun b => b ≠ 0) else none

/-- `strcpy` into a buffer, if the string and its zero byte fit. -/
def strcpy (buf s : List UInt8) : Option (List UInt8) :=
  if s.length < buf.length then some (s ++ 0 :: buf.drop (s.length + 1)) else none

/-- A string copied into a buffer of `n` bytes that holds nothing else. -/
def fits (n : Nat) (s : List UInt8) : Option (List UInt8) :=
  if s.length < n then some s else none

/-- Bytes put into a block from some index on. -/
def putBytes (buffer : List UInt8) (i : Nat) (bs : List UInt8) : Option (List UInt8) :=
  if i + bs.length ≤ buffer.length then
    some (buffer.take i ++ bs ++ buffer.drop (i + bs.length))
  else none

/-- `memcpy` of `n` bytes into a buffer from some index on. -/
def memcpy (buf : List UInt8) (i : Nat) (s : List UInt8) (n : Nat) : Option (List UInt8) :=
  if n ≤ s.length then putBytes buf i (s.take n) else none

def strlen (buf : List UInt8) : Option Nat := (str buf).map List.length

theorem strcpy_eq_some : strcpy buf s = some buf' ↔
    s.length < buf.length ∧ buf' = s ++ 0 :: buf.drop (s.length + 1) := by
  simp [strcpy, eq_comm]

theorem fits_eq_some : fits n s = some t ↔ s.length < n ∧ t = s := by
  simp [fits, eq_comm]

/-- The string that was copied in is the string that is there. -/
theorem str_append_zero (h : 0 ∉ s) : str (s ++ 0 :: t) = some s := by
  have htake : (s ++ 0 :: t).takeWhile (fun b => b ≠ 0) = s := by
    have hne : ∀ b ∈ s, decide (b ≠ 0) = true := by
      intro b hb
      simpa using fun h0 : b = 0 => h (h0 ▸ hb)
    rw [List.takeWhile_append_of_pos hne]
    simp
  rw [str, if_pos (by simp), htake]

/-- A string that does not end in the first part of a buffer goes on in the
second. -/
theorem str_append : str (s ++ t) = if 0 ∈ s then str s else (str t).map fun u => s ++ u := by
  by_cases h : 0 ∈ s
  · have hlt : (s.takeWhile fun b => b ≠ 0).length ≠ s.length := by
      intro heq
      have hall := (List.takeWhile_prefix _).eq_of_length heq
      rw [List.takeWhile_eq_self_iff] at hall
      simpa using hall 0 h
    rw [if_pos h, str, str, if_pos (List.mem_append_left t h), if_pos h, List.takeWhile_append,
      if_neg hlt]
  · have hne : ∀ b ∈ s, decide (b ≠ 0) = true := by
      intro b hb
      simpa using fun h0 : b = 0 => h (h0 ▸ hb)
    rw [if_neg h, str, str, List.takeWhile_append_of_pos hne]
    by_cases ht : 0 ∈ t
    · rw [if_pos (List.mem_append_right s ht), if_pos ht, Option.map_some]
    · rw [if_neg (by simp [h, ht]), if_neg ht, Option.map_none]

theorem str_strcpy (h : 0 ∉ s) (hcpy : strcpy buf s = some buf') : str buf' = some s := by
  obtain ⟨-, rfl⟩ := strcpy_eq_some.1 hcpy
  exact str_append_zero h

theorem not_mem_of_str (h : str buf = some s) : 0 ∉ s := by
  rw [str] at h
  split at h
  · cases h
    intro h0
    simpa using List.mem_takeWhile_imp h0
  · cases h

theorem length_str_lt (h : str buf = some s) : s.length < buf.length := by
  rw [str] at h
  split at h
  · next h0 =>
      cases h
      refine Nat.lt_of_le_of_ne (List.takeWhile_prefix _).length_le fun heq => ?_
      have hall := (List.takeWhile_prefix _).eq_of_length heq
      rw [List.takeWhile_eq_self_iff] at hall
      simpa using hall 0 h0
  · cases h

theorem length_strcpy (h : strcpy buf s = some buf') : buf'.length = buf.length := by
  obtain ⟨hlt, rfl⟩ := strcpy_eq_some.1 h
  rw [List.length_append, List.length_cons, List.length_drop]
  omega

/-- A string is at the front of its buffer. -/
theorem take_of_str (h : str buf = some s) : buf.take s.length = s := by
  rw [str] at h
  split at h
  · cases h
    exact (List.prefix_iff_eq_take.1 (List.takeWhile_prefix _)).symm
  · cases h

/-- A string ends at a zero byte. -/
theorem getElem?_length_str (h : str buf = some s) : buf[s.length]? = some 0 := by
  rw [str] at h
  split at h
  · next h0 =>
      cases h
      have hsplit := List.takeWhile_append_dropWhile (p := fun b => decide (b ≠ 0)) (l := buf)
      cases hd : buf.dropWhile fun b => decide (b ≠ 0) with
      | nil =>
          rw [List.dropWhile_eq_nil_iff] at hd
          simpa using hd 0 h0
      | cons b t =>
          have hb : b = 0 := by
            have hnot := List.head?_dropWhile_not (fun b => decide (b ≠ 0)) buf
            rw [hd] at hnot
            simpa using hnot
          have hget : ((buf.takeWhile fun b => decide (b ≠ 0)) ++ 0 :: t)[
              (buf.takeWhile fun b => decide (b ≠ 0)).length]? = some 0 := by simp
          rw [hd, hb] at hsplit
          rwa [hsplit] at hget
  · cases h

/-- It is the first one. -/
theorem length_str_le {i : Nat} (hzero : buf[i]? = some 0) (h : str buf = some s) :
    s.length ≤ i := by
  by_contra hlt
  refine not_mem_of_str h ?_
  rw [← take_of_str h]
  refine List.mem_of_getElem? (i := i) ?_
  rwa [List.getElem?_take_of_lt (Nat.lt_of_not_le hlt)]

theorem strlen_of_str (h : str buf = some s) : strlen buf = some s.length := by
  rw [strlen, h, Option.map_some]

theorem str_of_mem (h : 0 ∈ buf) : ∃ s, str buf = some s := ⟨_, if_pos h⟩

/-- Bytes put behind the first part of a buffer overwrite what comes next. -/
theorem putBytes_append {u : List UInt8} (h : s.length + t.length ≤ (s ++ u).length) :
    putBytes (s ++ u) s.length t = some (s ++ t ++ u.drop t.length) := by
  rw [putBytes, if_pos h, List.take_left, List.drop_append]
  simp

/-- One byte put. -/
theorem putBytes_eq_set {b : UInt8} (h : n < buf.length) :
    putBytes buf n [b] = some (buf.set n b) := by
  rw [putBytes, if_pos (show n + [b].length ≤ buf.length from h),
    List.set_eq_take_append_cons_drop, if_pos h, List.append_assoc]
  rfl

theorem length_putBytes (h : putBytes buf n t = some buf') : buf'.length = buf.length := by
  rw [putBytes] at h
  split at h
  · cases h
    simp only [List.length_append, List.length_take, List.length_drop]
    omega
  · cases h

/-! ## Trimming -/

def trim (s : List UInt8) : List UInt8 := (s.dropWhile isspace).rdropWhile isspace

/-- Nothing but white space. -/
def Blank (s : List UInt8) : Prop := ∀ b ∈ s, isspace b

instance (s : List UInt8) : Decidable (Blank s) :=
  inferInstanceAs (Decidable (∀ b ∈ s, isspace b))

theorem blank_nil : Blank [] := fun b hb => by cases hb

theorem not_isspace_of_dropWhile {b : UInt8} (h : s.dropWhile isspace = b :: t) :
    isspace b = false := by
  have hpos : 0 < (s.dropWhile isspace).length := by rw [h]; exact Nat.succ_pos _
  have := List.dropWhile_get_zero_not isspace s hpos
  simpa [h] using this

theorem dropWhile_eq_nil_iff_blank : s.dropWhile isspace = [] ↔ Blank s :=
  List.dropWhile_eq_nil_iff

theorem trim_eq_nil : trim s = [] ↔ Blank s := by
  constructor
  · intro h
    rw [trim, List.rdropWhile_eq_nil_iff] at h
    rw [← dropWhile_eq_nil_iff_blank]
    -- the first byte that is left would be white space
    cases hd : s.dropWhile isspace with
    | nil => rfl
    | cons b t =>
        have hb := h b (by rw [hd]; exact List.mem_cons_self)
        rw [not_isspace_of_dropWhile hd] at hb
        cases hb
  · intro h
    rw [trim, dropWhile_eq_nil_iff_blank.2 h, List.rdropWhile_nil]

theorem rdropWhile_append_blank (h : Blank t) :
    (s ++ t).rdropWhile isspace = s.rdropWhile isspace := by
  rw [List.rdropWhile, List.reverse_append,
    List.dropWhile_append_of_pos fun b hb => h b (List.mem_reverse.1 hb), ← List.rdropWhile]

theorem trim_append_blank (h : Blank t) : trim (s ++ t) = trim s := by
  rw [trim, trim, List.dropWhile_append]
  split
  · next hs =>
      have hnil : s.dropWhile isspace = [] := List.isEmpty_iff.1 hs
      rw [hnil, dropWhile_eq_nil_iff_blank.2 h]
  · exact rdropWhile_append_blank h

theorem blank_of_blank_trim (h : Blank (trim s)) : Blank s := by
  have hsplit : s.dropWhile isspace = trim s ++ (s.dropWhile isspace).rtakeWhile isspace :=
    List.rdropWhile_append_rtakeWhile.symm
  have hblank : Blank (s.dropWhile isspace) := by
    intro b hb
    rw [hsplit] at hb
    rcases List.mem_append.1 hb with hb | hb
    · exact h b hb
    · exact List.mem_rtakeWhile_imp hb
  rw [← dropWhile_eq_nil_iff_blank, List.dropWhile_idempotent] at hblank
  exact dropWhile_eq_nil_iff_blank.1 hblank

theorem mem_of_mem_trim {b : UInt8} (h : b ∈ trim s) : b ∈ s :=
  (List.dropWhile_sublist isspace).subset ((List.rdropWhile_prefix isspace _).subset h)

theorem length_trim_le : (trim s).length ≤ s.length :=
  Nat.le_trans (List.rdropWhile_prefix isspace _).length_le (List.length_dropWhile_le isspace s)

/-! ## Numerals -/

def isdigit (b : UInt8) : Bool := 48 ≤ b && b ≤ 57

/-- The number the digits at the front of `s` make, if there are any. -/
def digits (s : List UInt8) : Option Nat :=
  let ds := s.takeWhile isdigit
  if ds = [] then none else some (ds.foldl (fun n b => 10 * n + (b.toNat - 48)) 0)

/-- `%d`: white space, a sign and digits. -/
def scanInt (s : List UInt8) : Option Int :=
  match s.dropWhile isspace with
  | [] => none
  | b :: rest =>
      if b = ch '-' then (digits rest).map fun n => -(n : Int)
      else if b = ch '+' then (digits rest).map fun n => (n : Int)
      else (digits (b :: rest)).map fun n => (n : Int)

theorem isdigit_of_isspace {b : UInt8} (h : isspace b) : isdigit b = false := by
  have hlt : b < 48 := by
    simp only [isspace, Bool.or_eq_true, Bool.and_eq_true, decide_eq_true_eq] at h
    rw [UInt8.lt_iff_toNat_lt]
    rcases h with rfl | ⟨-, h⟩
    · decide
    · rw [UInt8.le_iff_toNat_le] at h
      exact Nat.lt_of_le_of_lt h (by decide)
  rw [isdigit, Bool.and_eq_false_iff]
  left
  simpa [UInt8.not_le] using hlt

theorem digits_append_blank (h : Blank t) : digits (s ++ t) = digits s := by
  have ht : t.takeWhile isdigit = [] := by
    cases t with
    | nil => rfl
    | cons b t =>
        have hb := isdigit_of_isspace (h b List.mem_cons_self)
        rw [List.takeWhile_cons_of_neg (by rw [hb]; exact Bool.false_ne_true)]
  have hds : (s ++ t).takeWhile isdigit = s.takeWhile isdigit := by
    rw [List.takeWhile_append, ht, List.append_nil]
    split
    · next hall => exact ((List.takeWhile_prefix isdigit).eq_of_length hall).symm
    · rfl
  rw [digits, digits, hds]

theorem scanInt_append_blank (h : Blank t) : scanInt (s ++ t) = scanInt s := by
  rw [scanInt, scanInt, List.dropWhile_append]
  cases hd : s.dropWhile isspace with
  | nil => rw [dropWhile_eq_nil_iff_blank.2 h]; rfl
  | cons b rest =>
      rw [if_neg (by simp), List.cons_append]
      simp only [digits_append_blank h, ← List.cons_append]

/-- A number is read the same with the white space around it gone. -/
theorem scanInt_trim : scanInt (trim s) = scanInt s := by
  have hsplit : s.dropWhile isspace = trim s ++ (s.dropWhile isspace).rtakeWhile isspace :=
    List.rdropWhile_append_rtakeWhile.symm
  have hblank : Blank ((s.dropWhile isspace).rtakeWhile isspace) := fun b hb =>
    List.mem_rtakeWhile_imp hb
  calc scanInt (trim s) = scanInt (trim s ++ (s.dropWhile isspace).rtakeWhile isspace) :=
        (scanInt_append_blank hblank).symm
    _ = scanInt (s.dropWhile isspace) := by rw [← hsplit]
    _ = scanInt s := by rw [scanInt, scanInt, List.dropWhile_idempotent]

/-! ## Lines -/

def newline : UInt8 := 10

/-- The first line of a file, its newline included. -/
def firstLine (file : List UInt8) : List UInt8 :=
  file.takeWhile (fun b => b ≠ newline) ++ (file.dropWhile fun b => b ≠ newline).take 1

/-- One call of `fgets` with room for `n` bytes and a zero: what it stores, and
what is left of the file. -/
def fgets (n : Nat) (file : List UInt8) : List UInt8 × List UInt8 :=
  let line := (firstLine file).take n
  (line, file.drop line.length)

/-- What the calls of `fgets` store, to the end of the file; there are at most
`fuel` calls. -/
def fgetsAll (n : Nat) : Nat → List UInt8 → List (List UInt8)
  | 0, _ => []
  | fuel + 1, file =>
      if file = [] then []
      else (fgets n file).1 :: fgetsAll n fuel (fgets n file).2

/-- The lines of a file. -/
def lines : List UInt8 → List (List UInt8)
  | [] => []
  | b :: file =>
      if b = newline then [b] :: lines file
      else match lines file with
        | [] => [[b]]
        | line :: rest => (b :: line) :: rest

theorem flatten_lines (file : List UInt8) : (lines file).flatten = file := by
  induction file with
  | nil => rfl
  | cons b file ih =>
      rw [lines]
      split
      · rw [List.flatten_cons, ih, List.singleton_append]
      · cases hl : lines file with
        | nil =>
            rw [hl] at ih
            rw [← ih]
            rfl
        | cons line rest =>
            rw [hl] at ih
            rw [← ih]
            rfl

theorem mem_of_mem_lines {b : UInt8} {file line : List UInt8} (h : line ∈ lines file)
    (hb : b ∈ line) : b ∈ file := by
  rw [← flatten_lines file]
  exact List.mem_flatten_of_mem h hb

/-- A line in pieces of at most `n` bytes. -/
def pieces (n : Nat) (line : List UInt8) : List (List UInt8) :=
  if n = 0 ∨ line.length ≤ n then [line]
  else line.take n :: pieces n (line.drop n)
termination_by line.length
decreasing_by
  rw [List.length_drop]
  omega

theorem pieces_of_le {line : List UInt8} (h : line.length ≤ n) : pieces n line = [line] := by
  rw [pieces, if_pos (Or.inr h)]

theorem pieces_of_lt {line : List UInt8} (hn : 0 < n) (h : n < line.length) :
    pieces n line = line.take n :: pieces n (line.drop n) := by
  rw [pieces, if_neg (by omega)]

theorem firstLine_cons (b : UInt8) (file : List UInt8) :
    firstLine (b :: file) = b :: if b = newline then [] else firstLine file := by
  by_cases h : b = newline <;> simp [firstLine, h]

theorem lines_eq {file : List UInt8} (h : file ≠ []) :
    lines file = firstLine file :: lines (file.drop (firstLine file).length) := by
  induction file with
  | nil => exact absurd rfl h
  | cons b file ih =>
      rw [firstLine_cons, lines]
      by_cases hb : b = newline
      · rw [if_pos hb, if_pos hb]
        rfl
      · rw [if_neg hb, if_neg hb]
        cases file with
        | nil => rfl
        | cons c file => rw [ih (List.cons_ne_nil c file)]; rfl

theorem firstLine_ne_nil {file : List UInt8} (h : file ≠ []) : firstLine file ≠ [] := by
  cases file with
  | nil => exact absurd rfl h
  | cons b file => rw [firstLine_cons]; exact List.cons_ne_nil _ _

/-- Past some bytes of the first line, the first line is what is left of
it. -/
theorem firstLine_drop {file : List UInt8} (h : n < (firstLine file).length) :
    firstLine (file.drop n) = (firstLine file).drop n := by
  induction file generalizing n with
  | nil => simp [firstLine] at h
  | cons b file ih =>
      cases n with
      | zero => rfl
      | succ n =>
          rw [firstLine_cons] at h ⊢
          by_cases hb : b = newline
          · simp [hb] at h
          · rw [if_neg hb, List.length_cons, Nat.add_lt_add_iff_right] at h
            rw [if_neg hb, List.drop_succ_cons, List.drop_succ_cons, ih h]

/-- One call after another, `fgets` delivers the pieces of the lines. -/
theorem fgetsAll_eq (hn : 0 < n) {fuel : Nat} {file : List UInt8} (h : file.length ≤ fuel) :
    fgetsAll n fuel file = (lines file).flatMap (pieces n) := by
  induction fuel generalizing file with
  | zero =>
      rw [List.eq_nil_of_length_eq_zero (Nat.le_zero.1 h)]
      rfl
  | succ fuel ih =>
      by_cases hnil : file = []
      · rw [fgetsAll, if_pos hnil, hnil]
        rfl
      have hpos : 0 < (firstLine file).length := List.length_pos_iff.2 (firstLine_ne_nil hnil)
      have hfile : 0 < file.length := List.length_pos_iff.2 hnil
      have hrest : (fgets n file).2.length ≤ fuel := by
        simp only [fgets, List.length_drop, List.length_take]
        omega
      rw [fgetsAll, if_neg hnil, ih hrest, lines_eq hnil, List.flatMap_cons]
      by_cases hlen : (firstLine file).length ≤ n
      · rw [pieces_of_le hlen]
        simp only [fgets, List.take_of_length_le hlen, List.singleton_append]
      · -- the line goes on
        have hlt : n < (firstLine file).length := Nat.lt_of_not_le hlen
        have htake : ((firstLine file).take n).length = n := by
          rw [List.length_take]
          omega
        have hdrop : firstLine (file.drop n) = (firstLine file).drop n := firstLine_drop hlt
        have hne : file.drop n ≠ [] := by
          intro hnil'
          rw [hnil', firstLine] at hdrop
          have := congrArg List.length hdrop
          rw [List.length_drop] at this
          simp at this
          omega
        rw [pieces_of_lt hn hlt]
        simp only [fgets, htake]
        rw [lines_eq hne, hdrop, List.flatMap_cons, List.length_drop, List.drop_drop,
          Nat.add_sub_cancel' (Nat.le_of_lt hlt), List.cons_append]

/-- What `fgets` stores fits where it is told to store it. -/
theorem length_of_fgetsAll {fuel : Nat} {file piece : List UInt8}
    (h : piece ∈ fgetsAll n fuel file) : piece.length ≤ n := by
  induction fuel generalizing file with
  | zero => cases h
  | succ fuel ih =>
      rw [fgetsAll] at h
      split at h
      · cases h
      · rcases List.mem_cons.1 h with rfl | h
        · exact List.length_take_le n _
        · exact ih h

theorem newline_not_mem_dropLast {file line : List UInt8} (h : line ∈ lines file) :
    newline ∉ line.dropLast := by
  induction file generalizing line with
  | nil => cases h
  | cons b file ih =>
      rw [lines] at h
      by_cases hb : b = newline
      · rw [if_pos hb] at h
        rcases List.mem_cons.1 h with rfl | h
        · exact List.not_mem_nil
        · exact ih h
      · rw [if_neg hb] at h
        cases hl : lines file with
        | nil =>
            rw [hl] at h
            rw [List.mem_singleton.1 h]
            exact List.not_mem_nil
        | cons first rest =>
            rw [hl] at h
            rcases List.mem_cons.1 h with rfl | h
            · have hfirst : newline ∉ first.dropLast := ih (by rw [hl]; exact List.mem_cons_self)
              cases first with
              | nil => exact List.not_mem_nil
              | cons c first =>
                  rw [List.dropLast_cons_cons, List.mem_cons, not_or]
                  exact ⟨Ne.symm hb, hfirst⟩
            · exact ih (by rw [hl]; exact List.mem_cons_of_mem first h)

theorem not_mem_dropLast_of_isInfix {b : UInt8} (hpart : s <:+: t) (h : b ∉ t.dropLast) :
    b ∉ s.dropLast := by
  obtain ⟨l, r, rfl⟩ := hpart
  intro hb
  have hne : s ≠ [] := by
    rintro rfl
    cases hb
  refine h ?_
  by_cases hr : r = []
  · rw [hr, List.append_nil, List.dropLast_append_of_ne_nil hne]
    exact List.mem_append_right l hb
  · rw [List.dropLast_append_of_ne_nil hr]
    exact List.mem_append_left _ (List.mem_append_right l (List.dropLast_subset s hb))

theorem lines_of_line {line : List UInt8} (hne : line ≠ []) (h : newline ∉ line.dropLast) :
    lines line = [line] := by
  induction line with
  | nil => exact absurd rfl hne
  | cons b line ih =>
      cases line with
      | nil => rw [lines]; split <;> rfl
      | cons c line =>
          rw [List.dropLast_cons_cons, List.mem_cons, not_or] at h
          rw [lines, if_neg (Ne.symm h.1), ih (List.cons_ne_nil c line) h.2]

theorem trim_takeWhile_newline (h : newline ∉ s.dropLast) :
    trim (s.takeWhile fun b => b ≠ newline) = trim s := by
  rcases List.eq_nil_or_concat s with rfl | ⟨s, b, hs⟩
  · rfl
  · rw [List.concat_eq_append] at hs
    subst hs
    rw [List.dropLast_concat] at h
    have hne : ∀ c ∈ s, decide (c ≠ newline) = true := by
      intro c hc
      simpa using fun hnl : c = newline => h (hnl ▸ hc)
    rw [List.takeWhile_append_of_pos hne]
    by_cases hb : b = newline
    · subst hb
      rw [List.takeWhile_cons_of_neg (by simp), List.append_nil]
      exact (trim_append_blank fun c hc => by rw [List.mem_singleton.1 hc]; decide).symm
    · rw [List.takeWhile_cons_of_pos (by simpa using hb), List.takeWhile_nil]

theorem piece_isInfix {piece line : List UInt8} (h : piece ∈ pieces n line) :
    piece <:+: line := by
  induction line using pieces.induct (n := n) with
  | case1 line hle =>
      rw [pieces, if_pos hle] at h
      cases List.mem_singleton.1 h
      exact List.infix_rfl
  | case2 line hlt ih =>
      rw [pieces, if_neg hlt] at h
      rcases List.mem_cons.1 h with rfl | h
      · exact (List.take_prefix n line).isInfix
      · exact (ih h).trans (List.drop_suffix n line).isInfix

theorem fgetsAll_of_le (hn : 0 < n) {fuel : Nat} {file : List UInt8} (h : file.length ≤ fuel)
    (hfit : ∀ line ∈ lines file, line.length ≤ n) : fgetsAll n fuel file = lines file := by
  rw [fgetsAll_eq hn h]
  generalize lines file = ls at hfit
  induction ls with
  | nil => rfl
  | cons line ls ih =>
      rw [List.flatMap_cons, pieces_of_le (hfit line List.mem_cons_self),
        ih fun l hl => hfit l (List.mem_cons_of_mem line hl)]
      rfl

end CString
