import IotCamera.Lib.Run
import IotCamera.Proofs.ProfileBuffer

/-!
# Lines that do not fit the buffer

`fgets` has room for 99 bytes, and what is left of a longer line is the next
line to the loop. The value of the key is then cut where the buffer ends, and
the rest of the line is looked at as if it stood alone: it may open a section,
end it, be a comment or assign to a key.

The loop is read here as a machine whose state is `found` and whose labels are
the pieces, each marked if it comes from the middle of a line. That no such
piece is taken for anything is a condition on the runs of this machine. What
it comes to is a condition on the lines, and with it the lookup among the
pieces is the lookup among the lines as they are in the buffer, each cut after
99 bytes. Whether the value is whole is then a question about two files, the
one there is and the one with its lines cut.
-/

namespace IotCamera

open CString Lts

namespace Profile

variable {ptr : Nat} {AppName KeyName line p : List UInt8} {file : List UInt8}
  {ls : List (List UInt8)}

/-! ## Lines and their pieces -/

/-- What the loop sees of a line first. -/
def first (line : List UInt8) : List UInt8 := text (line.take 99)

/-- What it sees of the line after that. -/
def middle (line : List UInt8) : List (List UInt8) := readLines (line.drop 99)

def allPieces (ls : List (List UInt8)) : List (List UInt8) :=
  ls.flatMap fun line => first line :: middle line

/-- The same, with a mark on those from the middle of a line. -/
def marked (ls : List (List UInt8)) : List (Bool × List UInt8) :=
  ls.flatMap fun line => (false, first line) :: (middle line).map fun p => (true, p)

theorem allPieces_cons (line : List UInt8) (ls : List (List UInt8)) :
    allPieces (line :: ls) = first line :: (middle line ++ allPieces ls) := by
  rw [allPieces, List.flatMap_cons, List.cons_append, ← allPieces]

theorem marked_cons (line : List UInt8) (ls : List (List UInt8)) :
    marked (line :: ls) =
      (false, first line) :: ((middle line).map (fun p => (true, p)) ++ marked ls) := by
  rw [marked, List.flatMap_cons, List.cons_append, ← marked]

theorem map_pieces (h : line ∈ lines file) :
    (pieces 99 line).map text = first line :: middle line := by
  rw [first, middle]
  by_cases hlen : line.length ≤ 99
  · rw [pieces_of_le hlen, List.take_of_length_le hlen, List.drop_eq_nil_of_le hlen]
    rfl
  · have hlt : 99 < line.length := Nat.lt_of_not_le hlen
    have hdrop : line.drop 99 ≠ [] := by
      rw [Ne, List.drop_eq_nil_iff]
      exact hlen
    have hlast : newline ∉ (line.drop 99).dropLast :=
      not_mem_dropLast_of_isInfix (List.drop_suffix 99 line).isInfix (newline_not_mem_dropLast h)
    rw [pieces_of_lt (by decide) hlt, readLines_eq, lines_of_line hdrop hlast,
      List.flatMap_singleton, List.map_cons]

theorem readLines_pieces (file : List UInt8) : readLines file = allPieces (lines file) := by
  rw [readLines_eq, List.map_flatMap, allPieces]
  exact List.flatMap_congr fun line h => map_pieces h

theorem marked_lines (file : List UInt8) :
    (marked (lines file)).map Prod.snd = readLines file := by
  rw [readLines_pieces, marked, allPieces, List.map_flatMap]
  refine List.flatMap_congr fun line _ => ?_
  rw [List.map_cons, List.map_map]
  exact congrArg (first line :: ·) (List.map_id _)

/-! ## The loop as a machine -/

/-- One turn of the loop: the next value of `found`, unless the loop ends
here. -/
def turn (AppName KeyName : List UInt8) (found : Nat) (p : Bool × List UInt8) : Option Nat :=
  match look (header AppName) KeyName found (left p.2) with
  | some (.next found) => some found
  | _ => none

theorem look_nil (found : Nat) :
    look (header AppName) KeyName found [] = some (.next found) := by
  by_cases h : found = 0
  · rw [look, if_pos h, if_pos (by simp)]
  · rw [look, if_neg h, if_neg (by simp), if_neg (by simp), List.dropWhile_nil]

/-- The machine runs as the loop does. -/
theorem scan_of_run {found f : Nat} {ps : List (Bool × List UInt8)} {pre rest : List (List UInt8)}
    (h : Run (turn AppName KeyName) found ps f) (htext : ps.map Prod.snd = pre.map text)
    (KeyVal : List UInt8) :
    scan ptr (header AppName) KeyName KeyVal found (pre ++ rest) =
      scan ptr (header AppName) KeyName KeyVal f rest := by
  induction ps generalizing found pre with
  | nil =>
      cases pre with
      | nil =>
          cases run_nil.1 h
          rfl
      | cons l pre => cases htext
  | cons p ps ih =>
      cases pre with
      | nil => cases htext
      | cons l pre =>
          obtain ⟨next, hnext, hrun⟩ := run_cons.1 h
          rw [List.map_cons, List.map_cons, List.cons.injEq] at htext
          have hlook : look (header AppName) KeyName found (left (text l)) = some (.next next) := by
            rw [← htext.1]
            rw [turn] at hnext
            split at hnext
            · next hlook =>
                cases hnext
                exact hlook
            · cases hnext
          have hblank : left (text l) = [] → next = found := by
            intro hnil
            rw [hnil, look_nil] at hlook
            cases hlook
            rfl
          rw [List.cons_append, scan_next hlook hblank, ih hrun htext.2]

/-- What the loop takes a piece for: before the section, for its header; in
it, for a header, a comment or an assignment. -/
def Taken (AppName : List UInt8) (found : Nat) (p : List UInt8) : Prop :=
  if found = 0 then Opens AppName p
  else IsHeader p ∨ (left p).head? = some (ch '#') ∨ ch '=' ∈ p

instance (found : Nat) : DecidablePred (Taken AppName found) := fun p =>
  inferInstanceAs (Decidable (if found = 0 then Opens AppName p
    else IsHeader p ∨ (left p).head? = some (ch '#') ∨ ch '=' ∈ p))

/-- The loop looks at the piece and stays in its buffers, and if the piece is
from the middle of a line it is not taken for anything. -/
def Plain (AppName KeyName : List UInt8) (found : Nat) (p : Bool × List UInt8) : Prop :=
  (look (header AppName) KeyName found (left p.2)).isSome ∧
    (p.1 = true → ¬ Taken AppName found p.2)

theorem isSome_look_zero : (look (header AppName) KeyName 0 (left p)).isSome := by
  by_cases h : Opens AppName p
  · rw [look_zero_of_opens h]
    rfl
  · rw [look_zero_of_not_opens h]
    rfl

/-- In the section it is only a key that can be too long. -/
theorem isSome_look_one (hheader : ¬ IsHeader p) :
    (look (header AppName) KeyName 1 (left p)).isSome ↔
      (HasKey p → (keyToken p).length < 32) := by
  by_cases h : HasKey p
  · rw [look_one_of_key h hheader]
    split
    · next hlen => exact iff_of_true rfl fun _ => hlen
    · next hlen => exact iff_of_false Bool.false_ne_true fun hfit => hlen (hfit h)
  · rw [look_one_of_no_key h hheader]
    exact iff_of_true rfl fun hkey => absurd hkey h

theorem turn_zero (b : Bool) :
    turn AppName KeyName 0 (b, p) = some (if Opens AppName p then 1 else 0) := by
  rw [turn]
  by_cases h : Opens AppName p
  · rw [look_zero_of_opens h, if_pos h]
  · rw [look_zero_of_not_opens h, if_neg h]

theorem turn_one (b : Bool) (hheader : ¬ IsHeader p) (hassign : ¬ Assigns KeyName p)
    (hkey : HasKey p → (keyToken p).length < 32) :
    turn AppName KeyName 1 (b, p) = some 1 := by
  rw [turn]
  by_cases h : HasKey p
  · rw [look_one_of_key h hheader, if_pos (hkey h), if_neg fun htoken => hassign ⟨h, htoken⟩]
  · rw [look_one_of_no_key h hheader]

theorem turn_one_end (b : Bool) (h : IsHeader p ∨ Assigns KeyName p) :
    turn AppName KeyName 1 (b, p) = none := by
  rw [turn]
  by_cases hheader : IsHeader p
  · rw [look_one_of_header hheader]
  · have hassign : Assigns KeyName p := h.resolve_left hheader
    rw [look_one_of_key hassign.1 hheader, if_pos hassign.2]
    split
    · next heq =>
        split at heq <;> simp at heq
    · rfl

theorem not_taken_one (h : ¬ Taken AppName 1 p) : ¬ IsHeader p ∧ ¬ HasKey p := by
  rw [Taken, if_neg (by decide), not_or, not_or] at h
  exact ⟨h.1, fun hkey => h.2.2 hkey.2⟩

/-- The middle of a line, read in a state in which it is not taken for
anything. -/
theorem meets_middle {found : Nat} (hfound : found = 0 ∨ found = 1)
    (ps : List (List UInt8)) (rest : List (Bool × List UInt8)) :
    Meets (Plain AppName KeyName) (turn AppName KeyName) found
        ((ps.map fun p => (true, p)) ++ rest) ↔
      (∀ p ∈ ps, ¬ Taken AppName found p) ∧
        Meets (Plain AppName KeyName) (turn AppName KeyName) found rest := by
  induction ps with
  | nil => simp
  | cons p ps ih =>
      rw [List.map_cons, List.cons_append, meets_cons, List.forall_mem_cons, and_assoc, ← ih]
      have hlook : ¬ Taken AppName found p →
          (look (header AppName) KeyName found (left p)).isSome := by
        intro hp
        rcases hfound with rfl | rfl
        · exact isSome_look_zero
        · obtain ⟨hheader, hkey⟩ := not_taken_one hp
          exact (isSome_look_one hheader).2 fun h => absurd h hkey
      have hmark : Plain AppName KeyName found (true, p) ↔ ¬ Taken AppName found p :=
        ⟨fun h => h.2 rfl, fun h => ⟨hlook h, fun _ => h⟩⟩
      rw [hmark]
      refine and_congr_right fun hp => ?_
      have hturn : turn AppName KeyName found (true, p) = some found := by
        rcases hfound with rfl | rfl
        · rw [Taken, if_pos rfl] at hp
          rw [turn_zero, if_neg hp]
        · obtain ⟨hheader, hkey⟩ := not_taken_one hp
          exact turn_one true hheader (fun h => hkey h.1) fun h => absurd h hkey
      rw [hturn]
      simp

/-! ## Inside the section -/

/-- The line ends the loop. -/
def Ends (KeyName line : List UInt8) : Prop := IsHeader line ∨ Assigns KeyName line

instance : DecidablePred (Ends KeyName) := fun line =>
  inferInstanceAs (Decidable (IsHeader line ∨ Assigns KeyName line))

/-- The lines up to the next header. -/
def inSection (ls : List (List UInt8)) : List (List UInt8) :=
  ls.takeWhile fun line => ¬ IsHeader line

/-- The first assignment up to the next header. -/
def assignmentIn (KeyName : List UInt8) (ls : List (List UInt8)) : Option (List UInt8) :=
  (inSection ls).find? fun line => Assigns KeyName line

theorem inSection_cons (h : ¬ IsHeader line) : inSection (line :: ls) = line :: inSection ls := by
  rw [inSection, List.takeWhile_cons_of_pos (by simpa using h), inSection]

theorem inSection_header (h : IsHeader line) : inSection (line :: ls) = [] := by
  rw [inSection, List.takeWhile_cons_of_neg (by simpa using h)]

theorem assignmentIn_skip (hheader : ¬ IsHeader line) (h : ¬ Assigns KeyName line) :
    assignmentIn KeyName (line :: ls) = assignmentIn KeyName ls := by
  rw [assignmentIn, inSection_cons hheader, List.find?_cons_of_neg (by simpa using h),
    assignmentIn]

theorem assignmentIn_found (hheader : ¬ IsHeader line) (h : Assigns KeyName line) :
    assignmentIn KeyName (line :: ls) = some line := by
  rw [assignmentIn, inSection_cons hheader, List.find?_cons_of_pos (by simpa using h)]

theorem assignmentIn_header (h : IsHeader line) : assignmentIn KeyName (line :: ls) = none := by
  rw [assignmentIn, inSection_header h]
  rfl

theorem skip_middle (KeyName : List UInt8) (ls : List (List UInt8)) {ps : List (List UInt8)}
    (h : ∀ p ∈ ps, ¬ Taken AppName 1 p) :
    assignmentIn KeyName (ps ++ ls) = assignmentIn KeyName ls ∧
      (KeysFit KeyName (inSection (ps ++ ls)) ↔ KeysFit KeyName (inSection ls)) := by
  induction ps with
  | nil => exact ⟨rfl, Iff.rfl⟩
  | cons p ps ih =>
      rw [List.forall_mem_cons] at h
      obtain ⟨hheader, hkey⟩ := not_taken_one h.1
      have hassign : ¬ Assigns KeyName p := fun ha => hkey ha.1
      obtain ⟨hlookup, hfit⟩ := ih h.2
      rw [List.cons_append]
      constructor
      · rw [assignmentIn_skip hheader hassign, hlookup]
      · rw [inSection_cons hheader, keysFit_cons hassign, hfit]
        exact and_iff_right fun hk => absurd hk hkey

/-- The lines up to the first that shows in its first piece that it ends the
loop. -/
def passedOver (KeyName : List UInt8) (ls : List (List UInt8)) : List (List UInt8) :=
  ls.takeWhile fun line => ¬ Ends KeyName (first line)

theorem passedOver_cons (h : ¬ Ends KeyName (first line)) :
    passedOver KeyName (line :: ls) = line :: passedOver KeyName ls := by
  rw [passedOver, List.takeWhile_cons_of_pos (by simpa using h), passedOver]

theorem passedOver_ends (h : Ends KeyName (first line)) :
    passedOver KeyName (line :: ls) = [] := by
  rw [passedOver, List.takeWhile_cons_of_neg (by simpa using h)]

/-- In the section: the run stays in its buffers and takes no middle for
anything exactly if the keys of the first pieces fit, and the middles of the
lines that are passed over are not taken for anything. -/
theorem meets_inside (ls : List (List UInt8)) :
    Meets (Plain AppName KeyName) (turn AppName KeyName) 1 (marked ls) ↔
      KeysFit KeyName (inSection (ls.map first)) ∧
        ∀ line ∈ passedOver KeyName ls, ∀ p ∈ middle line, ¬ Taken AppName 1 p := by
  induction ls with
  | nil => exact iff_of_true Meets.nil ⟨keysFit_nil, by simp [passedOver]⟩
  | cons line ls ih =>
      rw [marked_cons, meets_cons, List.map_cons]
      have hplain : Plain AppName KeyName 1 (false, first line) ↔
          (look (header AppName) KeyName 1 (left (first line))).isSome :=
        and_iff_left fun h => by cases h
      rw [hplain]
      by_cases hheader : IsHeader (first line)
      · rw [turn_one_end false (.inl hheader), look_one_of_header hheader,
          inSection_header hheader, passedOver_ends (.inl hheader)]
        exact iff_of_true ⟨rfl, fun t ht => by cases ht⟩ ⟨keysFit_nil, by simp⟩
      rw [isSome_look_one hheader, inSection_cons hheader]
      by_cases hassign : Assigns KeyName (first line)
      · rw [turn_one_end false (.inr hassign), keysFit_cons_of_assigns hassign,
          passedOver_ends (.inr hassign), hassign.2]
        simp [hassign.1]
      · have hends : ¬ Ends KeyName (first line) := not_or.2 ⟨hheader, hassign⟩
        rw [keysFit_cons hassign, passedOver_cons hends, List.forall_mem_cons, and_assoc]
        refine and_congr_right fun hkey => ?_
        have hnext : (∀ t, turn AppName KeyName 1 (false, first line) = some t →
              Meets (Plain AppName KeyName) (turn AppName KeyName) t
                ((middle line).map (fun p => (true, p)) ++ marked ls)) ↔
            Meets (Plain AppName KeyName) (turn AppName KeyName) 1
              ((middle line).map (fun p => (true, p)) ++ marked ls) := by
          rw [turn_one false hheader hassign hkey]
          simp
        rw [hnext, meets_middle (Or.inr rfl), ih, and_left_comm]

/-- And then the loop finds in the pieces what there is in the first ones. -/
theorem lookup_inside
    (hquiet : ∀ line ∈ passedOver KeyName ls, ∀ p ∈ middle line, ¬ Taken AppName 1 p) :
    assignmentIn KeyName (allPieces ls) = assignmentIn KeyName (ls.map first) ∧
      (KeysFit KeyName (inSection (allPieces ls)) ↔
        KeysFit KeyName (inSection (ls.map first))) := by
  induction ls with
  | nil => exact ⟨rfl, Iff.rfl⟩
  | cons line ls ih =>
      rw [allPieces_cons, List.map_cons]
      by_cases hheader : IsHeader (first line)
      · rw [assignmentIn_header hheader, assignmentIn_header hheader, inSection_header hheader,
          inSection_header hheader]
        exact ⟨rfl, Iff.rfl⟩
      rw [inSection_cons hheader, inSection_cons hheader]
      by_cases hassign : Assigns KeyName (first line)
      · rw [assignmentIn_found hheader hassign, assignmentIn_found hheader hassign,
          keysFit_cons_of_assigns hassign, keysFit_cons_of_assigns hassign]
        exact ⟨rfl, Iff.rfl⟩
      · have hends : ¬ Ends KeyName (first line) := not_or.2 ⟨hheader, hassign⟩
        rw [passedOver_cons hends, List.forall_mem_cons] at hquiet
        obtain ⟨hskip, hskipFit⟩ := skip_middle KeyName (allPieces ls) hquiet.1
        obtain ⟨hlookup, hfit⟩ := ih hquiet.2
        rw [assignmentIn_skip hheader hassign, assignmentIn_skip hheader hassign, hskip, hlookup,
          keysFit_cons hassign, keysFit_cons hassign, hskipFit, hfit]
        exact ⟨rfl, Iff.rfl⟩

/-! ## Up to the section -/

/-- The lines after the one that opens the section. -/
def afterOpen (AppName : List UInt8) (ls : List (List UInt8)) : List (List UInt8) :=
  (ls.dropWhile fun line => ¬ Opens AppName line).drop 1

theorem sectionLines_eq : sectionLines AppName ls = inSection (afterOpen AppName ls) := rfl

theorem assignment_eq :
    assignment AppName KeyName ls = assignmentIn KeyName (afterOpen AppName ls) := rfl

theorem afterOpen_cons (h : ¬ Opens AppName line) :
    afterOpen AppName (line :: ls) = afterOpen AppName ls := by
  rw [afterOpen, List.dropWhile_cons_of_pos (by simpa using h), afterOpen]

theorem afterOpen_opens (h : Opens AppName line) : afterOpen AppName (line :: ls) = ls := by
  rw [afterOpen, List.dropWhile_cons_of_neg (by simpa using h), List.drop_one, List.tail_cons]

theorem afterOpen_middle {ps : List (List UInt8)} (h : ∀ p ∈ ps, ¬ Taken AppName 0 p) :
    afterOpen AppName (ps ++ ls) = afterOpen AppName ls := by
  induction ps with
  | nil => rfl
  | cons p ps ih =>
      rw [List.forall_mem_cons, Taken, if_pos rfl] at h
      rw [List.cons_append, afterOpen_cons h.1, ih h.2]

/-- The lines from the first on that opens the section in its first piece. -/
def fromOpener (AppName : List UInt8) (ls : List (List UInt8)) : List (List UInt8) :=
  ls.dropWhile fun line => ¬ Opens AppName (first line)

theorem fromOpener_cons (h : ¬ Opens AppName (first line)) :
    fromOpener AppName (line :: ls) = fromOpener AppName ls := by
  rw [fromOpener, List.dropWhile_cons_of_pos (by simpa using h), fromOpener]

theorem fromOpener_opens (h : Opens AppName (first line)) :
    fromOpener AppName (line :: ls) = line :: ls := by
  rw [fromOpener, List.dropWhile_cons_of_neg (by simpa using h)]

/-- The middles that are read are not taken for anything: those of the lines
before the section, of the line that opens it, and of the lines of it that are
passed over. -/
structure Quiet (AppName KeyName : List UInt8) (ls : List (List UInt8)) : Prop where
  before : ∀ line ∈ ls.takeWhile fun line => ¬ Opens AppName (first line),
    ∀ p ∈ middle line, ¬ Taken AppName 0 p
  opener : ∀ line ∈ (fromOpener AppName ls).head?, ∀ p ∈ middle line, ¬ Taken AppName 1 p
  passed : ∀ line ∈ passedOver KeyName ((fromOpener AppName ls).drop 1),
    ∀ p ∈ middle line, ¬ Taken AppName 1 p

theorem quiet_cons (h : ¬ Opens AppName (first line)) :
    Quiet AppName KeyName (line :: ls) ↔
      (∀ p ∈ middle line, ¬ Taken AppName 0 p) ∧ Quiet AppName KeyName ls := by
  constructor
  · rintro ⟨hbefore, hopener, hpassed⟩
    rw [List.takeWhile_cons_of_pos (by simpa using h), List.forall_mem_cons] at hbefore
    rw [fromOpener_cons h] at hopener hpassed
    exact ⟨hbefore.1, hbefore.2, hopener, hpassed⟩
  · rintro ⟨hmiddle, hbefore, hopener, hpassed⟩
    refine ⟨?_, ?_, ?_⟩
    · rw [List.takeWhile_cons_of_pos (by simpa using h), List.forall_mem_cons]
      exact ⟨hmiddle, hbefore⟩
    · rw [fromOpener_cons h]
      exact hopener
    · rw [fromOpener_cons h]
      exact hpassed

theorem quiet_opens (h : Opens AppName (first line)) :
    Quiet AppName KeyName (line :: ls) ↔
      (∀ p ∈ middle line, ¬ Taken AppName 1 p) ∧
        ∀ line ∈ passedOver KeyName ls, ∀ p ∈ middle line, ¬ Taken AppName 1 p := by
  constructor
  · rintro ⟨-, hopener, hpassed⟩
    rw [fromOpener_opens h] at hopener hpassed
    exact ⟨hopener line rfl, hpassed⟩
  · rintro ⟨hmiddle, hpassed⟩
    refine ⟨?_, ?_, ?_⟩
    · rw [List.takeWhile_cons_of_neg (by simpa using h)]
      simp
    · rw [fromOpener_opens h, List.head?_cons]
      intro l hl
      cases hl
      exact hmiddle
    · rw [fromOpener_opens h]
      exact hpassed

theorem meets_outside (ls : List (List UInt8)) :
    Meets (Plain AppName KeyName) (turn AppName KeyName) 0 (marked ls) ↔
      KeysFit KeyName (sectionLines AppName (ls.map first)) ∧ Quiet AppName KeyName ls := by
  induction ls with
  | nil =>
      refine iff_of_true Meets.nil ⟨keysFit_nil, by simp, by simp [fromOpener], ?_⟩
      simp [fromOpener, passedOver]
  | cons line ls ih =>
      have hplain : Plain AppName KeyName 0 (false, first line) :=
        ⟨isSome_look_zero, fun h => by cases h⟩
      rw [marked_cons, meets_cons, and_iff_right hplain, turn_zero, sectionLines_eq, List.map_cons]
      by_cases hopens : Opens AppName (first line)
      · rw [if_pos hopens, quiet_opens hopens, afterOpen_opens hopens, and_left_comm,
          ← meets_inside, ← meets_middle (Or.inr rfl)]
        simp
      · rw [if_neg hopens, quiet_cons hopens, afterOpen_cons hopens, ← sectionLines_eq,
          and_left_comm, ← ih, ← meets_middle (Or.inl rfl)]
        simp

theorem lookup_outside (hquiet : Quiet AppName KeyName ls) :
    assignment AppName KeyName (allPieces ls) = assignment AppName KeyName (ls.map first) ∧
      (KeysFit KeyName (sectionLines AppName (allPieces ls)) ↔
        KeysFit KeyName (sectionLines AppName (ls.map first))) := by
  induction ls with
  | nil => exact ⟨rfl, Iff.rfl⟩
  | cons line ls ih =>
      rw [assignment_eq, assignment_eq, sectionLines_eq, sectionLines_eq, allPieces_cons,
        List.map_cons]
      by_cases hopens : Opens AppName (first line)
      · obtain ⟨hmiddle, hpassed⟩ := (quiet_opens hopens).1 hquiet
        obtain ⟨hskip, hskipFit⟩ := skip_middle KeyName (allPieces ls) hmiddle
        obtain ⟨hlookup, hfit⟩ := lookup_inside hpassed
        rw [afterOpen_opens hopens, afterOpen_opens hopens, hskip, hlookup, hskipFit, hfit]
        exact ⟨rfl, Iff.rfl⟩
      · obtain ⟨hmiddle, hrest⟩ := (quiet_cons hopens).1 hquiet
        rw [afterOpen_cons hopens, afterOpen_cons hopens, afterOpen_middle hmiddle]
        exact ih hrest

/-! ## The value -/

theorem first_isPrefix : first line <+: line :=
  (List.takeWhile_prefix _).trans (List.take_prefix 99 line)

theorem valueText_mono {l : List UInt8} (h : l <+: line) : valueText l <+: valueText line := by
  obtain ⟨r, rfl⟩ := h
  rw [valueText, valueText, List.dropWhile_append]
  split
  · next hnil =>
      rw [List.isEmpty_iff.1 hnil]
      exact List.nil_prefix
  · next hne =>
      rw [List.isEmpty_iff] at hne
      obtain ⟨b, c, hbc⟩ := List.exists_cons_of_ne_nil hne
      rw [hbc]
      exact List.prefix_append c r

theorem upToNewline_mono {c d : List UInt8} (h : c <+: d) :
    upToNewline c <+: upToNewline d := by
  obtain ⟨r, rfl⟩ := h
  rw [upToNewline, upToNewline, List.takeWhile_append]
  split
  · next hall =>
      rw [(List.takeWhile_prefix _).eq_of_length hall]
      exact List.prefix_append c _
  · exact List.prefix_rfl

theorem blank_of_takeValue {n : Nat} {c buf : List UInt8} (hzero : 0 ∉ c)
    (hblank : Blank (upToNewline c)) (h : takeValue ptr c (List.replicate n 0) = some buf) :
    ∃ s, str buf = some s ∧ Blank s := by
  by_cases hnil : upToNewline c = []
  · rw [takeValue_of_nil hnil] at h
    obtain ⟨s, hs, h⟩ := Option.bind_eq_some_iff.1 h
    have hempty : Blank s := by
      cases n with
      | zero => simp [str] at hs
      | succ n =>
          rw [List.replicate_succ, str, if_pos List.mem_cons_self] at hs
          cases hs
          simp [Blank]
    by_cases hptr : ptr ≤ s.length + 1
    · rw [trimBack_of_blank hptr hempty, Option.some.injEq] at h
      exact ⟨s, h ▸ hs, hempty⟩
    · rw [trimBack_of_short hptr] at h
      cases h
  · have hptr := ptr_le_of_takeValue hzero hnil h
    rw [takeValue_of_ne_nil hzero hnil] at h
    obtain ⟨val, hval, h⟩ := Option.bind_eq_some_iff.1 h
    rw [trimBack_of_blank hptr hblank, Option.some.injEq] at h
    exact ⟨upToNewline c, h ▸ str_strcpy (zero_upToNewline hzero) hval, hblank⟩

/-- The value of the first assignment of the section, if it is not blank, is
stored whole. -/
def StoresWhole (ptr : Nat) (file AppName KeyName : List UInt8) : Prop :=
  ∀ line, assignment AppName KeyName (lines file) = some line → ¬ Blank (valueText line) →
    ∀ KeyVal, (upToNewline (valueText line)).length < KeyVal.length →
      ∃ buf, GetProfileString ptr (some file) AppName KeyName KeyVal = some (0, buf) ∧
        str buf = some (trim (valueText line))

/-- The loop stays in its buffers, and takes no text from the middle of a line
for a header, a comment or an assignment where it reads it. -/
def MiddlesPlain (file AppName KeyName : List UInt8) : Prop :=
  AppName.length ≤ 29 ∧
    Meets (Plain AppName KeyName) (turn AppName KeyName) 0 (marked (lines file))

/-- The lines of a file, each cut after its 99th byte. -/
def cutLines (file : List UInt8) : List (List UInt8) := (lines file).map first

/-- The value of the first assignment of the section is left by the cut: with
the lines cut, there is an assignment with the same trimmed value. It takes no
more room, and is at least a pointer long with its zero byte. -/
def Kept (ptr : Nat) (file AppName KeyName : List UInt8) : Prop :=
  ∀ line, assignment AppName KeyName (lines file) = some line → ¬ Blank (valueText line) →
    ∃ cut, assignment AppName KeyName (cutLines file) = some cut ∧
      trim (valueText cut) = trim (valueText line) ∧
      (upToNewline (valueText cut)).length ≤ (upToNewline (valueText line)).length ∧
      ptr ≤ (upToNewline (valueText cut)).length + 1

theorem middlesPlain_iff (file AppName KeyName : List UInt8) :
    MiddlesPlain file AppName KeyName ↔
      Fits AppName KeyName (cutLines file) ∧ Quiet AppName KeyName (lines file) := by
  rw [MiddlesPlain, meets_outside, ← and_assoc]
  rfl

/-- If the pieces are looked up as the cut lines are, the value is stored whole
exactly if the cut keeps it. -/
theorem storesWhole_iff (hfit : Fits AppName KeyName (readLines file))
    (hlookup : assignment AppName KeyName (readLines file) =
      assignment AppName KeyName (cutLines file)) :
    StoresWhole ptr file AppName KeyName ↔ Kept ptr file AppName KeyName := by
  refine forall_congr' fun line => forall_congr' fun hline => forall_congr' fun hblank => ?_
  constructor
  · intro h
    -- a buffer with just enough room
    obtain ⟨buf, hbuf, hstr⟩ := h
      (List.replicate ((upToNewline (valueText line)).length + 1) 0)
      (by rw [List.length_replicate]; exact Nat.lt_succ_self _)
    obtain ⟨-, piece, hpiece, htake⟩ := matched_of_zero hbuf
    have hzero := zero_of_matched hpiece
    have hb : ¬ Blank (upToNewline (valueText piece)) := by
      intro hb
      -- a blank value would be stored instead
      obtain ⟨s, hs, hsb⟩ := blank_of_takeValue hzero hb htake
      rw [hs, Option.some.injEq] at hstr
      exact hblank (blank_of_blank_trim (hstr ▸ hsb))
    have hlen := length_of_takeValue hzero hb htake
    rw [List.length_replicate] at hlen
    rw [str_of_takeValue hzero hb htake, Option.some.injEq] at hstr
    exact ⟨piece, hlookup ▸ hpiece, by rw [← hstr, trim_value (assignment_mem hpiece)],
      Nat.le_of_lt_succ hlen, ptr_le_of_takeValue hzero (ne_nil_of_not_blank hb) htake⟩
  · rintro ⟨piece, hpiece, hsame, hroom, hptr⟩ KeyVal hlen
    have hb : ¬ Blank (valueText piece) := by
      rw [← trim_eq_nil, hsame, trim_eq_nil]
      exact hblank
    rw [← hsame]
    exact (stores_iff hfit (hlookup.trans hpiece) hb (Nat.lt_of_le_of_lt hroom hlen)).2 hptr

/-- `GetProfileString` stores whole values and takes no text from the middle of
a line for anything exactly if three things hold of the file. With its lines
cut after 99 bytes, the keys of the section fit their buffer; the middles of the
lines that are read look like nothing; and the cut keeps the value that is
looked for. -/
theorem line_length_independent_iff (ptr : Nat) (file AppName KeyName : List UInt8) :
    StoresWhole ptr file AppName KeyName ∧ MiddlesPlain file AppName KeyName ↔
      Fits AppName KeyName (cutLines file) ∧ Quiet AppName KeyName (lines file) ∧
        Kept ptr file AppName KeyName := by
  rw [middlesPlain_iff, and_comm, and_assoc]
  refine and_congr_right fun hfit => and_congr_right fun hquiet => ?_
  obtain ⟨hlookup, hkeys⟩ := lookup_outside hquiet
  rw [← readLines_pieces] at hlookup hkeys
  exact storesWhole_iff ⟨hfit.1, hkeys.2 hfit.2⟩ hlookup

/-! ## Lines that show what they are -/

/-- The first piece of the line is taken for what the line is. -/
structure Shows (AppName KeyName line : List UInt8) : Prop where
  opens : Opens AppName (first line) ↔ Opens AppName line
  header : IsHeader (first line) ↔ IsHeader line
  assigns : Assigns KeyName (first line) ↔ Assigns KeyName line

theorem assignmentIn_cut (h : ∀ line ∈ ls, Shows AppName KeyName line) :
    assignmentIn KeyName (ls.map first) = (assignmentIn KeyName ls).map first := by
  induction ls with
  | nil => rfl
  | cons line ls ih =>
      rw [List.forall_mem_cons] at h
      rw [List.map_cons]
      by_cases hheader : IsHeader line
      · rw [assignmentIn_header (h.1.header.2 hheader), assignmentIn_header hheader]
        rfl
      have hheader' : ¬ IsHeader (first line) := fun hh => hheader (h.1.header.1 hh)
      by_cases hassign : Assigns KeyName line
      · rw [assignmentIn_found hheader' (h.1.assigns.2 hassign),
          assignmentIn_found hheader hassign]
        rfl
      · rw [assignmentIn_skip hheader' fun ha => hassign (h.1.assigns.1 ha),
          assignmentIn_skip hheader hassign, ih h.2]

theorem assignment_cut (h : ∀ line ∈ ls, Shows AppName KeyName line) :
    assignment AppName KeyName (ls.map first) = (assignment AppName KeyName ls).map first := by
  induction ls with
  | nil => rfl
  | cons line ls ih =>
      rw [List.forall_mem_cons] at h
      rw [assignment_eq, assignment_eq, List.map_cons]
      by_cases hopens : Opens AppName line
      · rw [afterOpen_opens (h.1.opens.2 hopens), afterOpen_opens hopens, assignmentIn_cut h.2]
      · rw [afterOpen_cons fun ho => hopens (h.1.opens.1 ho), afterOpen_cons hopens,
          ← assignment_eq, ← assignment_eq, ih h.2]

/-- In a file of such lines the cut keeps the value exactly if it ends within
the first 99 bytes of its line, and is not too short for its block. -/
theorem kept_iff_of_shows (h : ∀ line ∈ lines file, Shows AppName KeyName line) :
    Kept ptr file AppName KeyName ↔
      ∀ line, assignment AppName KeyName (lines file) = some line → ¬ Blank (valueText line) →
        trim (valueText (first line)) = trim (valueText line) ∧
          ptr ≤ (upToNewline (valueText (first line))).length + 1 := by
  refine forall_congr' fun line => forall_congr' fun hline => forall_congr' fun _ => ?_
  have hcut : assignment AppName KeyName (cutLines file) = some (first line) := by
    rw [cutLines, assignment_cut h, hline, Option.map_some]
  have hroom := (upToNewline_mono (valueText_mono (@first_isPrefix line))).length_le
  rw [hcut]
  constructor
  · rintro ⟨cut, heq, hsame, -, hptr⟩
    cases heq
    exact ⟨hsame, hptr⟩
  · rintro ⟨hsame, hptr⟩
    exact ⟨first line, rfl, hsame, hroom, hptr⟩

/-- A comment that does not fit the buffer, and a key. -/
def longComment : List UInt8 :=
  bytes "# " ++ List.replicate 120 (ch '-') ++ bytes "\n[GENERAL]\nRTMPURL=rtmp://cam\n"

theorem longComment_skipped :
    StoresWhole 4 longComment (bytes "GENERAL") (bytes "RTMPURL") ∧
      MiddlesPlain longComment (bytes "GENERAL") (bytes "RTMPURL") := by
  have hshows : ∀ line ∈ lines longComment, Shows (bytes "GENERAL") (bytes "RTMPURL") line := by
    have hall : ∀ line ∈ lines longComment,
        (Opens (bytes "GENERAL") (first line) ↔ Opens (bytes "GENERAL") line) ∧
          (IsHeader (first line) ↔ IsHeader line) ∧
          (Assigns (bytes "RTMPURL") (first line) ↔ Assigns (bytes "RTMPURL") line) := by
      decide +kernel
    exact fun line hline => ⟨(hall line hline).1, (hall line hline).2.1, (hall line hline).2.2⟩
  refine (line_length_independent_iff 4 longComment (bytes "GENERAL") (bytes "RTMPURL")).2
    ⟨⟨by decide +kernel, by decide +kernel, by decide +kernel⟩,
      ⟨by decide +kernel, by decide +kernel, by decide +kernel⟩,
      (kept_iff_of_shows hshows).2 fun line hline _ => ?_⟩
  have hassign : assignment (bytes "GENERAL") (bytes "RTMPURL") (lines longComment) =
      some (bytes "RTMPURL=rtmp://cam\n") := by decide +kernel
  rw [hassign, Option.some.injEq] at hline
  rw [← hline]
  decide +kernel

/-- An address of 107 characters. -/
def longUrl : List UInt8 :=
  bytes "RTMPURL=rtmp://" ++ List.replicate 100 (ch 'a') ++ bytes "\n"

theorem longUrl_cut :
    ¬ StoresWhole 4 (bytes "[GENERAL]\n" ++ longUrl) (bytes "GENERAL") (bytes "RTMPURL") := by
  intro h
  obtain ⟨buf, hbuf, hstr⟩ := h longUrl (by decide +kernel) (by decide +kernel)
    (List.replicate 256 0) (by decide +kernel)
  have hcut : ((GetProfileString 4 (some (bytes "[GENERAL]\n" ++ longUrl)) (bytes "GENERAL")
      (bytes "RTMPURL") (List.replicate 256 0)).bind fun r => str r.2) ≠
      some (trim (valueText longUrl)) := by decide +kernel
  rw [hbuf] at hcut
  exact hcut hstr

end Profile

end IotCamera
