import IotCamera.Proofs.JsonParse
import IotCamera.Proofs.JsonTexts

/-!
# A text that is cut off

What is read of a text is decided by the text up to the end of what is read. A
text that is cut off behind that is read the same, and one that is cut off
before is not read; only a number may still be one, when it is cut off, and
then there is nothing behind it that could go on or close what it stands in.

The two texts are walked side by side. They agree up to the cut, where one of
them has its zero byte, and neither ever looks behind that.
-/

namespace IotCamera

open CString

variable {D : Type} {dbl : Doubles D} {α : Type} {value content cut rest t w : List UInt8}
  {p q n left : Nat}

/-! ## Up to the cut -/

/-- The first `n` bytes, and a zero byte. -/
structure CutAt (content cut : List UInt8) (n : Nat) : Prop where
  lt : n < content.length
  eq : cut = content.take n ++ [0]

namespace CutAt

theorem length_eq (h : CutAt content cut n) : cut.length = n + 1 := by
  rw [h.eq, List.length_append, List.length_take, Nat.min_eq_left (Nat.le_of_lt h.lt)]
  rfl

theorem getElem? (h : CutAt content cut n) (hp : p < n) : cut[p]? = content[p]? := by
  have hlen : (content.take n).length = n := List.length_take_of_le (Nat.le_of_lt h.lt)
  rw [h.eq, List.getElem?_append_left (by rwa [hlen]), List.getElem?_take_of_lt hp]

theorem zero (h : CutAt content cut n) : cut[n]? = some 0 := by
  have hlen : (content.take n).length = n := List.length_take_of_le (Nat.le_of_lt h.lt)
  rw [h.eq, List.getElem?_append_right (by rw [hlen]), hlen, Nat.sub_self]
  rfl

theorem drop (h : CutAt content cut n) (hp : p ≤ n) :
    cut.drop p = (content.drop p).take (n - p) ++ [0] := by
  have hlen : (content.take n).length = n := List.length_take_of_le (Nat.le_of_lt h.lt)
  rw [h.eq, List.drop_append_of_le_length (by rwa [hlen]), List.drop_take]

/-- White space is skipped to the same place, or up to the cut. -/
theorem skip (h : CutAt content cut n) (hp : p ≤ n) :
    buffer_skip_whitespace cut p = min (buffer_skip_whitespace content p) n := by
  have hlen := h.length_eq
  have hlt := h.lt
  have htake : ((content.drop p).take (n - p)).takeWhile (fun b => b ≤ 32) =
      ((content.drop p).takeWhile fun b => b ≤ 32).take (n - p) := List.take_takeWhile.symm
  have hle := (List.takeWhile_prefix (fun b : UInt8 => decide (b ≤ 32))
    (l := content.drop p)).length_le
  rw [List.length_drop] at hle
  have hspace : ((cut.drop p).takeWhile fun b => b ≤ 32).length =
      if n - p ≤ ((content.drop p).takeWhile fun b => b ≤ 32).length then n - p + 1
      else ((content.drop p).takeWhile fun b => b ≤ 32).length := by
    rw [h.drop hp, List.takeWhile_append, htake]
    simp only [List.length_take, List.length_drop]
    split
    · next hall =>
        rw [if_pos (by omega)]
        simp
        omega
    · next hall =>
        rw [if_neg (by omega)]
        simp only [List.length_take]
        omega
  rw [buffer_skip_whitespace, hspace, buffer_skip_whitespace]
  generalize ((content.drop p).takeWhile fun b => b ≤ 32).length = k at hle
  by_cases hcut : n - p ≤ k
  · rw [if_pos hcut, if_pos (by omega)]
    split <;> omega
  · rw [if_neg hcut, if_neg (by omega), if_neg (by omega)]
    omega

end CutAt

/-! ## Strings -/

theorem hexRounds_congr {rounds : Nat} : ∀ {h input : Nat},
    (∀ i < input + rounds, cut[i]? = content[i]?) →
    hexRounds cut h rounds input = hexRounds content h rounds input := by
  induction rounds with
  | zero => intro h input hagree; rfl
  | succ rounds ih =>
      intro h input hagree
      rw [hexRounds, hexRounds, hagree input (by omega)]
      cases content[input]? with
      | none => rfl
      | some b =>
          simp only [Option.bind_eq_bind, Option.bind_some]
          cases hexDigit b with
          | none => rfl
          | some d => exact ih fun i hi => hagree i (by omega)

theorem utf16_literal_congr {input_end : Nat} (hagree : ∀ i < input_end, cut[i]? = content[i]?) :
    utf16_literal_to_utf8 cut p input_end = utf16_literal_to_utf8 content p input_end := by
  have hhex : ∀ i, i + 4 ≤ input_end → parse_hex4 cut i = parse_hex4 content i := fun i hi =>
    hexRounds_congr fun k hk => hagree k (by omega)
  by_cases h6 : input_end - p < 6
  · simp only [utf16_literal_to_utf8, if_pos h6]
  by_cases h12 : input_end - (p + 6) < 6
  · simp only [utf16_literal_to_utf8, if_neg h6, if_pos h12, hhex (p + 2) (by omega)]
  · simp only [utf16_literal_to_utf8, if_neg h6, if_neg h12, hhex (p + 2) (by omega),
      hagree (p + 6) (by omega), hagree (p + 6 + 1) (by omega), hhex (p + 6 + 2) (by omega)]

theorem unescapeLoop_congr {size input_end fuel : Nat}
    (hagree : ∀ i ≤ input_end, cut[i]? = content[i]?) : ∀ {p : Nat} {output : List UInt8},
    unescapeLoop cut size input_end fuel p output =
      unescapeLoop content size input_end fuel p output := by
  induction fuel with
  | zero => intro p output; rfl
  | succ fuel ih =>
      intro p output
      rw [unescapeLoop, unescapeLoop]
      split
      · rfl
      · simp only [hagree p (by omega), hagree (p + 1) (by omega), ih,
          utf16_literal_congr fun i hi => hagree i (Nat.le_of_lt hi)]

/-- The quote is found where it was, or it has been cut off. -/
theorem closingQuote_cut {d k : Nat} (h : closingQuote t = some (d, k)) (m : Nat) :
    closingQuote (t.take m ++ [0]) = if d < m then some (d, k) else none := by
  have hzero : closingQuote [0] = none := rfl
  induction t using closingQuote.induct generalizing d k m with
  | case1 => cases h
  | case2 rest =>
      rw [closingQuote_quote] at h
      cases h
      cases m with
      | zero => exact hzero
      | succ m =>
          rw [List.take_succ_cons, List.cons_append, closingQuote_quote, if_pos (by omega)]
  | case3 hquote => cases h
  | case4 b rest hquote ih =>
      rw [closingQuote_slash] at h
      obtain ⟨⟨d', k'⟩, hrest, heq⟩ := Option.map_eq_some_iff.1 h
      cases heq
      cases m with
      | zero => exact hzero
      | succ m =>
          cases m with
          | zero => rfl
          | succ m =>
              rw [List.take_succ_cons, List.take_succ_cons, List.cons_append, List.cons_append,
                closingQuote_slash, ih hrest]
              by_cases hm : d' < m
              · rw [if_pos hm, if_pos (by omega)]
                rfl
              · rw [if_neg hm, if_neg (by omega)]
                rfl
  | case5 b rest hquote hslash ih =>
      rw [closingQuote_plain hquote hslash] at h
      obtain ⟨⟨d', k'⟩, hrest, heq⟩ := Option.map_eq_some_iff.1 h
      cases heq
      cases m with
      | zero => exact hzero
      | succ m =>
          rw [List.take_succ_cons, List.cons_append, closingQuote_plain hquote hslash, ih hrest]
          by_cases hm : d' < m
          · rw [if_pos hm, if_pos (by omega)]
            rfl
          · rw [if_neg hm, if_neg (by omega)]
            rfl

theorem parse_string_cut {s : List UInt8} (hcut : CutAt content cut n) (hp : p < n)
    (h : parse_string content p = some (.done s q)) :
    if q ≤ n then parse_string cut p = some (.done s q)
    else ∃ e, parse_string cut p = some (.failed e) := by
  rw [parse_string] at h ⊢
  rw [hcut.getElem? hp]
  cases hb : content[p]? with
  | none => rw [hb] at h; cases h
  | some b =>
      rw [hb] at h
      simp only [Option.bind_eq_bind, Option.bind_some] at h ⊢
      split at h
      · cases h
      next hquote =>
      rw [if_neg hquote, hcut.drop hp]
      cases hclose : closingQuote (content.drop (p + 1)) with
      | none => rw [hclose] at h; cases h
      | some dk =>
          obtain ⟨distance, skipped_bytes⟩ := dk
          rw [hclose] at h
          rw [closingQuote_cut hclose]
          simp only [Option.bind_eq_some_iff] at h
          obtain ⟨r, hloop, hr⟩ := h
          cases r with
          | failed e => cases hr
          | done output q' =>
              have hq : q = p + 1 + distance + 1 := by
                simp only [Option.bind_eq_some_iff] at hr
                obtain ⟨out, -, valuestring, -, heq⟩ := hr
                cases heq
                rfl
              by_cases hle : q ≤ n
              · have hagree : ∀ i ≤ p + 1 + distance, cut[i]? = content[i]? := fun i hi =>
                  hcut.getElem? (by omega)
                rw [if_pos hle, if_pos (by omega)]
                simp only [unescapeLoop_congr hagree, hloop, Option.bind_some]
                exact hr
              · rw [if_neg hle, if_neg (by omega)]
                exact ⟨_, rfl⟩

/-! ## What is cut off -/

/-- A parse that was not finished in front of the cut fails, or what it comes
to may go on, and then there is nothing that could close what it stands in. -/
def Lost (cut : List UInt8) (Open : Prop) (r : Option (Parsed α)) : Prop :=
  ∃ x, r = some x ∧ ∀ item q, x = .done item q → Open ∧
    ∃ b, cut[buffer_skip_whitespace cut q]? = some b ∧ (b = 0 ∨ numberChar b)

/-- What was done in front of the cut is done again. -/
def Follows (content cut : List UInt8) (n : Nat) (Open : α → Prop)
    (one one' : Nat → Option (Parsed α)) : Prop :=
  ∀ p item q, p < n → one p = some (.done item q) → (Open item → Stops (content.drop q)) →
    if q ≤ n then one' p = some (.done item q) else Lost cut (Open item) (one' p)

theorem lost_failed {Open : Prop} {r : Option (Parsed α)} (h : ∃ e, r = some (.failed e)) :
    Lost cut Open r := by
  obtain ⟨e, rfl⟩ := h
  exact ⟨_, rfl, fun item q h => by cases h⟩

theorem CutAt.skip_end (h : CutAt content cut n) : buffer_skip_whitespace cut n = n := by
  have hle := le_skip_whitespace h.lt
  rw [h.skip (Nat.le_refl n), Nat.min_eq_right hle.1]

theorem numberChar_gt {b : UInt8} (h : numberChar b) : 32 < b := by
  have hne : ¬ b ≤ 32 := by
    intro hle
    have hall : ∀ k ≤ 32, numberChar (UInt8.ofNat k) = false := by decide
    have hb := hall b.toNat (UInt8.le_iff_toNat_le.1 hle)
    rw [UInt8.ofNat_toNat, h] at hb
    cases hb
  exact UInt8.not_le.1 hne

/-- No white space to be skipped. -/
theorem skip_nothing {b : UInt8} (hp : content[p]? = some b) (hb : 32 < b) :
    buffer_skip_whitespace content p = p := by
  obtain ⟨hlt, rfl⟩ := List.getElem?_eq_some_iff.1 hp
  exact skip_whitespace_eq ws_nil hb (List.drop_eq_getElem_cons hlt)

/-- What follows an item in a list is a comma or the bracket. -/
theorem stops_of_skip {b : UInt8} (h : content[buffer_skip_whitespace content q]? = some b)
    (hb : numberChar b = false) : Stops (content.drop q) := by
  intro c hc
  cases hdrop : content.drop q with
  | nil => rw [hdrop] at hc; cases hc
  | cons a rest =>
      rw [hdrop] at hc
      cases hc
      by_cases hnum : numberChar c
      · have hp := getElem?_of_drop hdrop
        rw [skip_nothing hp (numberChar_gt hnum), hp] at h
        cases h
        exact hb
      · exact Bool.not_eq_true _ ▸ hnum

theorem Stops.short (h : Stops rest) {k : Nat} : Stops (rest.take k ++ [0]) := by
  have hzero : Stops [0] := by
    intro b hb
    cases hb
    exact not_numberChar_zero
  cases k with
  | zero => exact hzero
  | succ k =>
      cases rest with
      | nil => exact hzero
      | cons a rest => exact h

theorem parse_number_cut {d : D} (hcut : CutAt content cut n) (hp : p < n)
    (h : parse_number content dbl p = .done d q) (hstop : Stops (content.drop q)) :
    if q ≤ n then parse_number cut dbl p = .done d q
    else Lost cut True (some (parse_number cut dbl p)) := by
  rw [parse_number] at h
  have hchars : ∀ b ∈ ((content.drop p).take 63).takeWhile numberChar, numberChar b :=
    fun b hb => List.mem_takeWhile_imp hb
  have hlen : (((content.drop p).take 63).takeWhile numberChar).length ≤ 63 :=
    Nat.le_trans (List.takeWhile_prefix _).length_le (List.length_take_le 63 _)
  obtain ⟨rest, hrest⟩ : (((content.drop p).take 63).takeWhile numberChar) <+: content.drop p :=
    (List.takeWhile_prefix _).trans (List.take_prefix _ _)
  generalize ((content.drop p).take 63).takeWhile numberChar = t at *
  split at h
  · cases h
  next number after_end hread =>
  cases h
  have hle := dbl.strtod_le hread
  -- the number takes up all of its characters
  have hall : after_end = t.length := by
    by_contra hne
    have hlt : after_end < t.length := by omega
    have hdrop : content.drop (p + after_end) = t[after_end] ::
        (t.drop (after_end + 1) ++ rest) := by
      rw [← List.drop_drop, ← hrest, List.drop_append_of_le_length hle,
        List.drop_eq_getElem_cons hlt]
      rfl
    rw [hdrop] at hstop
    have hb := hstop _ rfl
    rw [hchars _ (List.getElem_mem _)] at hb
    cases hb
  subst hall
  have hdrop := drop_of_drop hrest.symm
  rw [hdrop] at hstop
  by_cases hq : p + t.length ≤ n
  · rw [if_pos hq]
    have hcutdrop : cut.drop p = t ++ (rest.take (n - p - t.length) ++ [0]) := by
      rw [hcut.drop (Nat.le_of_lt hp), ← hrest, List.take_append,
        List.take_of_length_le (by omega), List.append_assoc]
    rw [parse_number, numberString_eq hchars hlen hcutdrop hstop.short, hread]
  · rw [if_neg hq]
    have hcutdrop : cut.drop p = t.take (n - p) ++ [0] := by
      rw [hcut.drop (Nat.le_of_lt hp), ← hrest, List.take_append_of_le_length (by omega)]
    have hstop' : Stops [0] := fun b hb => by cases hb; exact not_numberChar_zero
    have hchars' : ∀ b ∈ t.take (n - p), numberChar b := fun b hb =>
      hchars b (List.mem_of_mem_take hb)
    have hlen' : (t.take (n - p)).length = n - p := List.length_take_of_le (by omega)
    rw [parse_number, numberString_eq hchars' (by omega) hcutdrop hstop']
    split
    · exact lost_failed ⟨_, rfl⟩
    next number' after_end' hread' =>
    have hle' := dbl.strtod_le hread'
    rw [hlen'] at hle'
    refine ⟨_, rfl, fun item q h => ?_⟩
    cases h
    refine ⟨trivial, ?_⟩
    by_cases hend : p + after_end' = n
    · rw [hend, hcut.skip_end]
      exact ⟨0, hcut.zero, .inl rfl⟩
    · have hlt : after_end' < t.length := by omega
      have hb : cut[p + after_end']? = some (t[after_end']) := by
        rw [← List.getElem?_drop, hcutdrop, List.getElem?_append_left (by omega),
          List.getElem?_take_of_lt (by omega), List.getElem?_eq_getElem hlt]
      have hnum := hchars _ (List.getElem_mem hlt)
      rw [skip_nothing hb (numberChar_gt hnum)]
      exact ⟨_, hb, .inr hnum⟩

/-! ## Between brackets -/

variable {Open Good : α → Prop} {one one' : Nat → Option (Parsed α)} {close : UInt8}

/-- A list that is read: its first item, and what is behind that. -/
theorem parseItems_done {items : List α} {fuel offset : Nat}
    (h : parseItems content one close (fuel + 1) offset = some (.done items q)) :
    ∃ item q1, one (buffer_skip_whitespace content (offset + 1)) = some (.done item q1) ∧
      (content[buffer_skip_whitespace content q1]? = some (ch ',') ∧
        (∃ items', items = item :: items' ∧
          parseItems content one close fuel (buffer_skip_whitespace content q1) =
            some (.done items' q)) ∨
      content[buffer_skip_whitespace content q1]? ≠ some (ch ',') ∧
        content[buffer_skip_whitespace content q1]? = some close ∧ items = [item] ∧
        q = buffer_skip_whitespace content q1 + 1) := by
  rw [parseItems] at h
  simp only [Option.bind_eq_bind, Option.bind_eq_some_iff] at h
  obtain ⟨x, hx, h⟩ := h
  cases x with
  | failed e => cases h
  | done item q1 =>
      refine ⟨item, q1, hx, ?_⟩
      simp only at h
      split at h
      · next hcomma =>
          simp only [Option.bind_eq_some_iff] at h
          obtain ⟨y, hy, heq⟩ := h
          cases y with
          | failed e => cases heq
          | done items' q' =>
              cases heq
              exact .inl ⟨hcomma, items', rfl, hy⟩
      · next hcomma =>
          split at h
          · next hclose =>
              cases h
              exact .inr ⟨hcomma, hclose, rfl, rfl⟩
          · cases h

theorem parseItems_lt (hterm : Terminated content)
    (hsound : ∀ p, p < content.length → Sound content Good p (one p)) {fuel : Nat} :
    ∀ {offset : Nat} {items : List α}, offset + 1 < content.length →
      parseItems content one close fuel offset = some (.done items q) → offset < q := by
  induction fuel with
  | zero => intro offset items hlt h; cases h
  | succ fuel ih =>
      intro offset items hlt h
      obtain ⟨item, q1, hone, hor⟩ := parseItems_done h
      have hskip := le_skip_whitespace hlt
      obtain ⟨x, hx, -, hdone⟩ := hsound _ hskip.2
      rw [hone] at hx
      cases hx
      obtain ⟨-, hq1, hq1lt⟩ := hdone item q1 rfl
      have hskip' := le_skip_whitespace hq1lt
      rcases hor with ⟨hcomma, items', -, hrest⟩ | ⟨-, -, -, rfl⟩
      · have hlast := ih (hterm.succ_lt hcomma (by decide)) hrest
        omega
      · omega

/-- A byte that stands in front of the cut, or the zero byte there. -/
theorem CutAt.getElem?_min (hcut : CutAt content cut n) :
    cut[min p n]? = if p < n then content[p]? else some 0 := by
  by_cases hp : p < n
  · rw [if_pos hp, Nat.min_eq_left (Nat.le_of_lt hp), hcut.getElem? hp]
  · rw [if_neg hp, Nat.min_eq_right (Nat.not_lt.1 hp), hcut.zero]

/-- Nothing that may stand behind what is lost goes on or closes. -/
theorem lost_byte {b : UInt8} (hclose : close = ch ']' ∨ close = ch '}')
    (hb : b = 0 ∨ numberChar b) : b ≠ ch ',' ∧ b ≠ close := by
  have hall : ∀ c : UInt8, c ≠ 0 → numberChar c = false → b ≠ c := by
    intro c hzero hnum heq
    subst heq
    rw [hnum] at hb
    exact hzero (hb.resolve_right Bool.noConfusion)
  refine ⟨hall _ (by decide) (by decide), ?_⟩
  cases hclose with
  | inl h => subst h; exact hall _ (by decide) (by decide)
  | inr h => subst h; exact hall _ (by decide) (by decide)

theorem parseItems_cut (hterm : Terminated content) (hcut : CutAt content cut n)
    (hclose : close = ch ']' ∨ close = ch '}')
    (hsound : ∀ p, p < content.length → Sound content Good p (one p))
    (hone : Follows content cut n Open one one') (hend : ∃ e, one' n = some (.failed e))
    {fuel : Nat} : ∀ {fuel' offset : Nat} {items : List α}, offset < n → n < fuel' + offset →
      parseItems content one close fuel offset = some (.done items q) →
      if q ≤ n then parseItems cut one' close fuel' offset = some (.done items q)
      else ∃ e, parseItems cut one' close fuel' offset = some (.failed e) := by
  have hstops : numberChar (ch ',') = false ∧ numberChar close = false := by
    cases hclose with
    | inl h => subst h; decide
    | inr h => subst h; decide
  have hcutlt := hcut.lt
  induction fuel with
  | zero => intro fuel' offset items hoff hfuel h; cases h
  | succ fuel ih =>
      intro fuel' offset items hoff hfuel h
      obtain ⟨item, q1, hone1, hor⟩ := parseItems_done h
      have hskip := le_skip_whitespace (show offset + 1 < content.length by omega)
      obtain ⟨x, hx, -, hdone⟩ := hsound _ hskip.2
      rw [hone1] at hx
      cases hx
      obtain ⟨-, hq1, hq1lt⟩ := hdone item q1 rfl
      have hskip' := le_skip_whitespace hq1lt
      -- the item ends where the list goes on, and the list ends behind that
      have hstop : Stops (content.drop q1) := by
        rcases hor with ⟨hcomma, -⟩ | ⟨-, hend', -⟩
        · exact stops_of_skip hcomma hstops.1
        · exact stops_of_skip hend' hstops.2
      have hq : buffer_skip_whitespace content q1 < q := by
        rcases hor with ⟨hcomma, items', -, hrest⟩ | ⟨-, -, -, rfl⟩
        · exact parseItems_lt hterm hsound (hterm.succ_lt hcomma (by decide)) hrest
        · exact Nat.lt_succ_self _
      obtain ⟨fuel', rfl⟩ : ∃ k, fuel' = k + 1 := ⟨fuel' - 1, by omega⟩
      rw [parseItems, hcut.skip hoff]
      simp only [Option.bind_eq_bind]
      by_cases hs : n ≤ buffer_skip_whitespace content (offset + 1)
      · obtain ⟨e, he⟩ := hend
        rw [Nat.min_eq_right hs, he, if_neg (show ¬ q ≤ n by omega)]
        exact ⟨e, rfl⟩
      rw [Nat.min_eq_left (show buffer_skip_whitespace content (offset + 1) ≤ n by omega)]
      have hitem := hone _ item q1 (Nat.lt_of_not_le hs) hone1 fun _ => hstop
      by_cases hq1n : q1 ≤ n
      · rw [if_pos hq1n] at hitem
        rw [hitem]
        simp only [Option.bind_some, hcut.skip hq1n, hcut.getElem?_min]
        by_cases hs1 : buffer_skip_whitespace content q1 < n
        · simp only [if_pos hs1, Nat.min_eq_left (Nat.le_of_lt hs1)]
          rcases hor with ⟨hcomma, items', rfl, hrest⟩ | ⟨hcomma, hend', rfl, rfl⟩
          · rw [if_pos hcomma]
            have hnext := ih hs1 (show n < fuel' + buffer_skip_whitespace content q1 by omega) hrest
            split at hnext
            · next hqn =>
                rw [if_pos hqn, hnext]
                rfl
            · next hqn =>
                obtain ⟨e, he⟩ := hnext
                rw [if_neg hqn, he]
                exact ⟨e, rfl⟩
          · rw [if_neg hcomma, if_pos hend',
              if_pos (show buffer_skip_whitespace content q1 + 1 ≤ n from hs1)]
            rfl
        · have hzero := lost_byte (b := 0) hclose (.inl rfl)
          simp only [if_neg hs1, Option.some.injEq]
          rw [if_neg hzero.1, if_neg hzero.2, if_neg (show ¬ q ≤ n by omega)]
          exact ⟨_, rfl⟩
      · rw [if_neg hq1n] at hitem
        rw [if_neg (show ¬ q ≤ n by omega)]
        obtain ⟨x, hx, hlost⟩ := hitem
        rw [hx]
        cases x with
        | failed e => exact ⟨e, rfl⟩
        | done item' q' =>
            obtain ⟨-, b, hb, hbor⟩ := hlost item' q' rfl
            have hne := lost_byte hclose hbor
            simp only [Option.bind_some, hb, Option.some.injEq]
            rw [if_neg hne.1, if_neg hne.2]
            exact ⟨_, rfl⟩

theorem parseBrackets_cut {items : List α} (hterm : Terminated content)
    (hcut : CutAt content cut n) (hclose : close = ch ']' ∨ close = ch '}')
    (hsound : ∀ p, p < content.length → Sound content Good p (one p))
    (hone : Follows content cut n Open one one') (hend : ∃ e, one' n = some (.failed e))
    (hp : p < n) (h : parseBrackets content one close p = some (.done items q)) :
    if q ≤ n then parseBrackets cut one' close p = some (.done items q)
    else ∃ e, parseBrackets cut one' close p = some (.failed e) := by
  have hcutlt := hcut.lt
  have hlen := hcut.length_eq
  have hskip := le_skip_whitespace (show p + 1 < content.length by omega)
  have hzero := lost_byte (b := 0) hclose (.inl rfl)
  -- at the cut there is no item to begin with
  have hlast : ∃ e, parseItems cut one' close cut.length (n - 1) = some (.failed e) := by
    obtain ⟨e, he⟩ := hend
    rw [hlen, parseItems, show n - 1 + 1 = n by omega, hcut.skip_end, he]
    exact ⟨e, rfl⟩
  rw [parseBrackets] at h ⊢
  rw [hcut.skip hp]
  simp only [hcut.getElem?_min]
  generalize buffer_skip_whitespace content (p + 1) = s at h hskip
  split at h
  · next hfirst =>
      cases h
      by_cases hs : s < n
      · rw [if_pos hs, if_pos hfirst, if_pos (show s + 1 ≤ n from hs),
          Nat.min_eq_left (Nat.le_of_lt hs)]
      · rw [if_neg hs, if_neg (show ¬ some 0 = some close by simpa using hzero.2),
          Nat.min_eq_right (Nat.not_lt.1 hs), if_neg (show ¬ cut.length ≤ n by omega),
          if_neg (show ¬ s + 1 ≤ n by omega)]
        exact hlast
  · next hfirst =>
      rw [if_neg (show ¬ content.length ≤ s by omega)] at h
      have hnot : ¬ (if s < n then content[s]? else some 0) = some close := by
        split
        · exact hfirst
        · simpa using hzero.2
      have hq := parseItems_lt hterm hsound (by omega) h
      rw [if_neg hnot, if_neg (show ¬ cut.length ≤ min s n by omega)]
      by_cases hs : s ≤ n
      · rw [Nat.min_eq_left hs]
        exact parseItems_cut hterm hcut hclose hsound hone hend (by omega) (by omega) h
      · rw [Nat.min_eq_right (by omega), if_neg (show ¬ q ≤ n by omega)]
        exact hlast

/-! ## Values -/

/-- What may go on where the text is cut off. -/
def IsNumber : CJson D → Prop
  | .number _ => True
  | _ => False

variable {parse parse' : Nat → Option (Parsed (CJson D))}
  {inner inner' : Option (Nat → Option (Parsed (CJson D)))} {item : CJson D}

/-- The parse functions one level further in. -/
structure ParseLevel (content cut : List UInt8) (n left : Nat)
    (parse parse' : Nat → Option (Parsed (CJson D))) : Prop where
  sound : ∀ p, p < content.length → Sound content (Printable left) p (parse p)
  follows : Follows content cut n IsNumber parse parse'
  last : ∃ e, parse' n = some (.failed e)

theorem parse_string_end (hcut : CutAt content cut n) :
    ∃ e, parse_string cut n = some (.failed e) := by
  rw [parse_string, hcut.zero]
  exact ⟨_, rfl⟩

theorem Lost.map {β : Type} {Open Open' : Prop} {f : α → β} {r : Option (Parsed α)}
    (h : Lost cut Open r) (hopen : Open → Open') : Lost cut Open' (r.map (Parsed.map f)) := by
  obtain ⟨x, rfl, hlost⟩ := h
  cases x with
  | failed e => exact lost_failed ⟨e, rfl⟩
  | done item q =>
      obtain ⟨hitem, hbyte⟩ := hlost item q rfl
      refine ⟨_, rfl, fun item' q' heq => ?_⟩
      cases heq
      exact ⟨hopen hitem, hbyte⟩

theorem parseMember_cut (hterm : Terminated content) (hcut : CutAt content cut n)
    (h : ParseLevel content cut n left parse parse') :
    Follows content cut n (fun m => IsNumber m.2) (parseMember content parse)
      (parseMember cut parse') := by
  intro p m q hp hm hstop
  have hcutlt := hcut.lt
  have hplt : p < content.length := by omega
  rw [parseMember] at hm
  simp only [Option.bind_eq_bind, Option.bind_eq_some_iff] at hm
  obtain ⟨x, hx, hm⟩ := hm
  cases x with
  | failed e => cases hm
  | done string q1 =>
      obtain ⟨y, hy, -, hdone⟩ := parse_string_defined hplt
      rw [hx] at hy
      cases hy
      obtain ⟨-, -, hquote⟩ := hdone string q1 rfl
      have hq1 := hterm.succ_lt hquote (by decide)
      have hskip := le_skip_whitespace (show q1 < content.length by omega)
      simp only at hm
      split at hm
      · cases hm
      next hcolon =>
      have hcolon := not_not.1 hcolon
      have hs1 := hterm.succ_lt hcolon (by decide)
      have hskip' := le_skip_whitespace hs1
      obtain ⟨y, hy, heq⟩ := Option.map_eq_some_iff.1 hm
      cases y with
      | failed e => cases heq
      | done item q' =>
          cases heq
          obtain ⟨z, hz, -, hdone'⟩ := h.sound _ hskip'.2
          rw [hy] at hz
          cases hz
          obtain ⟨-, hq, -⟩ := hdone' item q rfl
          have hstring := parse_string_cut hcut hp hx
          rw [parseMember]
          by_cases hq1n : q1 ≤ n
          · rw [if_pos hq1n] at hstring
            rw [hstring]
            simp only [Option.bind_eq_bind, Option.bind_some, hcut.skip hq1n, hcut.getElem?_min]
            by_cases hs1n : buffer_skip_whitespace content q1 < n
            · simp only [if_pos hs1n, Nat.min_eq_left (Nat.le_of_lt hs1n), hcolon,
                hcut.skip hs1n]
              rw [if_neg (show ¬ some (ch ':') ≠ some (ch ':') from not_not.2 rfl)]
              by_cases hs2 : n ≤ buffer_skip_whitespace content
                  (buffer_skip_whitespace content q1 + 1)
              · obtain ⟨e, he⟩ := h.last
                rw [Nat.min_eq_right hs2, he, if_neg (show ¬ q ≤ n by omega)]
                exact lost_failed ⟨e, rfl⟩
              · rw [Nat.min_eq_left (Nat.le_of_lt (Nat.lt_of_not_le hs2))]
                have hitem := h.follows _ item q (Nat.lt_of_not_le hs2) hy hstop
                split at hitem
                · next hqn =>
                    rw [if_pos hqn, hitem]
                    rfl
                · next hqn =>
                    rw [if_neg hqn]
                    exact hitem.map id
            · simp only [if_neg hs1n, if_neg (show ¬ q ≤ n by omega)]
              exact lost_failed ⟨_, rfl⟩
          · rw [if_neg hq1n] at hstring
            obtain ⟨e, he⟩ := hstring
            rw [he, if_neg (show ¬ q ≤ n by omega)]
            exact lost_failed ⟨e, rfl⟩

theorem parseMember_end (hcut : CutAt content cut n) :
    ∃ e, parseMember cut parse' n = some (.failed e) := by
  obtain ⟨e, he⟩ := parse_string_end hcut
  rw [parseMember, he]
  exact ⟨e, rfl⟩

/-- Both have another level, or neither has. -/
def ParseLevels (content cut : List UInt8) (n : Nat)
    (inner inner' : Option (Nat → Option (Parsed (CJson D)))) : Prop :=
  ∀ parse, inner = some parse →
    ∃ parse' left, inner' = some parse' ∧ ParseLevel content cut n left parse parse'

theorem parse_array_cut (hterm : Terminated content) (hcut : CutAt content cut n)
    (hinner : ParseLevels content cut n inner inner') (hp : p < n)
    (h : parse_array content inner p = some (.done item q)) :
    if q ≤ n then parse_array cut inner' p = some (.done item q)
    else ∃ e, parse_array cut inner' p = some (.failed e) := by
  cases inner with
  | none => cases h
  | some parse =>
      obtain ⟨parse', left, rfl, hlevel⟩ := hinner parse rfl
      rw [parse_array] at h ⊢
      rw [hcut.getElem? hp]
      simp only [Option.bind_eq_bind, Option.bind_eq_some_iff] at h
      obtain ⟨b, hb, h⟩ := h
      split at h
      · cases h
      next hbracket =>
      obtain ⟨x, hx, heq⟩ := Option.map_eq_some_iff.1 h
      cases x with
      | failed e => cases heq
      | done child q' =>
          cases heq
          have hchild := parseBrackets_cut hterm hcut (.inl rfl) hlevel.sound hlevel.follows
            hlevel.last hp hx
          rw [hb]
          simp only [Option.bind_eq_bind, Option.bind_some]
          rw [if_neg hbracket]
          split at hchild
          · next hq =>
              rw [if_pos hq, hchild]
              rfl
          · next hq =>
              obtain ⟨e, he⟩ := hchild
              rw [if_neg hq, he]
              exact ⟨e, rfl⟩

theorem parse_object_cut (hterm : Terminated content) (hcut : CutAt content cut n)
    (hinner : ParseLevels content cut n inner inner') (hp : p < n)
    (h : parse_object content inner p = some (.done item q)) :
    if q ≤ n then parse_object cut inner' p = some (.done item q)
    else ∃ e, parse_object cut inner' p = some (.failed e) := by
  cases inner with
  | none => cases h
  | some parse =>
      obtain ⟨parse', left, rfl, hlevel⟩ := hinner parse rfl
      rw [parse_object] at h ⊢
      rw [hcut.getElem? hp]
      split at h
      · cases h
      next hbracket =>
      obtain ⟨x, hx, heq⟩ := Option.map_eq_some_iff.1 h
      cases x with
      | failed e => cases heq
      | done child q' =>
          cases heq
          have hchild := parseBrackets_cut hterm hcut (.inr rfl)
            (fun p hp => parseMember_sound hterm hlevel.sound hp)
            (parseMember_cut hterm hcut hlevel) (parseMember_end hcut) hp hx
          rw [if_neg hbracket]
          split at hchild
          · next hq =>
              rw [if_pos hq, hchild]
              rfl
          · next hq =>
              obtain ⟨e, he⟩ := hchild
              rw [if_neg hq, he]
              exact ⟨e, rfl⟩

/-- A word is there if it was there and ends in front of the cut. -/
theorem word_cut {k : Nat} (hcut : CutAt content cut n) (hp : p < n) (hzero : 0 ∉ w) :
    (cut.drop p).take k = w ↔ p + k ≤ n ∧ (content.drop p).take k = w := by
  have hlt := hcut.lt
  have hlen : ((content.drop p).take (n - p)).length = n - p := by
    rw [List.length_take, List.length_drop]
    omega
  rw [hcut.drop (Nat.le_of_lt hp)]
  by_cases hw : p + k ≤ n
  · rw [List.take_append_of_le_length (by omega), List.take_take,
      Nat.min_eq_left (show k ≤ n - p by omega)]
    exact ⟨fun h => ⟨hw, h⟩, fun h => h.2⟩
  · constructor
    · intro h
      -- the zero byte would be in the word
      have hle : ((content.drop p).take (n - p) ++ [0]).length ≤ k := by
        rw [List.length_append, hlen, List.length_singleton]
        omega
      rw [List.take_of_length_le hle] at h
      rw [← h] at hzero
      exact absurd (by simp) hzero
    · intro h
      exact absurd h.1 hw

theorem word_head {b c : UInt8} {k : Nat} (hb : content[p]? = some b)
    (h : (content.drop p).take (k + 1) = c :: w) : b = c := by
  obtain ⟨hlt, rfl⟩ := List.getElem?_eq_some_iff.1 hb
  rw [List.drop_eq_getElem_cons hlt, List.take_succ_cons] at h
  exact (List.cons.inj h).1

/-- What is at the first byte of a value that is none of the three words. -/
theorem parseValueAround_byte {b : UInt8} (hb : content[p]? = some b)
    (hnull : (content.drop p).take 4 ≠ bytes "null")
    (hfalse : (content.drop p).take 5 ≠ bytes "false")
    (htrue : (content.drop p).take 4 ≠ bytes "true") :
    parseValueAround content dbl inner p =
      if b = ch '"' then (parse_string content p).map (Parsed.map .string)
      else if b = ch '-' || isdigit b then some ((parse_number content dbl p).map .number)
      else if b = ch '[' then parse_array content inner p
      else if b = ch '{' then parse_object content inner p
      else some (.failed p) := by
  rw [parseValueAround, if_neg hnull, if_neg hfalse, if_neg htrue, hb]

theorem parseValueAround_cut (hterm : Terminated content) (hcut : CutAt content cut n)
    (hinner : ParseLevels content cut n inner inner') :
    Follows content cut n IsNumber (parseValueAround content dbl inner)
      (parseValueAround cut dbl inner') := by
  intro p item q hp h hstop
  have hlt := hcut.lt
  obtain ⟨b, hb⟩ : ∃ b, content[p]? = some b := ⟨_, List.getElem?_eq_getElem (by omega)⟩
  have hb' := (hcut.getElem? hp).trans hb
  have hnull := word_cut (w := bytes "null") (k := 4) hcut hp (by decide)
  have hfalse := word_cut (w := bytes "false") (k := 5) hcut hp (by decide)
  have htrue := word_cut (w := bytes "true") (k := 4) hcut hp (by decide)
  have hn : (content.drop p).take 4 = bytes "null" → b = ch 'n' := fun h =>
    word_head (w := bytes "ull") hb h
  have hf : (content.drop p).take 5 = bytes "false" → b = ch 'f' := fun h =>
    word_head (w := bytes "alse") hb h
  have ht : (content.drop p).take 4 = bytes "true" → b = ch 't' := fun h =>
    word_head (w := bytes "rue") hb h
  -- a word that has been cut off is nothing else
  have hword : (b = ch 'n' ∨ b = ch 'f' ∨ b = ch 't') →
      (cut.drop p).take 4 ≠ bytes "null" → (cut.drop p).take 5 ≠ bytes "false" →
      (cut.drop p).take 4 ≠ bytes "true" →
      Lost cut (IsNumber item) (parseValueAround cut dbl inner' p) := by
    intro hb h1 h2 h3
    rw [parseValueAround_byte hb' h1 h2 h3]
    rcases hb with rfl | rfl | rfl
    all_goals exact lost_failed ⟨_, rfl⟩
  by_cases h1 : (content.drop p).take 4 = bytes "null"
  · have hbn := hn h1
    subst hbn
    rw [parseValueAround, if_pos h1] at h
    cases h
    by_cases hq : p + 4 ≤ n
    · rw [if_pos hq, parseValueAround, if_pos (hnull.2 ⟨hq, h1⟩)]
    · rw [if_neg hq]
      exact hword (.inl rfl) (fun h => hq (hnull.1 h).1)
        (fun h => absurd (hf (hfalse.1 h).2) (by decide))
        (fun h => absurd (ht (htrue.1 h).2) (by decide))
  by_cases h2 : (content.drop p).take 5 = bytes "false"
  · have hbf := hf h2
    subst hbf
    rw [parseValueAround, if_neg h1, if_pos h2] at h
    cases h
    have hnot : (cut.drop p).take 4 ≠ bytes "null" := fun h => h1 (hnull.1 h).2
    by_cases hq : p + 5 ≤ n
    · rw [if_pos hq, parseValueAround, if_neg hnot, if_pos (hfalse.2 ⟨hq, h2⟩)]
    · rw [if_neg hq]
      exact hword (.inr (.inl rfl)) hnot (fun h => hq (hfalse.1 h).1)
        (fun h => absurd (ht (htrue.1 h).2) (by decide))
  by_cases h3 : (content.drop p).take 4 = bytes "true"
  · have hbt := ht h3
    subst hbt
    rw [parseValueAround, if_neg h1, if_neg h2, if_pos h3] at h
    cases h
    have hnot : (cut.drop p).take 4 ≠ bytes "null" := fun h => h1 (hnull.1 h).2
    have hnot' : (cut.drop p).take 5 ≠ bytes "false" := fun h => h2 (hfalse.1 h).2
    by_cases hq : p + 4 ≤ n
    · rw [if_pos hq, parseValueAround, if_neg hnot, if_neg hnot', if_pos (htrue.2 ⟨hq, h3⟩)]
    · rw [if_neg hq]
      exact hword (.inr (.inr rfl)) hnot hnot' (fun h => hq (htrue.1 h).1)
  rw [parseValueAround_byte hb h1 h2 h3] at h
  rw [parseValueAround_byte hb' (fun h => h1 (hnull.1 h).2) (fun h => h2 (hfalse.1 h).2)
    (fun h => h3 (htrue.1 h).2)]
  split at h
  · next hquote =>
      rw [if_pos hquote]
      obtain ⟨x, hx, heq⟩ := Option.map_eq_some_iff.1 h
      cases x with
      | failed e => cases heq
      | done s q' =>
          cases heq
          have hstring := parse_string_cut hcut hp hx
          split at hstring
          · next hq =>
              rw [if_pos hq, hstring]
              rfl
          · next hq =>
              obtain ⟨e, he⟩ := hstring
              rw [if_neg hq, he]
              exact lost_failed ⟨e, rfl⟩
  next hquote =>
  rw [if_neg hquote]
  split at h
  · next hdigit =>
      rw [if_pos hdigit]
      cases hx : parse_number content dbl p with
      | failed e => rw [hx] at h; cases h
      | done d q' =>
          rw [hx] at h
          cases h
          have hnumber := parse_number_cut hcut hp hx (hstop trivial)
          split at hnumber
          · next hq =>
              rw [if_pos hq, hnumber]
              rfl
          · next hq =>
              rw [if_neg hq]
              exact hnumber.map id
  next hdigit =>
  rw [if_neg hdigit]
  split at h
  · next hopen =>
      rw [if_pos hopen]
      have harray := parse_array_cut hterm hcut hinner hp h
      split at harray
      · next hq => rwa [if_pos hq]
      · next hq =>
          rw [if_neg hq]
          exact lost_failed harray
  next hopen =>
  rw [if_neg hopen]
  split at h
  · next hopen' =>
      rw [if_pos hopen']
      have hobject := parse_object_cut hterm hcut hinner hp h
      split at hobject
      · next hq => rwa [if_pos hq]
      · next hq =>
          rw [if_neg hq]
          exact lost_failed hobject
  · cases h

/-- The zero byte, and the first of a mark, are no beginning of a value. -/
theorem parseValueAround_failed {b : UInt8} (hb : content[p]? = some b) (h : b = 0 ∨ b = 0xEF) :
    parseValueAround content dbl inner p = some (.failed p) := by
  have hword : ∀ {c : UInt8} {w : List UInt8} {k : Nat}, (content.drop p).take (k + 1) = c :: w →
      b = c := fun h => word_head hb h
  have hnot : b ≠ ch 'n' ∧ b ≠ ch 'f' ∧ b ≠ ch 't' := by
    rcases h with rfl | rfl <;> decide
  rw [parseValueAround_byte hb (fun h => hnot.1 (hword (w := bytes "ull") h))
    (fun h => hnot.2.1 (hword (w := bytes "alse") h))
    (fun h => hnot.2.2 (hword (w := bytes "rue") h))]
  rcases h with rfl | rfl <;> rfl

theorem parse_value_failed {b : UInt8} (hb : content[p]? = some b) (h : b = 0 ∨ b = 0xEF) :
    parse_value content dbl left p = some (.failed p) := by
  cases left <;> exact parseValueAround_failed hb h

/-- What is read in front of the cut is read again. -/
theorem parse_value_cut (hterm : Terminated content) (hcut : CutAt content cut n) :
    Follows content cut n IsNumber (parse_value content dbl left) (parse_value cut dbl left) := by
  induction left with
  | zero => exact parseValueAround_cut hterm hcut fun parse h => by cases h
  | succ left ih =>
      refine parseValueAround_cut hterm hcut fun parse h => ?_
      cases h
      exact ⟨_, left, rfl, fun p hp => parse_value_sound hterm hp, ih, n,
        parse_value_failed hcut.zero (.inl rfl)⟩

end IotCamera
