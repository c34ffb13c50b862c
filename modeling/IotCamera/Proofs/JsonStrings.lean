import IotCamera.Json.Grammar
import Mathlib.Algebra.Group.Nat.Defs

/-!
# String literals

`parse_string` goes over a literal twice. The first time it takes every
backslash together with the character behind it, and counts it, until it
comes to a quote; the block for the string is as large as the literal less the
backslashes. The second time it fills the block.

The two do not always agree on what an escape is. An escape with a `u` takes
four characters without a look at them, backslashes and all, so that the
second loop can find itself behind a backslash that it has not seen, and take
the closing quote for an escaped one. The block is large enough even then. The
reason is that the first loop never counts two backslashes in a row: of any
stretch of characters it has counted at most every other one, which is what
`Ahead` keeps track of.

Where the literal is one of the standard, the two agree, and what is written
is what the literal says.
-/

namespace IotCamera

open CString

variable {content t rest u s : List UInt8} {input_end start skipped_bytes size : Nat}

/-! ## Where the string ends -/

theorem closingQuote_quote : closingQuote (ch '"' :: rest) = some (0, 0) := by
  rw [closingQuote.eq_def]
  exact if_pos rfl

theorem closingQuote_slash {b : UInt8} : closingQuote (ch '\\' :: b :: rest) =
    (closingQuote rest).map fun r => (r.1 + 2, r.2 + 1) := by
  rw [closingQuote, if_neg (by decide), if_pos rfl]

theorem closingQuote_plain {b : UInt8} (hquote : b ≠ ch '"') (hslash : b ≠ ch '\\') :
    closingQuote (b :: rest) = (closingQuote rest).map fun r => (r.1 + 1, r.2) := by
  rw [closingQuote.eq_def]
  simp only [if_neg hquote, if_neg hslash]

/-- The first loop, one round at a time. -/
theorem closingQuote_cases {n k : Nat} (h : closingQuote t = some (n, k)) :
    (∃ rest, t = ch '"' :: rest ∧ n = 0 ∧ k = 0) ∨
    (∃ b rest n' k', t = ch '\\' :: b :: rest ∧ closingQuote rest = some (n', k') ∧
      n = n' + 2 ∧ k = k' + 1) ∨
    ∃ b rest n', t = b :: rest ∧ b ≠ ch '"' ∧ b ≠ ch '\\' ∧ closingQuote rest = some (n', k) ∧
      n = n' + 1 := by
  cases t with
  | nil => simp [closingQuote] at h
  | cons b rest =>
      by_cases hquote : b = ch '"'
      · rw [hquote, closingQuote_quote] at h
        cases h
        exact .inl ⟨rest, by rw [hquote], rfl, rfl⟩
      by_cases hslash : b = ch '\\'
      · cases rest with
        | nil =>
            rw [closingQuote.eq_def] at h
            simp only [if_neg hquote, if_pos hslash] at h
            cases h
        | cons c rest =>
            rw [hslash, closingQuote_slash, Option.map_eq_some_iff] at h
            obtain ⟨r, hr, heq⟩ := h
            cases heq
            exact .inr (.inl ⟨c, rest, r.1, r.2, by rw [hslash], hr, rfl, rfl⟩)
      · rw [closingQuote_plain hquote hslash, Option.map_eq_some_iff] at h
        obtain ⟨r, hr, heq⟩ := h
        cases heq
        exact .inr (.inr ⟨b, rest, r.1, rfl, hquote, hslash, hr, rfl⟩)

/-- What the first loop stops at is a quote, and no two of the backslashes it
has counted are next to each other. -/
theorem closingQuote_spec {n k : Nat} (h : closingQuote t = some (n, k)) :
    t[n]? = some (ch '"') ∧ 2 * k ≤ n := by
  induction n using Nat.strong_induction_on generalizing t k with
  | _ n ih =>
      rcases closingQuote_cases h with ⟨rest, rfl, rfl, rfl⟩ | ⟨b, rest, n', k', rfl, hr, rfl, rfl⟩ |
        ⟨b, rest, n', rfl, -, -, hr, rfl⟩
      · exact ⟨rfl, Nat.le_refl 0⟩
      · have := ih n' (by omega) hr
        exact ⟨by simpa using this.1, by omega⟩
      · have := ih n' (by omega) hr
        exact ⟨by simpa using this.1, by omega⟩

/-! ## The two loops side by side -/

/-- The second loop is at `p`, and the first one has been there or, if `a` is
1, has stepped over it; it counted `k` backslashes from here on. -/
structure Ahead (content : List UInt8) (input_end p a k : Nat) : Prop where
  step : a ≤ 1
  le : p + a ≤ input_end
  quote : closingQuote (content.drop (p + a)) = some (input_end - (p + a), k)

namespace Ahead

variable {p a k : Nat}

theorem end_eq (h : Ahead content input_end p a k) : content[input_end]? = some (ch '"') := by
  have hq := (closingQuote_spec h.quote).1
  have hle := h.le
  rw [List.getElem?_drop] at hq
  rwa [show p + a + (input_end - (p + a)) = input_end by omega] at hq

theorem end_lt (h : Ahead content input_end p a k) : input_end < content.length :=
  (List.getElem?_eq_some_iff.1 h.end_eq).1

theorem count_le (h : Ahead content input_end p a k) : 2 * k + p + a ≤ input_end := by
  have := (closingQuote_spec h.quote).2
  have := h.le
  omega

/-- One character further. A backslash is counted only if the one before was
not. -/
theorem next (h : Ahead content input_end p a k) (hp : p < input_end) :
    ∃ a' k', Ahead content input_end (p + 1) a' k' ∧ 2 * k + a ≤ 2 * k' + a' + 1 ∧
      (content[p]? ≠ some (ch '\\') → k' = k) := by
  have hstep := h.step
  have hle := h.le
  have hq := h.quote
  by_cases ha : a = 1
  · subst ha
    exact ⟨0, k, ⟨Nat.zero_le 1, by omega, hq⟩, by omega, fun _ => rfl⟩
  have ha0 : a = 0 := by omega
  subst ha0
  have hhead : content[p]? = (content.drop p).head? := List.head?_drop.symm
  have htail : content.drop (p + 1) = (content.drop p).tail := List.tail_drop.symm
  rw [Nat.add_zero] at hq
  rcases closingQuote_cases hq with ⟨rest, hd, hn, -⟩ | ⟨b, rest, n, k', hd, hr, hn, rfl⟩ |
    ⟨b, rest, n, hd, -, -, hr, hn⟩
  · omega
  · refine ⟨1, k', ⟨Nat.le_refl 1, by omega, ?_⟩, by omega, fun hne => ?_⟩
    · have hdrop : content.drop (p + 1 + 1) = rest := by
        rw [← List.tail_drop, htail, hd]
        rfl
      rw [hdrop, hr]
      congr 2
      omega
    · exact absurd (by rw [hhead, hd]; rfl) hne
  · refine ⟨0, k, ⟨Nat.zero_le 1, by omega, ?_⟩, by omega, fun _ => rfl⟩
    rw [Nat.add_zero, htail, hd, List.tail_cons, hr]
    congr 2
    omega

/-- Several characters further. -/
theorem advance {j : Nat} (h : Ahead content input_end p a k) (hp : p + j ≤ input_end) :
    ∃ a' k', Ahead content input_end (p + j) a' k' ∧ 2 * k + a ≤ 2 * k' + a' + j := by
  induction j with
  | zero => exact ⟨a, k, h, Nat.le_refl _⟩
  | succ j ih =>
      obtain ⟨a', k', h', hk'⟩ := ih (by omega)
      obtain ⟨a'', k'', h'', hk'', -⟩ := h'.next (by omega)
      exact ⟨a'', k'', h'', by omega⟩

/-- A backslash right in front of the closing quote has been stepped over. -/
theorem count_eq_zero (h : Ahead content input_end p a k) (hp : p + 1 = input_end) : k = 0 := by
  have := h.count_le
  omega

end Ahead

/-! ## Escapes with a `u` -/

theorem hexDigit_lt {b : UInt8} {d : Nat} (h : hexDigit b = some d) : d < 16 := by
  simp only [hexDigit, isdigit, Bool.and_eq_true, decide_eq_true_eq, UInt8.le_iff_toNat_le] at h
  have hA : (ch 'A').toNat = 65 := rfl
  have hF : (ch 'F').toNat = 70 := rfl
  have ha : (ch 'a').toNat = 97 := rfl
  have hf : (ch 'f').toNat = 102 := rfl
  have h48 : (48 : UInt8).toNat = 48 := rfl
  have h57 : (57 : UInt8).toNat = 57 := rfl
  split at h
  · cases h
    omega
  · split at h
    · cases h
      omega
    · split at h
      · cases h
        omega
      · cases h

theorem hexRounds_defined {rounds : Nat} : ∀ {h input : Nat}, input + rounds ≤ content.length →
    ∃ x, hexRounds content h rounds input = some x := by
  induction rounds with
  | zero => exact fun _ => ⟨_, rfl⟩
  | succ rounds ih =>
      intro h input hle
      rw [hexRounds, List.getElem?_eq_getElem (by omega)]
      cases hd : hexDigit content[input] with
      | none => exact ⟨0, by simp [hd]⟩
      | some d =>
          obtain ⟨x, hx⟩ := @ih (if rounds = 0 then h + d else (h + d) <<< 4) (input + 1) (by omega)
          exact ⟨x, by simp [hd, hx]⟩

theorem hexRounds_lt {rounds : Nat} : ∀ {h input j x : Nat},
    hexRounds content h (rounds + 1) input = some x → h + 16 ≤ 16 ^ j →
      x < 16 ^ (j + rounds) := by
  induction rounds with
  | zero =>
      intro h input j x hx hh
      rw [hexRounds, Option.bind_eq_bind, Option.bind_eq_some_iff] at hx
      obtain ⟨b, -, hx⟩ := hx
      have hpos : 0 < 16 ^ j := Nat.pow_pos (by omega)
      split at hx
      · cases hx
        exact hpos
      · next d hd =>
          cases hx
          have := hexDigit_lt hd
          rw [if_pos rfl, Nat.add_zero]
          omega
  | succ rounds ih =>
      intro h input j x hx hh
      rw [hexRounds, Option.bind_eq_bind, Option.bind_eq_some_iff] at hx
      obtain ⟨b, -, hx⟩ := hx
      split at hx
      · cases hx
        exact Nat.pow_pos (by omega)
      · next d hd =>
          have hd := hexDigit_lt hd
          rw [if_neg (by omega), Nat.shiftLeft_eq] at hx
          have := ih (j := j + 1) hx (by rw [Nat.pow_succ]; omega)
          rwa [show j + (rounds + 1) = j + 1 + rounds by omega]

theorem parse_hex4_defined {input : Nat} (h : input + 4 ≤ content.length) :
    ∃ x, parse_hex4 content input = some x := hexRounds_defined h

theorem parse_hex4_lt {input x : Nat} (h : parse_hex4 content input = some x) : x < 0x10000 :=
  hexRounds_lt (j := 1) h (by omega)

theorem length_trailBytes {codepoint n : Nat} {output : List UInt8} :
    (trailBytes codepoint output n).2.length = output.length + n := by
  induction n generalizing codepoint output with
  | zero => rfl
  | succ n ih =>
      rw [trailBytes, ih, List.length_cons]
      omega

theorem length_utf8Bytes {n mark codepoint : Nat} (h : 0 < n) :
    (utf8Bytes n mark codepoint).length = n := by
  have hlen : (trailBytes codepoint [] (n - 1)).2.length = 0 + (n - 1) := length_trailBytes
  rw [utf8Bytes]
  simp only
  split <;> rw [List.length_cons, hlen] <;> omega

theorem encodeUtf8_length {codepoint : Nat} {bs : List UInt8}
    (h : encodeUtf8 codepoint = some bs) :
    bs.length ≤ 4 ∧ (codepoint < 0x10000 → bs.length ≤ 3) := by
  rw [encodeUtf8] at h
  split at h
  · cases h
    rw [length_utf8Bytes (by omega)]
    omega
  · split at h
    · cases h
      rw [length_utf8Bytes (by omega)]
      omega
    · split at h
      · cases h
        rw [length_utf8Bytes (by omega)]
        omega
      · split at h
        · cases h
          rw [length_utf8Bytes (by omega)]
          omega
        · cases h

/-- An escape with a `u` stays in front of the closing quote, and is at least
twice as long as what it stands for. -/
theorem utf16_literal_to_utf8_spec {p : Nat} (hend : input_end < content.length) :
    ∃ r, utf16_literal_to_utf8 content p input_end = some r ∧
      ∀ bs n, r = some (bs, n) → p + n ≤ input_end ∧ (n = 6 ∨ n = 12) ∧ 2 * bs.length ≤ n := by
  rw [utf16_literal_to_utf8]
  split
  · exact ⟨none, rfl, fun bs n h => by cases h⟩
  next h6 =>
  obtain ⟨first_code, hfirst⟩ :=
    parse_hex4_defined (show p + 2 + 4 ≤ content.length by omega)
  simp only [hfirst, Option.bind_eq_bind, Option.bind_some]
  split
  · exact ⟨none, rfl, fun bs n h => by cases h⟩
  split
  · -- the second half of the pair
    split
    · exact ⟨none, rfl, fun bs n h => by cases h⟩
    next h12 =>
    rw [List.getElem?_eq_getElem (by omega)]
    simp only [Option.bind_some]
    split
    · exact ⟨none, rfl, fun bs n h => by cases h⟩
    rw [List.getElem?_eq_getElem (by omega)]
    simp only [Option.bind_some]
    split
    · exact ⟨none, rfl, fun bs n h => by cases h⟩
    obtain ⟨second_code, hsecond⟩ :=
      parse_hex4_defined (show p + 6 + 2 + 4 ≤ content.length by omega)
    simp only [hsecond, Option.bind_some]
    split
    · exact ⟨none, rfl, fun bs n h => by cases h⟩
    refine ⟨_, rfl, fun bs n h => ?_⟩
    obtain ⟨bs', hbs, heq⟩ := Option.map_eq_some_iff.1 h
    cases heq
    have := (encodeUtf8_length hbs).1
    omega
  · refine ⟨_, rfl, fun bs n h => ?_⟩
    obtain ⟨bs', hbs, heq⟩ := Option.map_eq_some_iff.1 h
    cases heq
    have := (encodeUtf8_length hbs).2 (parse_hex4_lt hfirst)
    omega

/-! ## Nothing is written outside of the block -/

theorem append_eq {output bs : List UInt8} (h : output.length + bs.length ≤ size) :
    append size output bs = some (output ++ bs) := if_pos h

/-- The second loop reads up to the closing quote, and leaves a byte of the
block for the zero. -/
theorem unescapeLoop_defined (hsize : input_end + 2 ≤ size + start + skipped_bytes) {fuel : Nat} :
    ∀ {p a k : Nat} {output : List UInt8}, Ahead content input_end p a k →
      input_end - p ≤ fuel → output.length + skipped_bytes + start ≤ p + k →
      ∃ r, unescapeLoop content size input_end fuel p output = some r ∧
        r.offset ≤ input_end + 1 ∧
        ∀ out q, r = .done out q → out.length + 1 ≤ size := by
  -- the loop is left at the closing quote, or behind it
  have hstop : ∀ {fuel p : Nat} {output : List UInt8}, input_end ≤ p → p ≤ input_end + 1 →
      output.length + skipped_bytes + start ≤ input_end →
      ∃ r, unescapeLoop content size input_end fuel p output = some r ∧
        r.offset ≤ input_end + 1 ∧
        ∀ out q, r = .done out q → out.length + 1 ≤ size := by
    intro fuel p output hp hp' hout
    refine ⟨.done output p, ?_, hp', fun out q h => ?_⟩
    · cases fuel <;> exact if_pos hp
    · cases h
      omega
  induction fuel with
  | zero =>
      intro p a k output hahead hfuel hout
      have := hahead.count_le
      exact hstop (by omega) (by omega) (by omega)
  | succ fuel ih =>
      intro p a k output hahead hfuel hout
      have hcount := hahead.count_le
      have hend := hahead.end_lt
      by_cases hp : input_end ≤ p
      · exact hstop hp (by omega) (by omega)
      -- on by `j` characters that stand for `bs`
      have hon : ∀ {bs : List UInt8} {j : Nat}, p + j ≤ input_end → 0 < j →
          (∀ a' k', Ahead content input_end (p + j) a' k' → 2 * k + a ≤ 2 * k' + a' + j →
            bs.length + k ≤ j + k') → ∃ r,
          (append size output bs >>= fun output =>
            unescapeLoop content size input_end fuel (p + j) output) = some r ∧
          r.offset ≤ input_end + 1 ∧ ∀ out q, r = .done out q → out.length + 1 ≤ size := by
        intro bs j hj hpos hroom
        obtain ⟨a', k', hahead', hk'⟩ := hahead.advance hj
        have hbs := hroom a' k' hahead' hk'
        have hcount' := hahead'.count_le
        rw [append_eq (by omega)]
        exact ih hahead' (by omega) (by rw [List.length_append]; omega)
      rw [unescapeLoop, if_neg hp, List.getElem?_eq_getElem (by omega)]
      simp only [Option.bind_eq_bind, Option.bind_some]
      split
      · next hslash =>
          obtain ⟨a', k', hahead', hk', hsame⟩ := hahead.next (by omega)
          have hcount' := hahead'.count_le
          have hk : k' = k := by
            apply hsame
            rw [List.getElem?_eq_getElem (by omega)]
            simpa using hslash
          rw [append_eq (by simp; omega)]
          exact ih hahead' (by omega) (by rw [List.length_append, List.length_singleton]; omega)
      · rw [List.getElem?_eq_getElem (by omega)]
        simp only [Option.bind_some]
        split
        · obtain ⟨r, hr, hspec⟩ := utf16_literal_to_utf8_spec (p := p) hend
          rw [hr]
          simp only [Option.bind_some]
          cases r with
          | none =>
              refine ⟨.failed p, rfl, ?_, fun out q h => by cases h⟩
              show p ≤ input_end + 1
              omega
          | some bsn =>
              obtain ⟨hle, hn, hlen⟩ := hspec bsn.1 bsn.2 rfl
              refine hon hle (by omega) fun a' k' hahead' hk' => ?_
              have := hahead'.step
              omega
        · split
          · refine ⟨.failed p, rfl, ?_, fun out q h => by cases h⟩
            show p ≤ input_end + 1
            omega
          · by_cases hp2 : p + 2 ≤ input_end
            · refine hon hp2 (by omega) fun a' k' hahead' hk' => ?_
              have := hahead'.step
              simp only [List.length_singleton]
              omega
            · -- the closing quote is taken for an escaped one
              have hk0 := hahead.count_eq_zero (by omega)
              rw [append_eq (by simp; omega)]
              exact hstop (by omega) (by omega) (by simp; omega)

end IotCamera
