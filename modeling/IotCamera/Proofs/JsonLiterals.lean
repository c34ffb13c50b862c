import IotCamera.Proofs.JsonStrings
import Mathlib.Tactic.IntervalCases

/-!
# What a string literal says

A literal of the standard is read as what it says. The plain characters and
the short escapes are a byte each. An escape with a `u`, or a pair of them for
a code point beyond the first 65536, is the UTF-8 encoding of its character,
which is taken from the standard library.

That reading a literal has a result is known, so what is left to show is that
a result is the right one; there is no need to look at the size of the block
again.
-/

namespace IotCamera

open CString

variable {content t rest u s x : List UInt8} {p n size input_end : Nat}

/-! ## Reading along -/

/-- The first byte from an offset on. -/
theorem getElem?_of_drop {b : UInt8} (h : content.drop p = b :: rest) : content[p]? = some b := by
  rw [← List.head?_drop, h, List.head?_cons]

theorem drop_of_drop {l : List UInt8} (h : content.drop p = l ++ rest) :
    content.drop (p + l.length) = rest := by
  rw [← List.drop_drop, h, List.drop_left]

theorem drop_succ {b : UInt8} (h : content.drop p = b :: rest) : content.drop (p + 1) = rest :=
  drop_of_drop (l := [b]) h

/-! ## Hexadecimal digits -/

theorem hexDigit_lower : ∀ i : Fin (bytes "0123456789abcdef").length,
    hexDigit ((bytes "0123456789abcdef").get i) = some i.1 ∧
    (bytes "0123456789abcdef").get i ≠ ch '"' ∧ (bytes "0123456789abcdef").get i ≠ ch '\\' := by
  decide

theorem hexDigit_upper : ∀ i : Fin (bytes "0123456789ABCDEF").length,
    hexDigit ((bytes "0123456789ABCDEF").get i) = some i.1 ∧
    (bytes "0123456789ABCDEF").get i ≠ ch '"' ∧ (bytes "0123456789ABCDEF").get i ≠ ch '\\' := by
  decide

theorem HexDigit.spec {b : UInt8} (h : HexDigit b n) :
    hexDigit b = some n ∧ b ≠ ch '"' ∧ b ≠ ch '\\' := by
  cases h with
  | inl h =>
      obtain ⟨hn, rfl⟩ := List.getElem?_eq_some_iff.1 h
      exact hexDigit_lower ⟨n, hn⟩
  | inr h =>
      obtain ⟨hn, rfl⟩ := List.getElem?_eq_some_iff.1 h
      exact hexDigit_upper ⟨n, hn⟩

theorem Hex4.length_eq (h : Hex4 x n) : x.length = 4 := by
  cases h
  rfl

theorem Hex4.plain (h : Hex4 x n) : ∀ b ∈ x, b ≠ ch '"' ∧ b ≠ ch '\\' := by
  cases h with
  | digits ha hb hc hd =>
      intro b hb'
      simp only [List.mem_cons, List.not_mem_nil, or_false] at hb'
      rcases hb' with rfl | rfl | rfl | rfl
      · exact ha.spec.2
      · exact hb.spec.2
      · exact hc.spec.2
      · exact hd.spec.2

theorem hexRounds_digit {b : UInt8} {d h rounds : Nat} (hp : content.drop p = b :: rest)
    (hb : HexDigit b d) : hexRounds content h (rounds + 1) p =
      hexRounds content (if rounds = 0 then h + d else (h + d) <<< 4) rounds (p + 1) := by
  rw [hexRounds, getElem?_of_drop hp]
  simp [hb.spec.1]

theorem parse_hex4_eq (h : Hex4 x n) (hp : content.drop p = x ++ rest) :
    parse_hex4 content p = some n := by
  cases h with
  | digits ha hb hc hd =>
      have h1 := drop_succ hp
      have h2 := drop_succ h1
      have h3 := drop_succ h2
      rw [parse_hex4, hexRounds_digit hp ha, hexRounds_digit h1 hb, hexRounds_digit h2 hc,
        hexRounds_digit h3 hd, hexRounds]
      simp [Nat.shiftLeft_eq]

/-! ## UTF-8 -/

/-- A byte behind the first one has six bits of the code point. -/
theorem trail_eq : (n ||| 0x80) &&& 0xBF = n % 64 + 128 := by
  have hlt : n % 64 < 2 ^ 7 := by omega
  have hor := Nat.two_pow_add_eq_or_of_lt hlt 1
  rw [Nat.add_comm, show (128 : Nat) = 2 ^ 7 * 1 from rfl, hor]
  refine Nat.eq_of_testBit_eq fun i => ?_
  rw [show (64 : Nat) = 2 ^ 6 from rfl]
  simp only [Nat.testBit_and, Nat.testBit_or, Nat.testBit_mod_two_pow]
  by_cases hi : i < 8
  · interval_cases i <;> simp [Nat.testBit, Nat.shiftRight_eq_div_pow]
  · have h128 : (128).testBit i = false :=
      Nat.testBit_lt_two_pow (Nat.lt_of_lt_of_le (by decide) (Nat.pow_le_pow_right (n := 2)
        (by decide) (show 8 ≤ i by omega)))
    have h191 : (0xBF).testBit i = false :=
      Nat.testBit_lt_two_pow (Nat.lt_of_lt_of_le (by decide) (Nat.pow_le_pow_right (n := 2)
        (by decide) (show 8 ≤ i by omega)))
    simp [h128, h191, show ¬ i < 6 by omega]

theorem lead2_eq : ∀ m < 32, (m ||| 0xC0) &&& 0xFF = m + 0xC0 := by decide

theorem lead3_eq : ∀ m < 16, (m ||| 0xE0) &&& 0xFF = m + 0xE0 := by decide

theorem lead4_eq : ∀ m < 8, (m ||| 0xF0) &&& 0xFF = m + 0xF0 := by decide

/-- A character is encoded as the standard library encodes it. -/
theorem encodeUtf8_char (c : Char) :
    encodeUtf8 c.toNat = some (String.utf8EncodeChar c) := by
  have hvalid : c.toNat < 0x110000 := by
    rcases c.valid with h | h
    · exact Nat.lt_trans h (by decide)
    · exact h.2
  rw [encodeUtf8, String.utf8EncodeChar]
  simp only [show c.val.toNat = c.toNat from rfl]
  by_cases h1 : c.toNat < 0x80
  · rw [if_pos h1, if_pos (by omega)]
    have h7 : c.toNat &&& 0x7F = c.toNat := by
      have := Nat.and_two_pow_sub_one_eq_mod c.toNat 7
      exact this.trans (Nat.mod_eq_of_lt h1)
    simp [utf8Bytes, trailBytes, h7]
  rw [if_neg h1, if_neg (show ¬ c.toNat ≤ 0x7f by omega)]
  by_cases h2 : c.toNat < 0x800
  · rw [if_pos h2, if_pos (by omega)]
    simp only [utf8Bytes, trailBytes, Nat.shiftRight_eq_div_pow, trail_eq]
    rw [if_pos (by omega), lead2_eq _ (by omega)]
    simp only [show c.toNat / 2 ^ 6 = c.toNat / 64 from rfl]
    rw [Nat.mod_eq_of_lt (show c.toNat / 64 < 0x20 by omega)]
  rw [if_neg h2, if_neg (show ¬ c.toNat ≤ 0x7ff by omega)]
  by_cases h3 : c.toNat < 0x10000
  · rw [if_pos h3, if_pos (by omega)]
    simp only [utf8Bytes, trailBytes, Nat.shiftRight_eq_div_pow, trail_eq, Nat.div_div_eq_div_mul]
    rw [if_pos (by omega), lead3_eq _ (by omega)]
    simp only [show (2 ^ 6 : Nat) = 64 from rfl]
    rw [Nat.mod_eq_of_lt (show c.toNat / 4096 < 0x10 by omega)]
  · rw [if_neg h3, if_pos (by omega), if_neg (by omega)]
    simp only [utf8Bytes, trailBytes, Nat.shiftRight_eq_div_pow, trail_eq, Nat.div_div_eq_div_mul]
    rw [if_pos (by omega), lead4_eq _ (by omega)]
    simp only [show (2 ^ 6 : Nat) = 64 from rfl]
    rw [Nat.mod_eq_of_lt (show c.toNat / 262144 < 0x08 by omega)]

/-- The two halves of a pair, put together. -/
theorem surrogates_eq (h : 0x10000 ≤ n) (h' : n < 0x110000) :
    0x10000 + ((((0xD800 + (n - 0x10000) / 0x400) &&& 0x3FF) <<< 10) |||
      ((0xDC00 + (n - 0x10000) % 0x400) &&& 0x3FF)) = n := by
  have hhigh : (0xD800 + (n - 0x10000) / 0x400) &&& 0x3FF = (n - 0x10000) / 0x400 := by
    have := Nat.and_two_pow_sub_one_eq_mod (0xD800 + (n - 0x10000) / 0x400) 10
    exact this.trans (by omega)
  have hlow : (0xDC00 + (n - 0x10000) % 0x400) &&& 0x3FF = (n - 0x10000) % 0x400 := by
    have := Nat.and_two_pow_sub_one_eq_mod (0xDC00 + (n - 0x10000) % 0x400) 10
    exact this.trans (by omega)
  have hlt : (n - 0x10000) % 0x400 < 2 ^ 10 := by omega
  rw [hhigh, hlow, ← Nat.shiftLeft_add_eq_or_of_lt hlt, Nat.shiftLeft_eq]
  omega

/-! ## Escapes with a `u` -/

theorem utf16_literal_unicode {c : Char} (hc : c.toNat < 0x10000) (hx : Hex4 x c.toNat)
    (hp : content.drop p = ch '\\' :: ch 'u' :: x ++ rest) (hend : p + 6 ≤ input_end) :
    utf16_literal_to_utf8 content p input_end = some (some (String.utf8EncodeChar c, 6)) := by
  have hfirst := parse_hex4_eq hx (drop_succ (drop_succ hp))
  have hvalid : c.toNat < 0xD800 ∨ 0xDFFF < c.toNat := by
    rcases c.valid with h | h
    · exact .inl h
    · exact .inr h.1
  rw [utf16_literal_to_utf8, if_neg (by omega)]
  simp only [hfirst, Option.bind_eq_bind, Option.bind_some]
  rw [if_neg (by omega), if_neg (by omega), encodeUtf8_char]
  rfl

/-- A pair, by the numbers of its two halves. -/
theorem utf16_literal_pair {y : List UInt8} {a b : Nat} (hx : Hex4 x a) (hy : Hex4 y b)
    (ha : 0xD800 ≤ a ∧ a ≤ 0xDBFF) (hb : 0xDC00 ≤ b ∧ b ≤ 0xDFFF)
    (hp : content.drop p = ch '\\' :: ch 'u' :: x ++ (ch '\\' :: ch 'u' :: y ++ rest))
    (hend : p + 12 ≤ input_end) :
    utf16_literal_to_utf8 content p input_end =
      some ((encodeUtf8 (0x10000 + (((a &&& 0x3FF) <<< 10) ||| (b &&& 0x3FF)))).map
        fun bs => (bs, 12)) := by
  have hfirst := parse_hex4_eq hx (drop_succ (drop_succ hp))
  have h6 := drop_of_drop hp
  rw [List.length_cons, List.length_cons, hx.length_eq] at h6
  have h7 := drop_succ h6
  have hsecond := parse_hex4_eq hy (drop_succ h7)
  rw [utf16_literal_to_utf8, if_neg (by omega)]
  simp only [hfirst, Option.bind_eq_bind, Option.bind_some]
  rw [if_neg (by omega), if_pos ha, if_neg (by omega), getElem?_of_drop h6]
  simp only [Option.bind_some]
  rw [if_neg (by simp), getElem?_of_drop h7]
  simp only [Option.bind_some]
  rw [if_neg (by simp), hsecond]
  simp only [Option.bind_some]
  rw [if_neg (by omega)]
  rfl

theorem utf16_literal_surrogates {c : Char} {y : List UInt8} (hc : 0x10000 ≤ c.toNat)
    (hx : Hex4 x (0xD800 + (c.toNat - 0x10000) / 0x400))
    (hy : Hex4 y (0xDC00 + (c.toNat - 0x10000) % 0x400))
    (hp : content.drop p = ch '\\' :: ch 'u' :: x ++ (ch '\\' :: ch 'u' :: y ++ rest))
    (hend : p + 12 ≤ input_end) :
    utf16_literal_to_utf8 content p input_end = some (some (String.utf8EncodeChar c, 12)) := by
  have hvalid : c.toNat < 0x110000 := by
    rcases c.valid with h | h
    · exact Nat.lt_trans h (by decide)
    · exact h.2
  rw [utf16_literal_pair hx hy (by omega) (by omega) hp hend, surrogates_eq hc hvalid,
    encodeUtf8_char, Option.map_some]

/-! ## The two loops -/

theorem closingQuote_plains (h : ∀ b ∈ x, b ≠ ch '"' ∧ b ≠ ch '\\') :
    closingQuote (x ++ rest) = (closingQuote rest).map fun r => (r.1 + x.length, r.2) := by
  induction x with
  | nil => simp
  | cons b x ih =>
      have hb := h b List.mem_cons_self
      rw [List.cons_append, closingQuote_plain hb.1 hb.2,
        ih fun b hb => h b (List.mem_cons_of_mem _ hb), Option.map_map]
      rfl

theorem closingQuote_unicode (hx : Hex4 x n) :
    closingQuote (ch '\\' :: ch 'u' :: x ++ rest) =
      (closingQuote rest).map fun r => (r.1 + 6, r.2 + 1) := by
  rw [List.cons_append, List.cons_append, closingQuote_slash, closingQuote_plains hx.plain,
    Option.map_map, hx.length_eq]
  rfl

/-- The first loop stops at the quote behind the characters. -/
theorem closingQuote_chars (h : Chars s u) :
    ∃ k, closingQuote (u ++ ch '"' :: rest) = some (u.length, k) := by
  induction h with
  | nil => exact ⟨0, closingQuote_quote⟩
  | plain hctl hquote hslash _ ih =>
      obtain ⟨k, hk⟩ := ih
      exact ⟨k, by rw [List.cons_append, closingQuote_plain hquote hslash, hk]; rfl⟩
  | escape _ _ ih =>
      obtain ⟨k, hk⟩ := ih
      exact ⟨k + 1, by rw [List.cons_append, List.cons_append, closingQuote_slash, hk]; rfl⟩
  | unicode _ hx _ ih =>
      obtain ⟨k, hk⟩ := ih
      refine ⟨k + 1, ?_⟩
      rw [List.append_assoc, closingQuote_unicode hx, hk]
      simp only [Option.map_some, List.length_append, List.length_cons, hx.length_eq]
      congr 2
      omega
  | surrogates _ hx hy _ ih =>
      obtain ⟨k, hk⟩ := ih
      refine ⟨k + 2, ?_⟩
      rw [List.append_assoc, List.append_assoc, closingQuote_unicode hx, closingQuote_unicode hy,
        hk]
      simp only [Option.map_some, List.length_append, List.length_cons, hx.length_eq,
        hy.length_eq]
      congr 2
      omega

theorem of_append_bind {α : Type} {output bs : List UInt8} {f : List UInt8 → Option α} {r : α}
    (h : (append size output bs >>= f) = some r) : f (output ++ bs) = some r := by
  rw [Option.bind_eq_bind, Option.bind_eq_some_iff] at h
  obtain ⟨out, happ, hf⟩ := h
  rw [append] at happ
  split at happ
  · cases happ
    exact hf
  · cases happ

/-- One round of the second loop. -/
theorem unescapeLoop_round {fuel : Nat} {output : List UInt8} {r : Parsed (List UInt8)}
    (h : unescapeLoop content size input_end fuel p output = some r) (hp : p < input_end) :
    ∃ fuel', ∀ b, content[p]? = some b →
      (b ≠ ch '\\' → unescapeLoop content size input_end fuel' (p + 1) (output ++ [b]) = some r) ∧
      ∀ e, b = ch '\\' → content[p + 1]? = some e →
        (∀ bs n, e = ch 'u' → utf16_literal_to_utf8 content p input_end = some (some (bs, n)) →
          unescapeLoop content size input_end fuel' (p + n) (output ++ bs) = some r) ∧
        ∀ c, e ≠ ch 'u' → unescaped e = some c →
          unescapeLoop content size input_end fuel' (p + 2) (output ++ [c]) = some r := by
  cases fuel with
  | zero => rw [unescapeLoop, if_neg (by omega)] at h; cases h
  | succ fuel =>
      refine ⟨fuel, fun b hb => ?_⟩
      rw [unescapeLoop, if_neg (by omega), hb] at h
      simp only [Option.bind_eq_bind, Option.bind_some] at h
      refine ⟨fun hslash => ?_, fun e hslash he => ?_⟩
      · rw [if_pos hslash] at h
        exact of_append_bind h
      · rw [if_neg (by simpa using hslash), he] at h
        simp only [Option.bind_some] at h
        refine ⟨fun bs n hu hbs => ?_, fun c hu hc => ?_⟩
        · rw [if_pos hu, hbs] at h
          exact of_append_bind h
        · rw [if_neg hu, hc] at h
          exact of_append_bind h

theorem unescaped_of_mem {e b : UInt8} (h : (e, b) ∈ shortEscapes) :
    unescaped e = some b ∧ e ≠ ch 'u' := by
  simp only [shortEscapes, List.mem_cons, Prod.mk.injEq, List.not_mem_nil, or_false] at h
  rcases h with ⟨rfl, rfl⟩ | ⟨rfl, rfl⟩ | ⟨rfl, rfl⟩ | ⟨rfl, rfl⟩ | ⟨rfl, rfl⟩ | ⟨rfl, rfl⟩ |
    ⟨rfl, rfl⟩ | ⟨rfl, rfl⟩
  all_goals decide

/-- The second loop writes what the characters say, up to the quote. -/
theorem unescapeLoop_chars (h : Chars s u) : ∀ {fuel p : Nat} {output : List UInt8}
    {r : Parsed (List UInt8)}, content.drop p = u ++ rest → p + u.length = input_end →
      unescapeLoop content size input_end fuel p output = some r →
      r = .done (output ++ s) input_end := by
  induction h with
  | nil =>
      intro fuel p output r _ hend hr
      have hp : input_end ≤ p := by simpa using Nat.le_of_eq hend.symm
      have heq : unescapeLoop content size input_end fuel p output = some (.done output p) := by
        cases fuel <;> exact if_pos hp
      rw [heq] at hr
      cases hr
      simpa using hend
  | plain _ _ hslash _ ih =>
      intro fuel p output r hp hend hr
      rw [List.length_cons] at hend
      obtain ⟨fuel', hround⟩ := unescapeLoop_round hr (by omega)
      have hon := (hround _ (getElem?_of_drop hp)).1 hslash
      rw [ih (drop_succ hp) (by omega) hon, List.append_assoc]
      rfl
  | escape hmem _ ih =>
      intro fuel p output r hp hend hr
      rw [List.length_cons, List.length_cons] at hend
      obtain ⟨fuel', hround⟩ := unescapeLoop_round hr (by omega)
      have hp1 := drop_succ hp
      obtain ⟨hb, hu⟩ := unescaped_of_mem hmem
      have hon := ((hround _ (getElem?_of_drop hp)).2 _ rfl (getElem?_of_drop hp1)).2 _ hu hb
      rw [ih (drop_succ hp1) (by omega) hon, List.append_assoc]
      rfl
  | unicode hc hx _ ih =>
      intro fuel p output r hp hend hr
      have hlen := hx.length_eq
      simp only [List.length_append, List.length_cons] at hend
      obtain ⟨fuel', hround⟩ := unescapeLoop_round hr (by omega)
      rw [List.append_assoc] at hp
      have hlit := utf16_literal_unicode hc hx hp (show p + 6 ≤ input_end by omega)
      have hon := ((hround _ (getElem?_of_drop hp)).2 _ rfl
        (getElem?_of_drop (drop_succ hp))).1 _ _ rfl hlit
      have hdrop := drop_of_drop hp
      rw [List.length_cons, List.length_cons, hlen] at hdrop
      rw [ih hdrop (by omega) hon, List.append_assoc]
  | surrogates hc hx hy _ ih =>
      intro fuel p output r hp hend hr
      have hlen := hx.length_eq
      have hlen' := hy.length_eq
      simp only [List.length_append, List.length_cons] at hend
      obtain ⟨fuel', hround⟩ := unescapeLoop_round hr (by omega)
      rw [List.append_assoc, List.append_assoc] at hp
      have hlit := utf16_literal_surrogates hc hx hy hp (show p + 12 ≤ input_end by omega)
      have hon := ((hround _ (getElem?_of_drop hp)).2 _ rfl
        (getElem?_of_drop (drop_succ hp))).1 _ _ rfl hlit
      have hdrop := drop_of_drop (drop_of_drop hp)
      simp only [List.length_cons, hlen, hlen'] at hdrop
      rw [ih hdrop (by omega) hon, List.append_assoc]

/-! ## The literal -/

/-- Any literal: it has a result, the block is large enough, and the string
that comes out has no zero byte and ends behind a quote. -/
theorem parse_string_defined (hp : p < content.length) :
    ∃ r, parse_string content p = some r ∧ r.offset ≤ content.length ∧
      ∀ s q, r = .done s q → 0 ∉ s ∧ p + 2 ≤ q ∧ content[q - 1]? = some (ch '"') := by
  rw [parse_string, List.getElem?_eq_getElem hp]
  simp only [Option.bind_eq_bind, Option.bind_some]
  split
  · exact ⟨_, rfl, hp, fun s q h => by cases h⟩
  cases hq : closingQuote (content.drop (p + 1)) with
  | none => exact ⟨_, rfl, hp, fun s q h => by cases h⟩
  | some dk =>
      obtain ⟨distance, skipped_bytes⟩ := dk
      have hahead : Ahead content (p + 1 + distance) (p + 1) 0 skipped_bytes :=
        ⟨Nat.zero_le 1, by omega, by rw [hq]; congr 2; omega⟩
      have hcount := hahead.count_le
      have hend := hahead.end_lt
      have hsize : p + 1 + distance + 2 ≤
          p + 1 + distance - p - skipped_bytes + 1 + (p + 1) + skipped_bytes := by omega
      have hfuel : p + 1 + distance - (p + 1) ≤ distance := by omega
      have hempty : ([] : List UInt8).length + skipped_bytes + (p + 1) ≤
          p + 1 + skipped_bytes := by
        rw [List.length_nil]
        omega
      obtain ⟨r, hr, hoff, hroom⟩ := unescapeLoop_defined hsize hahead hfuel hempty
      simp only [hr, Option.bind_some]
      cases r with
      | failed q =>
          refine ⟨.failed q, rfl, ?_, fun s q h => by cases h⟩
          exact Nat.le_trans hoff hend
      | done out q =>
          have hout := hroom out q rfl
          simp only [append_eq (show out.length + [(0 : UInt8)].length ≤ _ from hout),
            Option.bind_some]
          have hstr : str (out ++ [0]) = some ((out ++ [0]).takeWhile fun b => b ≠ 0) :=
            if_pos (by simp)
          rw [hstr]
          refine ⟨_, rfl, hend, fun s q h => ?_⟩
          cases h
          exact ⟨not_mem_of_str hstr, by omega, hahead.end_eq⟩

/-- A literal of the standard says what it says. -/
theorem parse_string_text (h : StringText s t) (hp : content.drop p = t ++ rest) :
    parse_string content p = some (.done s (p + t.length)) := by
  obtain ⟨u, hu, rfl⟩ := h.chars
  have hp' : content.drop p = ch '"' :: (u ++ ch '"' :: rest) := by
    rw [hp]
    simp
  have hlt : p < content.length := by
    by_contra hge
    rw [List.drop_eq_nil_of_le (by omega)] at hp'
    cases hp'
  obtain ⟨k, hk⟩ : ∃ k, closingQuote (u ++ ch '"' :: rest) = some (u.length, k) :=
    closingQuote_chars hu
  obtain ⟨r, hr, -⟩ := parse_string_defined hlt
  have hres := hr
  rw [parse_string, getElem?_of_drop hp'] at hr
  simp only [Option.bind_eq_bind, Option.bind_some] at hr
  rw [if_neg (by simp), drop_succ hp', hk] at hr
  simp only [Option.bind_eq_some_iff] at hr
  obtain ⟨r', hloop, hr⟩ := hr
  have hchars := unescapeLoop_chars hu (drop_succ hp') rfl hloop
  subst hchars
  simp only [List.nil_append] at hr
  have hr := of_append_bind hr
  rw [str_append_zero h.zero] at hr
  cases hr
  rw [hres]
  simp only [List.length_append, List.length_cons, List.length_nil]
  congr 2
  omega

end IotCamera
