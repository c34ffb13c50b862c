import IotCamera.Proofs.JsonCut

/-!
# Whole texts

`cJSON_ParseWithOpts` is the parser with a start and an end: a mark and white
space are skipped in front of the value, and behind it either anything may
follow or only white space. So there are three things to say of it. It comes to
an end on any text, and leaves off in the text; it reads every JSON text as
what it says; and what it says of a text depends on no more of it than the
value takes up.
-/

namespace IotCamera

open CString

variable {D : Type} {dbl : Doubles D} {n : Nat} {t w cut : List UInt8}

/-! ## Reading a whole text -/

variable {value rest bom content : List UInt8} {p : Nat} {v : CJson D}

theorem terminated_append_zero : Terminated (value ++ [0]) := by
  simp [Terminated]

theorem skip_bom_lt : skip_utf8_bom (value ++ [0]) < (value ++ [0]).length := by
  rw [skip_utf8_bom]
  split
  · omega
  · simp

/-- The value is read from where the mark and the white space end. -/
theorem start_sound (dbl : Doubles D) (value : List UInt8) :
    Sound (value ++ [0]) (Printable CJSON_NESTING_LIMIT)
      (buffer_skip_whitespace (value ++ [0]) (skip_utf8_bom (value ++ [0])))
      (parse_value (value ++ [0]) dbl CJSON_NESTING_LIMIT
        (buffer_skip_whitespace (value ++ [0]) (skip_utf8_bom (value ++ [0])))) :=
  parse_value_sound terminated_append_zero (le_skip_whitespace skip_bom_lt).2

/-- Whatever the text is, there is a result. What it reports is in the text or
at its end. -/
theorem parseWithOpts_exists (dbl : Doubles D) (value : List UInt8) (req : Bool) :
    ∃ r, cJSON_ParseWithOpts dbl value req = some r ∧ r.2 ≤ value.length := by
  have hlen : (value ++ [0]).length = value.length + 1 := by simp
  obtain ⟨x, hx, -, hdone⟩ := start_sound dbl value
  rw [cJSON_ParseWithOpts]
  simp only [Option.bind_eq_bind, hx, Option.bind_some, Option.pure_def]
  -- what a failure reports
  have hfail : ∀ q, (if q < (value ++ [0]).length then q else (value ++ [0]).length - 1) ≤
      value.length := by
    intro q
    split <;> omega
  cases x with
  | failed q => exact ⟨_, rfl, hfail q⟩
  | done item q =>
      obtain ⟨-, -, hqlt⟩ := hdone item q rfl
      cases req with
      | false => exact ⟨_, rfl, by simp only; omega⟩
      | true =>
          have hskip := le_skip_whitespace hqlt
          simp only [if_true]
          split
          · exact ⟨_, rfl, by simp only; omega⟩
          · exact ⟨_, rfl, hfail _⟩

/-- An item that is reported is the value, and if nothing may follow it then
what is reported with it is a zero byte. -/
theorem parseWithOpts_done {req : Bool} {item : CJson D} {stop : Nat}
    (h : cJSON_ParseWithOpts dbl value req = some (some item, stop)) :
    (∃ q, parse_value (value ++ [0]) dbl CJSON_NESTING_LIMIT
      (buffer_skip_whitespace (value ++ [0]) (skip_utf8_bom (value ++ [0]))) =
        some (.done item q)) ∧
      (req = true → (value ++ [0])[stop]? = some 0) := by
  rw [cJSON_ParseWithOpts] at h
  obtain ⟨x, hx, h⟩ := Option.bind_eq_some_iff.1 h
  rw [hx]
  cases x with
  | failed q => cases h
  | done item' q =>
      cases req with
      | false =>
          cases h
          exact ⟨⟨_, rfl⟩, nofun⟩
      | true =>
          simp only [if_true] at h
          split at h
          · next hzero =>
              cases h
              exact ⟨⟨_, rfl⟩, fun _ => hzero⟩
          · cases h

theorem parseWithOpts_printable {req : Bool} {item : CJson D} {stop : Nat}
    (h : cJSON_ParseWithOpts dbl value req = some (some item, stop)) :
    Printable CJSON_NESTING_LIMIT item := by
  obtain ⟨⟨q, hq⟩, -⟩ := parseWithOpts_done h
  obtain ⟨x, hx, -, hdone⟩ := start_sound dbl value
  rw [hq] at hx
  cases hx
  exact (hdone item q rfl).1

/-- A text that begins with a value does not begin with a mark. -/
theorem skip_bom_text (hbom : bom = [] ∨ bom = [0xEF, 0xBB, 0xBF]) (hw : Ws w) (ht : Begins t)
    (hp : content = bom ++ (w ++ (t ++ (rest ++ [0])))) : skip_utf8_bom content = bom.length := by
  obtain ⟨b, t', rfl, -, hascii, -, -⟩ := ht
  rw [skip_utf8_bom]
  cases hbom with
  | inl h =>
      subst h
      rw [if_neg]
      · rfl
      intro hmark
      have hhead : content.head? = some 0xEF := by
        have hdrop := List.take_append_drop 3 content
        rw [hmark.2] at hdrop
        rw [← hdrop]
        rfl
      rw [hp] at hhead
      cases w with
      | nil =>
          have heq : b = 0xEF := Option.some.inj hhead
          subst heq
          exact absurd hascii (by decide)
      | cons a w =>
          have heq : a = 0xEF := Option.some.inj hhead
          subst heq
          exact absurd (hw _ List.mem_cons_self) (by decide)
  | inr h =>
      subst h
      rw [if_pos]
      · rfl
      refine ⟨?_, by rw [hp]; rfl⟩
      rw [hp]
      simp
      omega

theorem Stops.zero (h : Stops rest) : Stops (rest ++ [0]) := by
  have hcut : Stops (rest.take rest.length ++ [0]) := h.short
  rwa [List.take_length] at hcut

theorem Ws.stops_end (hw : Ws w) : Stops w := by
  cases w with
  | nil => intro b hb; cases hb
  | cons a w =>
      intro b hb
      cases hb
      exact (whiteSpace_le (hw a List.mem_cons_self)).2

/-- White space up to the end of the text. -/
theorem skip_whitespace_end (hw : Ws w) (hp : content.drop p = w ++ [0]) :
    buffer_skip_whitespace content p = p + w.length := by
  have htake : ((content.drop p).takeWhile fun b => b ≤ 32) = w ++ [0] := by
    rw [hp, List.takeWhile_append_of_pos fun b hb => by simpa using (whiteSpace_le (hw b hb)).1]
    rfl
  have hlen : content.length - p = w.length + 1 := by
    rw [← List.length_drop, hp, List.length_append, List.length_singleton]
  rw [buffer_skip_whitespace, htake, List.length_append, List.length_singleton,
    if_pos (by omega)]
  omega

/-- A text with a mark and white space in front of it is read up to its end. -/
theorem parse_value_start (hbom : bom = [] ∨ bom = [0xEF, 0xBB, 0xBF]) (hw : Ws w)
    (ht : Value dbl CJSON_NESTING_LIMIT v t) (hstop : Stops rest) :
    parse_value (bom ++ w ++ t ++ rest ++ [0]) dbl CJSON_NESTING_LIMIT
      (buffer_skip_whitespace (bom ++ w ++ t ++ rest ++ [0])
        (skip_utf8_bom (bom ++ w ++ t ++ rest ++ [0]))) =
        some (.done v (bom ++ w ++ t).length) ∧
      (bom ++ w ++ t ++ rest ++ [0]).drop (bom ++ w ++ t).length = rest ++ [0] := by
  have hp : bom ++ w ++ t ++ rest ++ [0] = bom ++ (w ++ (t ++ (rest ++ [0]))) := by simp
  have hbegin := ht.begins
  rw [skip_bom_text hbom hw hbegin hp]
  generalize bom ++ w ++ t ++ rest ++ [0] = content at hp
  obtain ⟨b, t', rfl, hb, -⟩ := hbegin
  have hdrop : content.drop bom.length = w ++ b :: (t' ++ (rest ++ [0])) := by
    rw [hp, List.drop_left]
    rfl
  have hdrop' : content.drop (bom.length + w.length) = b :: t' ++ (rest ++ [0]) :=
    drop_of_drop hdrop
  rw [skip_whitespace_eq hw hb hdrop, parse_value_text ht hdrop' hstop.zero]
  have hrest := drop_of_drop hdrop'
  rw [← List.length_append, ← List.length_append] at hrest ⊢
  exact ⟨rfl, hrest⟩

/-- Anything may follow that does not go on like a number. -/
theorem parseWithOpts_front (hbom : bom = [] ∨ bom = [0xEF, 0xBB, 0xBF]) (hw : Ws w)
    (ht : Value dbl CJSON_NESTING_LIMIT v t) (hstop : Stops rest) :
    cJSON_ParseWithOpts dbl (bom ++ w ++ t ++ rest) false =
      some (some v, (bom ++ w ++ t).length) := by
  rw [cJSON_ParseWithOpts]
  simp only [Option.bind_eq_bind, (parse_value_start hbom hw ht hstop).1, Option.bind_some]
  rfl

/-- Only white space may follow. -/
theorem parseWithOpts_whole (hbom : bom = [] ∨ bom = [0xEF, 0xBB, 0xBF]) (hw : Ws w)
    (ht : Value dbl CJSON_NESTING_LIMIT v t) (hws : Ws rest) :
    cJSON_ParseWithOpts dbl (bom ++ w ++ t ++ rest) true =
      some (some v, (bom ++ w ++ t ++ rest).length) := by
  obtain ⟨hval, hdrop⟩ := parse_value_start hbom hw ht hws.stops_end
  have hskip := skip_whitespace_end hws hdrop
  have hend := getElem?_of_drop (drop_of_drop hdrop)
  rw [cJSON_ParseWithOpts]
  simp only [Option.bind_eq_bind, hval, Option.bind_some, hskip, hend, if_true]
  rw [show (bom ++ w ++ t ++ rest).length = (bom ++ w ++ t).length + rest.length from
    List.length_append]
  rfl

/-! ## A whole text that is cut off -/

/-- Where the value begins. -/
theorem cJSON_Parse_eq : cJSON_Parse dbl value =
    (parse_value (value ++ [0]) dbl CJSON_NESTING_LIMIT
      (buffer_skip_whitespace (value ++ [0]) (skip_utf8_bom (value ++ [0])))).bind fun r =>
        match r with
        | .failed _ => none
        | .done item q => some (item, q) := by
  rw [cJSON_Parse, cJSON_ParseWithOpts]
  simp only [Option.bind_eq_bind]
  cases parse_value (value ++ [0]) dbl CJSON_NESTING_LIMIT
    (buffer_skip_whitespace (value ++ [0]) (skip_utf8_bom (value ++ [0]))) with
  | none => rfl
  | some r => cases r <;> rfl

/-- A mark that is cut off is not one. -/
theorem skip_bom_cut (hcut : CutAt content cut n) :
    skip_utf8_bom cut = skip_utf8_bom content ∧ skip_utf8_bom content ≤ n ∨
      n < 4 ∧ skip_utf8_bom content = 3 ∧ skip_utf8_bom cut = 0 ∧
        (n = 0 ∨ cut[0]? = some 0xEF) := by
  have hlt := hcut.lt
  have hlen := hcut.length_eq
  by_cases hn : n < 4
  · have hzero : skip_utf8_bom cut = 0 := by
      rw [skip_utf8_bom, if_neg (by omega)]
    by_cases hmark : 4 < content.length ∧ content.take 3 = [0xEF, 0xBB, 0xBF]
    · refine .inr ⟨hn, by rw [skip_utf8_bom, if_pos hmark], hzero, ?_⟩
      by_cases hn0 : n = 0
      · exact .inl hn0
      · have hfirst : (content.take 3)[0]? = some 0xEF := by rw [hmark.2]; rfl
        rw [List.getElem?_take_of_lt (by decide)] at hfirst
        exact .inr ((hcut.getElem? (by omega)).trans hfirst)
    · rw [hzero, skip_utf8_bom, if_neg hmark]
      exact .inl ⟨rfl, Nat.zero_le n⟩
  · have htake : cut.take 3 = content.take 3 := by
      rw [hcut.eq, List.take_append_of_le_length (by rw [List.length_take]; omega),
        List.take_take, Nat.min_eq_left (by omega)]
    rw [skip_utf8_bom, skip_utf8_bom, htake]
    by_cases hmark : content.take 3 = [0xEF, 0xBB, 0xBF]
    · rw [if_pos ⟨by omega, hmark⟩, if_pos ⟨by omega, hmark⟩]
      exact .inl ⟨rfl, by omega⟩
    · rw [if_neg fun h => hmark h.2, if_neg fun h => hmark h.2]
      exact .inl ⟨rfl, Nat.zero_le n⟩

/-- A text is decided by what is in front of the end of its value, unless that
is a number. -/
theorem cJSON_Parse_cut {item : CJson D} {stop : Nat} (hitem : ¬ IsNumber item)
    (h : cJSON_Parse dbl value = some (item, stop)) (n : Nat) :
    cJSON_Parse dbl (value.take n) = if stop ≤ n then some (item, stop) else none := by
  have hlen : (value ++ [0]).length = value.length + 1 := by simp
  rw [cJSON_Parse_eq] at h
  obtain ⟨r, hr, heq⟩ := Option.bind_eq_some_iff.1 h
  cases r with
  | failed e => cases heq
  | done item' q =>
      cases heq
      have hskip := le_skip_whitespace (@skip_bom_lt value)
      obtain ⟨x, hx, -, hdone⟩ := start_sound dbl value
      rw [hr] at hx
      cases hx
      obtain ⟨-, hq, hqlt⟩ := hdone item stop rfl
      rw [cJSON_Parse_eq]
      by_cases hall : value.length ≤ n
      · rw [List.take_of_length_le hall, hr, if_pos (by omega)]
        rfl
      have hcut : CutAt (value ++ [0]) (value.take n ++ [0]) n :=
        ⟨by omega, by rw [List.take_append_of_le_length (by omega)]⟩
      -- at the cut no value begins
      have hend : parse_value (value.take n ++ [0]) dbl CJSON_NESTING_LIMIT n =
          some (.failed n) := parse_value_failed hcut.zero (.inl rfl)
      rcases skip_bom_cut hcut with ⟨heq, hle⟩ | ⟨hn, hmark, hzero, hbyte⟩
      · rw [heq, hcut.skip hle]
        by_cases hs : n ≤ buffer_skip_whitespace (value ++ [0]) (skip_utf8_bom (value ++ [0]))
        · rw [Nat.min_eq_right hs, hend, if_neg (by omega)]
          rfl
        · rw [Nat.min_eq_left (by omega)]
          have hread := parse_value_cut terminated_append_zero hcut _ _ _ (Nat.lt_of_not_le hs) hr
            fun h => absurd h hitem
          split at hread
          · next hstop =>
              rw [hread, if_pos hstop]
              rfl
          · next hstop =>
              obtain ⟨x, hx, hlost⟩ := hread
              rw [hx, if_neg hstop]
              cases x with
              | failed e => rfl
              | done item' q' => exact absurd (hlost item' q' rfl).1 hitem
      · rw [hzero, if_neg (by omega)]
        cases hbyte with
        | inl hn0 =>
            subst hn0
            rw [hcut.skip_end, hend]
            rfl
        | inr hbyte =>
            rw [skip_nothing hbyte (by decide), parse_value_failed hbyte (.inr rfl)]
            rfl

/-! ## What is read -/

/-- The parser has a result on any text, leaves off in the text, and makes
items nested no deeper than the limit, of C strings. If nothing may follow the
value then what it leaves off at is a zero byte. -/
theorem parse_any_text (dbl : Doubles D) (value : List UInt8) (require_null_terminated : Bool) :
    ∃ r, cJSON_ParseWithOpts dbl value require_null_terminated = some r ∧ r.2 ≤ value.length ∧
      ∀ item, r.1 = some item → Printable CJSON_NESTING_LIMIT item ∧
        (require_null_terminated = true → (value ++ [0])[r.2]? = some 0) := by
  obtain ⟨⟨found, stop⟩, hr, hle⟩ := parseWithOpts_exists dbl value require_null_terminated
  refine ⟨_, hr, hle, fun item hitem => ?_⟩
  cases hitem
  exact ⟨parseWithOpts_printable hr, (parseWithOpts_done hr).2⟩

/-- A JSON text is read as what it says, with a mark and white space in front
of it, and behind it whatever does not go on like a number, or white space and
nothing more. -/
theorem parse_json_text (dbl : Doubles D) (bom w t rest : List UInt8) (v : CJson D)
    (hbom : bom = [] ∨ bom = [0xEF, 0xBB, 0xBF]) (hw : Ws w)
    (ht : Value dbl CJSON_NESTING_LIMIT v t) :
    (Stops rest → cJSON_ParseWithOpts dbl (bom ++ w ++ t ++ rest) false =
      some (some v, (bom ++ w ++ t).length)) ∧
    (Ws rest → cJSON_ParseWithOpts dbl (bom ++ w ++ t ++ rest) true =
      some (some v, (bom ++ w ++ t ++ rest).length)) :=
  ⟨parseWithOpts_front hbom hw ht, parseWithOpts_whole hbom hw ht⟩

theorem Value.scalar {v : CJson D} (h : ∀ Inner, ValueText dbl Inner v t) : Value dbl n v t := by
  cases n with
  | zero => exact h none
  | succ n => exact h _

/-- `[7]` -/
theorem seven_value : Value oneDigit CJSON_NESTING_LIMIT
    (.array [.number ⟨ch '7', rfl⟩]) (bytes "[7]") := by
  have hseven : Value oneDigit 999 (.number ⟨ch '7', rfl⟩) [ch '7'] := by
    obtain ⟨d, hd⟩ := oneDigit_exact.legible ⟨ch '7', rfl⟩ rfl 15 (.inl rfl)
    have heq := hd.read
    rw [show oneDigit.sprintf 15 ⟨ch '7', rfl⟩ = [ch '7'] from rfl] at heq hd
    rw [oneDigit_strtod ⟨ch '7', rfl⟩] at heq
    cases heq
    exact Value.scalar fun _ => .number hd
  exact ValueText.array rfl (.inr (.last ws_nil hseven ws_nil))

theorem parse_json_text_seven : cJSON_ParseWithOpts oneDigit
    ([0xEF, 0xBB, 0xBF] ++ bytes " " ++ bytes "[7]" ++ bytes "  ") true =
      some (some (.array [.number ⟨ch '7', rfl⟩]), 9) :=
  (parse_json_text oneDigit _ _ _ _ _ (.inr rfl) (by simp [Ws, whiteSpace, bytes]) seven_value).2
    (by simp [Ws, whiteSpace, bytes])

/-- Cutting a text off behind its value changes nothing, and cutting it off
anywhere before leaves nothing to be read, unless the value is a number. -/
theorem parse_cut_text (dbl : Doubles D) (value : List UInt8) (item : CJson D) (stop : Nat)
    (h : cJSON_Parse dbl value = some (item, stop)) (hitem : ∀ d, item ≠ .number d) (n : Nat) :
    cJSON_Parse dbl (value.take n) = if stop ≤ n then some (item, stop) else none := by
  refine cJSON_Parse_cut (fun hnum => ?_) h n
  cases item with
  | number d => exact hitem d rfl
  | _ => exact hnum

theorem parse_cut_text_seven :
    cJSON_Parse oneDigit ((bytes "[7] ").take 2) = none ∧
      cJSON_Parse oneDigit ((bytes "[7] ").take 3) =
        some (.array [.number ⟨ch '7', rfl⟩], 3) := by
  have hstop : Stops (bytes " ") := by
    intro b hb
    cases hb
    decide
  have hread := parseWithOpts_front (.inl rfl) ws_nil seven_value hstop
  have hparse : cJSON_Parse oneDigit (bytes "[7] ") =
      some (.array [.number ⟨ch '7', rfl⟩], 3) := by
    rw [cJSON_Parse, show cJSON_ParseWithOpts oneDigit (bytes "[7] ") false = _ from hread]
    rfl
  have hcut := parse_cut_text oneDigit (bytes "[7] ") _ 3 hparse (fun d h => by cases h)
  exact ⟨hcut 2, hcut 3⟩

end IotCamera
