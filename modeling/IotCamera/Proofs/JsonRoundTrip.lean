import IotCamera.Proofs.JsonPrinted
import IotCamera.Proofs.JsonWhole

/-!
# Printed and read again

What is printed is a JSON text of the item it was printed of, up to its
numbers. The walk is over the item; the white space of a formatted print is
where the language allows white space, which the brackets and commas have to
be told one by one, and the rest is that of the strings: every escape the
printer writes is one of the language's.

The parser then is total, reads every JSON text, whatever stands around it,
and reads what was printed.
-/

namespace IotCamera

open CString

variable {D : Type} {dbl : Doubles D} {format : Bool} {depth n : Nat} {s t u w w' : List UInt8}

/-! ## A print is a JSON text -/

theorem hexDigit_hexChar {k : Nat} (h : k < 16) : HexDigit (hexChar k) k := by
  have hall : ∀ k < 16, (bytes "0123456789abcdef")[k]? = some (hexChar k) := by decide
  exact .inl (hall k h)

/-- The control characters are characters. -/
theorem utf8EncodeChar_control : ∀ k < 32, (Char.ofNat k).toNat = k ∧
    String.utf8EncodeChar (Char.ofNat k) = [UInt8.ofNat k] := by
  decide

/-- Every escape is one of the language's. -/
theorem chars_escaped {b : UInt8} (h : Chars s t) : Chars (b :: s) (escaped b ++ t) := by
  rw [escaped]
  split
  · next hplain => exact .plain hplain.1 hplain.2.1 hplain.2.2 h
  · next hplain =>
      split
      · next hb => subst hb; exact .escape (by decide) h
      · next hslash =>
      split
      · next hb => subst hb; exact .escape (by decide) h
      · next hquote =>
      split
      · next hb => subst hb; exact .escape (by decide) h
      split
      · next hb => subst hb; exact .escape (by decide) h
      split
      · next hb => subst hb; exact .escape (by decide) h
      split
      · next hb => subst hb; exact .escape (by decide) h
      split
      · next hb => subst hb; exact .escape (by decide) h
      · have hctl : b.toNat < 32 := by
          have hle : ¬ 31 < b := fun hlt => hplain ⟨hlt, hquote, hslash⟩
          rw [UInt8.lt_iff_toNat_lt] at hle
          exact Nat.lt_succ_of_le (Nat.not_lt.1 hle)
        obtain ⟨hc, hutf⟩ := utf8EncodeChar_control b.toNat hctl
        rw [UInt8.ofNat_toNat] at hutf
        have hx : Hex4 [ch '0', ch '0', hexChar (b.toNat / 16), hexChar (b.toNat % 16)]
            (((0 * 16 + 0) * 16 + b.toNat / 16) * 16 + b.toNat % 16) :=
          .digits (.inl rfl) (.inl rfl) (hexDigit_hexChar (by omega)) (hexDigit_hexChar (by omega))
        have hnum : ((0 * 16 + 0) * 16 + b.toNat / 16) * 16 + b.toNat % 16 =
            (Char.ofNat b.toNat).toNat := by omega
        rw [hnum] at hx
        have hlt : (Char.ofNat b.toNat).toNat < 0x10000 := by omega
        have huni := Chars.unicode hlt hx h
        rwa [hutf] at huni

theorem stringText_quoted (h : 0 ∉ s) : StringText s (quoted s) := by
  refine ⟨h, s.flatMap escaped, ?_, rfl⟩
  clear h
  induction s with
  | nil => exact .nil
  | cons b s ih => exact chars_escaped ih

theorem numeral_value {Inner : Option (CJson D → List UInt8 → Prop)} {d : D}
    (hlegible : dbl.Legible) :
    ValueText dbl Inner ((CJson.number d).reread dbl) (numeral dbl d) := by
  rw [CJson.reread]
  rcases numeral_cases dbl d with ⟨hfinite, htext⟩ | ⟨hfinite, hprint⟩
  · rw [if_pos hfinite, htext]
    exact .null
  · have hnumeral : ∃ d', Numeral dbl d' (numeral dbl d) := by
      rcases hprint with h | ⟨h, -⟩ <;> rw [h]
      · exact hlegible d hfinite 17 (.inr rfl)
      · exact hlegible d hfinite 15 (.inl rfl)
    obtain ⟨d', hnumeral⟩ := hnumeral
    have hd : dbl.reread d = d' := by rw [Doubles.reread, hnumeral.read]
    rw [hfinite, if_neg Bool.noConfusion, hd]
    exact .number hnumeral

theorem Ws.append (h : Ws w) (h' : Ws w') : Ws (w ++ w') := fun b hb =>
  (List.mem_append.1 hb).elim (h b) (h' b)

theorem ws_formatted (format : Bool) (h : Ws w) : Ws (formatted format w) := by
  cases format with
  | true => exact h
  | false => exact ws_nil

theorem ws_tabs : Ws (tabs n) := by
  intro b hb
  rw [List.eq_of_mem_replicate hb]
  decide

theorem ws_newline : Ws [10] := by simp [Ws, whiteSpace]

theorem ws_tab : Ws [9] := by simp [Ws, whiteSpace]

theorem ws_space : Ws [ch ' '] := by simp [Ws, whiteSpace]

variable {R : CJson D → List UInt8 → Prop}

/-- Elements with white space in front of them. -/
theorem elements_separated {child : List (CJson D)} (hne : child ≠ [])
    (h : ∀ item ∈ child, R (item.reread dbl) (text dbl format depth item)) : ∀ {w : List UInt8}, Ws w →
    Separated R (CJson.rereadElements dbl child) (w ++ textElements dbl format depth child) := by
  induction child with
  | nil => exact absurd rfl hne
  | cons item next ih =>
      intro w hw
      have hitem := h item List.mem_cons_self
      rw [CJson.rereadElements, textElements]
      cases next with
      | nil =>
          have hlast := Separated.last hw hitem ws_nil
          rw [CJson.rereadElements, textElements]
          simpa using hlast
      | cons item' next =>
          have hnext := ih (List.cons_ne_nil _ _) (fun i hi => h i (List.mem_cons_of_mem item hi))
            (ws_formatted format ws_space)
          have hcons := Separated.cons hw hitem ws_nil hnext
          simpa using hcons

/-- Members with white space on both sides of them. -/
theorem members_separated {child : List (List UInt8 × CJson D)} (hne : child ≠ [])
    (hzero : ∀ m ∈ child, 0 ∉ m.1)
    (h : ∀ m ∈ child, R (m.2.reread dbl) (text dbl format depth m.2)) (hw' : Ws w') :
    ∀ {w : List UInt8}, Ws w → Separated (MemberText R) (CJson.rereadMembers dbl child)
      (w ++ textMembers dbl format depth child ++ w') := by
  induction child with
  | nil => exact absurd rfl hne
  | cons m next ih =>
      intro w hw
      have hitem := h m List.mem_cons_self
      have hname := stringText_quoted (hzero m List.mem_cons_self)
      have hmember : MemberText R (m.1, m.2.reread dbl)
          (quoted m.1 ++ [] ++ ch ':' :: formatted format [9] ++ text dbl format depth m.2) :=
        .mk hname ws_nil (ws_formatted format ws_tab) hitem
      have hlead : Ws (w ++ formatted format (tabs depth)) := hw.append (ws_formatted format ws_tabs)
      have hnl : Ws (formatted format [10]) := ws_formatted format ws_newline
      obtain ⟨string, item⟩ := m
      rw [CJson.rereadMembers, textMembers]
      cases next with
      | nil =>
          have hlast := Separated.last hlead hmember (hnl.append hw')
          rw [CJson.rereadMembers, textMembers]
          simpa using hlast
      | cons m' next =>
          have hnext := ih (List.cons_ne_nil _ _)
            (fun m hm => hzero m (List.mem_cons_of_mem _ hm))
            (fun m hm => h m (List.mem_cons_of_mem _ hm)) hnl
          have hcons := Separated.cons hlead hmember ws_nil hnext
          simpa using hcons

/-- What is printed of an item is a JSON text, of the item as it is read
again. -/
theorem text_value {item : CJson D} (hlegible : dbl.Legible) (h : Printable n item) :
    ∀ depth, Value dbl n (item.reread dbl) (text dbl format depth item) := by
  induction h with
  | null => intro depth; rw [CJson.reread, text]; exact .scalar fun _ => .null
  | false => intro depth; rw [CJson.reread, text]; exact .scalar fun _ => .false
  | true => intro depth; rw [CJson.reread, text]; exact .scalar fun _ => .true
  | number => intro depth; rw [text]; exact .scalar fun _ => numeral_value hlegible
  | string hzero =>
      intro depth
      rw [CJson.reread, text]
      exact .scalar fun _ => .string (stringText_quoted hzero)
  | @array n child hchild ih =>
      intro depth
      rw [CJson.reread, text]
      refine ValueText.array rfl ?_
      cases child with
      | nil => exact .inl ⟨rfl, ws_nil⟩
      | cons item next =>
          exact .inr (elements_separated (List.cons_ne_nil _ _)
            (fun item hitem => ih item hitem (depth + 1)) ws_nil)
  | @object n child hzero hchild ih =>
      intro depth
      rw [CJson.reread, text]
      have hopen : Ws (formatted format [10]) := ws_formatted format ws_newline
      have hend : Ws (formatted format (tabs depth)) := ws_formatted format ws_tabs
      refine ValueText.object rfl ?_
      cases child with
      | nil =>
          have hws := hopen.append hend
          exact .inl ⟨rfl, by simpa [textMembers] using hws⟩
      | cons m next =>
          exact .inr (members_separated (List.cons_ne_nil _ _) hzero
            (fun m hm => ih m hm (depth + 1)) hend hopen)

/-! ## Printed twice -/

theorem numeral_reread {d : D} (hexact : dbl.Exact) (hfinite : dbl.notFinite d = false) :
    dbl.notFinite (dbl.reread d) = false ∧ numeral dbl (dbl.reread d) = numeral dbl d := by
  rcases numeral_cases dbl d with ⟨hinf, -⟩ | ⟨-, htext | ⟨htext, test, htest, hcompare⟩⟩
  · rw [hfinite] at hinf
    cases hinf
  · -- seventeen digits say the number itself
    obtain ⟨k, hread⟩ := hexact.digits17 d hfinite
    have hd : dbl.reread d = d := by rw [Doubles.reread, htext, hread]
    rw [hd]
    exact ⟨hfinite, rfl⟩
  · -- fifteen are printed again
    rw [hexact.sscanf_eq 15 d hfinite] at htest
    obtain ⟨⟨d', k⟩, hread, heq⟩ := Option.map_eq_some_iff.1 htest
    cases heq
    have hd : dbl.reread d = d' := by rw [Doubles.reread, htext, hread]
    have hfinite' := hexact.finite_of_compare d' d hcompare hfinite
    have hprint := hexact.digits15 d d' k hfinite hread hfinite'
    have hscan : dbl.sscanf (dbl.sprintf 15 d') = some d' := by
      rw [hprint, hexact.sscanf_eq 15 d hfinite, hread]
      rfl
    rw [hd, htext]
    refine ⟨hfinite', ?_⟩
    rw [numeral, hfinite', if_neg Bool.noConfusion, hscan]
    simp only [hexact.compare_refl d' hfinite', if_true]
    exact hprint

mutual

/-- What is printed of an item as it is read again is what was printed. -/
theorem text_reread (hexact : dbl.Exact) (depth : Nat) (item : CJson D) :
    text dbl format depth (item.reread dbl) = text dbl format depth item := by
  cases item with
  | null => rw [CJson.reread]
  | false => rw [CJson.reread]
  | true => rw [CJson.reread]
  | string s => rw [CJson.reread]
  | number d =>
      rw [CJson.reread]
      cases hfinite : dbl.notFinite d with
      | true =>
          rw [if_pos rfl, text, text, numeral, if_pos hfinite]
      | false =>
          rw [if_neg Bool.noConfusion, text, text, (numeral_reread hexact hfinite).2]
  | array child =>
      rw [CJson.reread, text, text, textElements_reread hexact]
  | object child =>
      rw [CJson.reread, text, text, textMembers_reread hexact]

theorem textElements_reread (hexact : dbl.Exact) (depth : Nat) (child : List (CJson D)) :
    textElements dbl format depth (CJson.rereadElements dbl child) =
      textElements dbl format depth child := by
  cases child with
  | nil => rw [CJson.rereadElements]
  | cons item next =>
      have hempty : (CJson.rereadElements dbl next).isEmpty = next.isEmpty := by
        cases next with
        | nil => rw [CJson.rereadElements]
        | cons a next =>
            rw [CJson.rereadElements]
            rfl
      rw [CJson.rereadElements, textElements, textElements, text_reread hexact, hempty,
        textElements_reread hexact]

theorem textMembers_reread (hexact : dbl.Exact) (depth : Nat)
    (child : List (List UInt8 × CJson D)) :
    textMembers dbl format depth (CJson.rereadMembers dbl child) =
      textMembers dbl format depth child := by
  match child with
  | [] => rw [CJson.rereadMembers]
  | (string, item) :: next =>
      have hempty : (CJson.rereadMembers dbl next).isEmpty = next.isEmpty := by
        cases next with
        | nil => rw [CJson.rereadMembers]
        | cons a next =>
            rw [CJson.rereadMembers]
            rfl
      rw [CJson.rereadMembers, textMembers, textMembers, text_reread hexact, hempty,
        textMembers_reread hexact]

end

/-! ## Printed and parsed -/

/-- The string in a block is a text of the item, and of nothing more. -/
def ReadsAs (dbl : Doubles D) (block : List UInt8) (item : CJson D) : Prop :=
  ∃ s, str block = some s ∧ cJSON_ParseWithOpts dbl s true = some (some item, s.length)

variable {hooks : InternalHooks} {item : CJson D} {rest : List UInt8}

theorem str_text : str (text dbl format 0 item ++ 0 :: rest) = some (text dbl format 0 item) := by
  have hzero : 0 ∉ text dbl (growingJob .plain format 0).format 0 item := zero_not_mem_text 0 item
  exact str_append_zero hzero

theorem readsAs_text (hlegible : dbl.Legible) (hfits : Printable CJSON_NESTING_LIMIT item) :
    ReadsAs dbl (text dbl format 0 item ++ 0 :: rest) (item.reread dbl) := by
  have hvalue : Value dbl CJSON_NESTING_LIMIT (item.reread dbl) (text dbl format 0 item) :=
    text_value hlegible hfits 0
  have hread := parseWithOpts_whole (.inl rfl) ws_nil hvalue ws_nil
  simp only [List.nil_append, List.append_nil] at hread
  exact ⟨_, str_text, hread⟩

theorem print_eq {printed : List UInt8} {live : Nat}
    (h : print hooks dbl item format = some (some printed, live)) :
    printed = text dbl format 0 item ++ [0] := by
  obtain ⟨printed', live', heq, hor⟩ := print_spec hooks dbl item format
  rw [h] at heq
  cases heq
  rcases hor with ⟨hprinted, -⟩ | ⟨hnone, -⟩
  · exact Option.some.inj hprinted
  · cases hnone

/-- What is printed is read again as the same item, up to its numbers, and
they as their digits say; whichever of the functions it was that printed. -/
theorem print_parse_round_trip (hooks : InternalHooks) (dbl : Doubles D) (item : CJson D)
    (format : Bool) (hlegible : dbl.Legible) (hfits : Printable CJSON_NESTING_LIMIT item) :
    (∀ printed live, print hooks dbl item format = some (some printed, live) →
      ReadsAs dbl printed (item.reread dbl)) ∧
    (∀ (prebuffer : Int) printed live, prebuffer ≤ INT_MAX →
      hooks.reallocate = true ∨ 0 < prebuffer →
      cJSON_PrintBuffered hooks dbl item prebuffer format = some (some printed, live) →
      ReadsAs dbl printed (item.reread dbl)) ∧
    ∀ buffer buffer', buffer.length ≤ INT_MAX →
      cJSON_PrintPreallocated hooks dbl item buffer format = some (true, some buffer') →
      ReadsAs dbl buffer' (item.reread dbl) := by
  refine ⟨?_, ?_, ?_⟩
  · intro printed live h
    rw [print_eq h]
    exact readsAs_text hlegible hfits
  · intro prebuffer printed live hint hcopies h
    obtain ⟨printed', live', heq, hor⟩ := printBuffered_spec dbl item format hint
      hcopies
    rw [h] at heq
    cases heq
    rcases hor with ⟨⟨rest, hprinted⟩, -⟩ | ⟨hnone, -⟩
    · cases hprinted
      exact readsAs_text hlegible hfits
    · cases hnone
  · intro buffer buffer' hint h
    obtain ⟨ok, buffer'', heq, -, hor⟩ := printPreallocated_spec hooks dbl item format hint
    rw [h] at heq
    cases heq
    rcases hor with ⟨-, -, rest, hrest⟩ | ⟨hfailed, -⟩
    · rw [hrest]
      exact readsAs_text hlegible hfits
    · cases hfailed

theorem print_parse_round_trip_list : ∃ printed,
    cJSON_Print .plain oneDigit (.array [.null, .string (bytes "a\n")]) =
        some (some printed, 1) ∧
      ReadsAs oneDigit printed (.array [.null, .string (bytes "a\n")]) := by
  have hfits : Printable CJSON_NESTING_LIMIT (.array [.null, .string (bytes "a\n")] :
      CJson {b : UInt8 // isdigit b}) := by
    refine Printable.array fun item hitem => ?_
    simp only [List.mem_cons, List.not_mem_nil, or_false] at hitem
    rcases hitem with rfl | rfl
    · exact .null
    · exact .string (by decide)
  have hprint := print_plain oneDigit (.array [.null, .string (bytes "a\n")]) true
    (by decide)
  exact ⟨_, hprint,
    (print_parse_round_trip .plain oneDigit _ true oneDigit_exact.legible hfits).1 _ 1 hprint⟩

/-- A text that is read and printed comes to a form of its own: read and
printed once more it stays as it is. -/
theorem parse_print_normal (dbl : Doubles D) (value : List UInt8) (require_null_terminated : Bool)
    (item : CJson D) (stop : Nat) (hexact : dbl.Exact)
    (h : cJSON_ParseWithOpts dbl value require_null_terminated = some (some item, stop))
    (hooks hooks' : InternalHooks) (format : Bool) :
    ∀ printed live, print hooks dbl item format = some (some printed, live) →
      ∃ item', ReadsAs dbl printed item' ∧
        ∀ printed' live', print hooks' dbl item' format = some (some printed', live') →
          printed' = printed := by
  intro printed live hprint
  refine ⟨item.reread dbl, ?_, ?_⟩
  · rw [print_eq hprint]
    exact readsAs_text hexact.legible (parseWithOpts_printable h)
  · intro printed' live' hprint'
    rw [print_eq hprint', text_reread hexact, print_eq hprint]

theorem parse_print_normal_seven : ∃ printed item',
    cJSON_Print .plain oneDigit (.array [.number ⟨ch '7', rfl⟩]) = some (some printed, 1) ∧
      ReadsAs oneDigit printed item' ∧
      ∀ printed' live', cJSON_Print .plain oneDigit item' = some (some printed', live') →
        printed' = printed := by
  have hread : cJSON_ParseWithOpts oneDigit ([] ++ [] ++ bytes "[7]" ++ []) true = _ :=
    parseWithOpts_whole (.inl rfl) ws_nil seven_value ws_nil
  have hprint := print_plain oneDigit (.array [.number ⟨ch '7', rfl⟩]) true (by decide)
  obtain ⟨item', hitem⟩ := parse_print_normal oneDigit (bytes "[7]") true _ 3 oneDigit_exact hread
    .plain .plain true _ 1 hprint
  exact ⟨_, item', hprint, hitem⟩

end IotCamera
