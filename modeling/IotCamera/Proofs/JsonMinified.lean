import IotCamera.Proofs.JsonMinify
import IotCamera.Proofs.JsonRoundTrip

/-!
# A formatted text minified is the unformatted one

The two pointers of `cJSON_Minify` start together, and `into` never overtakes
`json`, so what is still to be read is never overwritten. `MinifyAt` says where
they stand: what has been written is in front of `into`, and what is to be read
behind `json`.

What the loops do with a printed text is decided by what it is made of. Between
the tokens there is white space and nothing else, and a string is copied whole.
The one thing that can go wrong is a string that ends in a backslash. It is
printed as two backslashes and a quote, and `minify_string` takes the second
backslash and the quote for a quote that is part of the string.
-/

namespace IotCamera

open CString

/-! ## The pointers -/

/-- `out` has been written, and `rest` is still to be read. -/
structure MinifyAt (buf out : List UInt8) (json : Nat) (rest : List UInt8) : Prop where
  written : buf.take out.length = out
  unread : buf.drop json = rest
  into_le : out.length ≤ json

namespace MinifyAt

variable {buf out rest : List UInt8} {json : Nat} {b c : UInt8}

theorem lt (h : MinifyAt buf out json (b :: rest)) : json < buf.length := by
  by_contra hge
  have hnil := List.drop_eq_nil_of_le (Nat.le_of_not_lt hge)
  rw [h.unread] at hnil
  cases hnil

theorem read (h : MinifyAt buf out json (b :: rest)) : buf[json]? = some b := by
  have hget : (buf.drop json)[0]? = some b := by rw [h.unread]; rfl
  rwa [List.getElem?_drop] at hget

theorem skip (h : MinifyAt buf out json (b :: rest)) : MinifyAt buf out (json + 1) rest where
  written := h.written
  unread := by rw [← List.drop_drop, h.unread]; rfl
  into_le := Nat.le_succ_of_le h.into_le

/-- A byte is written, at the latest where it is read. -/
theorem put (h : MinifyAt buf out json (b :: rest)) :
    ∃ buf', putBytes buf out.length [b] = some buf' ∧ buf'.length = buf.length ∧
      buf'.take (out ++ [b]).length = out ++ [b] ∧ buf'.drop json = b :: rest := by
  have hlt : out.length < buf.length := Nat.lt_of_le_of_lt h.into_le h.lt
  refine ⟨_, putBytes_eq_set hlt, List.length_set, ?_, ?_⟩
  · rw [List.set_eq_take_append_cons_drop, if_pos hlt, h.written,
      List.append_cons out b (buf.drop (out.length + 1))]
    exact List.take_left
  · rcases Nat.eq_or_lt_of_le h.into_le with heq | hlt'
    · have hrest := h.skip.unread
      rw [List.set_eq_take_append_cons_drop, if_pos hlt, h.written, heq, hrest, ← heq]
      exact List.drop_left
    · rw [List.drop_set_of_lt hlt']
      exact h.unread

theorem copy (h : MinifyAt buf out json (b :: rest)) :
    ∃ buf', copyByte buf out.length json = some buf' ∧ buf'.length = buf.length ∧
      buf'[json]? = some b ∧ MinifyAt buf' (out ++ [b]) (json + 1) rest := by
  obtain ⟨buf', hput, hlen, htake, hdrop⟩ := h.put
  have hget : (buf'.drop json)[0]? = some b := by rw [hdrop]; rfl
  rw [List.getElem?_drop] at hget
  refine ⟨buf', ?_, hlen, hget, htake, ?_, ?_⟩
  · rw [copyByte, h.read]
    exact hput
  · rw [← List.drop_drop, hdrop]
    rfl
  · rw [List.length_append, List.length_singleton]
    exact Nat.succ_le_succ h.into_le

end MinifyAt

/-- What has been written is written once more. -/
theorem putBytes_written {buf out : List UInt8} {b : UInt8}
    (h : buf.take (out ++ [b]).length = out ++ [b]) : putBytes buf out.length [b] = some buf := by
  have hsplit : out ++ ([b] ++ buf.drop (out ++ [b]).length) = buf := by
    rw [← List.append_assoc]
    conv => lhs; lhs; rw [← h]
    exact List.take_append_drop _ _
  have hput := putBytes_append (s := out) (t := [b])
    (u := [b] ++ buf.drop (out ++ [b]).length) (by simp)
  rw [List.drop_left, List.append_assoc, hsplit] at hput
  exact hput

theorem length_snoc {out : List UInt8} {b : UInt8} : (out ++ [b]).length = out.length + 1 := by
  rw [List.length_append, List.length_singleton]

/-! ## A string -/

/-- The inside of a string, as `minify_string` sees it. -/
inductive StringInside : List UInt8 → Prop
  | nil : StringInside []
  | plain {b : UInt8} {t : List UInt8} (hzero : b ≠ 0) (hquote : b ≠ ch '"')
      (hslash : b ≠ ch '\\') : StringInside t → StringInside (b :: t)
  | quote {t : List UInt8} : StringInside t → StringInside (ch '\\' :: ch '"' :: t)
  | slash {b : UInt8} {t : List UInt8} (hquote : b ≠ ch '"') :
      StringInside (b :: t) → StringInside (ch '\\' :: b :: t)

theorem stringLoop_spec {t rest : List UInt8} (ht : StringInside t) {fuel : Nat}
    {buf out : List UInt8} {json : Nat} (h : MinifyAt buf out json (t ++ ch '"' :: rest))
    (hfuel : t.length < fuel) :
    ∃ buf' json', stringLoop fuel buf json out.length =
        some (buf', json', (out ++ t ++ [ch '"']).length) ∧
      buf'.length = buf.length ∧ MinifyAt buf' (out ++ t ++ [ch '"']) json' rest := by
  induction ht generalizing fuel buf out json with
  | nil =>
      obtain ⟨fuel, rfl⟩ := Nat.exists_eq_succ_of_ne_zero (Nat.ne_of_gt hfuel)
      obtain ⟨buf', hcopy, hlen, hget, hat⟩ := h.copy
      refine ⟨buf', json + 1, ?_, hlen, by simpa using hat⟩
      have hquote : ch '"' ≠ 0 := by decide
      rw [stringLoop]
      simp [h.read, hcopy, hget, hquote, putBytes_written hat.written]
  | @plain b t hzero hquote hslash ht ih =>
      obtain ⟨fuel, rfl⟩ := Nat.exists_eq_succ_of_ne_zero (Nat.ne_of_gt (Nat.zero_lt_of_lt hfuel))
      obtain ⟨buf₁, hcopy, hlen₁, hget, hat⟩ := h.copy
      obtain ⟨buf', json', hloop, hlen, hend⟩ := ih hat (Nat.lt_of_succ_lt_succ hfuel)
      refine ⟨buf', json', ?_, hlen.trans hlen₁, by simpa using hend⟩
      rw [length_snoc] at hloop
      rw [stringLoop]
      simpa [h.read, hcopy, hget, hzero, hquote, hslash] using hloop
  | @quote t ht ih =>
      obtain ⟨fuel, rfl⟩ := Nat.exists_eq_succ_of_ne_zero (Nat.ne_of_gt (Nat.zero_lt_of_lt hfuel))
      obtain ⟨buf₁, hcopy₁, hlen₁, hget₁, hat₁⟩ := h.copy
      obtain ⟨buf₂, hcopy₂, hlen₂, -, hat₂⟩ := hat₁.copy
      have hfuel' : t.length < fuel := by
        rw [List.length_cons, List.length_cons] at hfuel
        omega
      obtain ⟨buf', json', hloop, hlen, hend⟩ := ih hat₂ hfuel'
      refine ⟨buf', json', ?_, hlen.trans (hlen₂.trans hlen₁), by simpa using hend⟩
      have hzero : ch '\\' ≠ 0 := by decide
      have hne : ch '\\' ≠ ch '"' := by decide
      rw [length_snoc, length_snoc] at hloop
      rw [length_snoc] at hcopy₂
      rw [stringLoop]
      simpa [h.read, hcopy₁, hget₁, hzero, hne, hat₁.read, hcopy₂] using hloop
  | @slash b t hquote ht ih =>
      obtain ⟨fuel, rfl⟩ := Nat.exists_eq_succ_of_ne_zero (Nat.ne_of_gt (Nat.zero_lt_of_lt hfuel))
      obtain ⟨buf₁, hcopy, hlen₁, hget, hat⟩ := h.copy
      obtain ⟨buf', json', hloop, hlen, hend⟩ := ih hat (Nat.lt_of_succ_lt_succ hfuel)
      refine ⟨buf', json', ?_, hlen.trans hlen₁, by simpa using hend⟩
      have hzero : ch '\\' ≠ 0 := by decide
      have hne : ch '\\' ≠ ch '"' := by decide
      rw [length_snoc] at hloop
      rw [stringLoop]
      simpa [h.read, hcopy, hget, hzero, hne, hat.read, hquote] using hloop

/-! ## A text -/

/-- A byte that is copied, and nothing else done about it. -/
def Verbatim (b : UInt8) : Prop := b ≠ 0 ∧ b ∉ whiteSpace ∧ b ≠ ch '/' ∧ b ≠ ch '"'

instance (b : UInt8) : Decidable (Verbatim b) :=
  inferInstanceAs (Decidable (b ≠ 0 ∧ b ∉ whiteSpace ∧ b ≠ ch '/' ∧ b ≠ ch '"'))

/-- What a text without comments comes to. -/
inductive Minifies : List UInt8 → List UInt8 → Prop
  | nil : Minifies [] []
  | space {b : UInt8} {t u : List UInt8} : b ∈ whiteSpace → Minifies t u → Minifies (b :: t) u
  | plain {b : UInt8} {t u : List UInt8} : Verbatim b → Minifies t u → Minifies (b :: t) (b :: u)
  | string {s t u : List UInt8} : StringInside s → Minifies t u →
      Minifies (ch '"' :: (s ++ ch '"' :: t)) (ch '"' :: (s ++ ch '"' :: u))

theorem minifyLoop_spec {t u rest : List UInt8} (ht : Minifies t u) {fuel : Nat}
    {buf out : List UInt8} {json : Nat} (h : MinifyAt buf out json (t ++ 0 :: rest))
    (hfuel : t.length < fuel) :
    ∃ buf', minifyLoop fuel buf json out.length = some buf' ∧ buf'.length = buf.length ∧
      buf'.take (out ++ u ++ [0]).length = out ++ u ++ [0] := by
  induction ht generalizing fuel buf out json with
  | nil =>
      obtain ⟨fuel, rfl⟩ := Nat.exists_eq_succ_of_ne_zero (Nat.ne_of_gt hfuel)
      obtain ⟨buf', hput, hlen, htake, -⟩ := h.put
      refine ⟨buf', ?_, hlen, by simpa using htake⟩
      rw [minifyLoop]
      simpa [h.read] using hput
  | @space b t u hb ht ih =>
      obtain ⟨fuel, rfl⟩ := Nat.exists_eq_succ_of_ne_zero (Nat.ne_of_gt (Nat.zero_lt_of_lt hfuel))
      obtain ⟨buf', hloop, hlen, htake⟩ := ih h.skip (Nat.lt_of_succ_lt_succ hfuel)
      refine ⟨buf', ?_, hlen, htake⟩
      have hzero : b ≠ 0 := by
        rintro rfl
        revert hb
        decide
      have hspace : b = ch ' ' ∨ b = 9 ∨ b = 13 ∨ b = 10 := by
        simp only [whiteSpace, List.mem_cons, List.not_mem_nil, or_false] at hb
        tauto
      rw [minifyLoop, h.read]
      simp only [Option.bind_eq_bind, Option.bind_some]
      rw [if_neg hzero, if_pos hspace]
      exact hloop
  | @plain b t u hb ht ih =>
      obtain ⟨fuel, rfl⟩ := Nat.exists_eq_succ_of_ne_zero (Nat.ne_of_gt (Nat.zero_lt_of_lt hfuel))
      obtain ⟨buf₁, hcopy, hlen₁, -, hat⟩ := h.copy
      obtain ⟨buf', hloop, hlen, htake⟩ := ih hat (Nat.lt_of_succ_lt_succ hfuel)
      refine ⟨buf', ?_, hlen.trans hlen₁, by simpa using htake⟩
      obtain ⟨hzero, hspace, hslash, hquote⟩ := hb
      have hnot : ¬ (b = ch ' ' ∨ b = 9 ∨ b = 13 ∨ b = 10) := by
        simp only [whiteSpace, List.mem_cons, List.not_mem_nil, or_false] at hspace
        tauto
      rw [length_snoc] at hloop
      rw [minifyLoop, h.read]
      simp only [Option.bind_eq_bind, Option.bind_some]
      rw [if_neg hzero, if_neg hnot, if_neg hslash, if_neg hquote, hcopy]
      exact hloop
  | @string s t u hs ht ih =>
      obtain ⟨fuel, rfl⟩ := Nat.exists_eq_succ_of_ne_zero (Nat.ne_of_gt (Nat.zero_lt_of_lt hfuel))
      obtain ⟨buf₁, hcopy, hlen₁, -, hat⟩ := h.copy
      have hrest :
          MinifyAt buf₁ (out ++ [ch '"']) (json + 1) (s ++ ch '"' :: (t ++ 0 :: rest)) := by
        simpa using hat
      have hlt : s.length < buf₁.length := by
        have hdrop := congrArg List.length hrest.unread
        simp only [List.length_drop, List.length_append, List.length_cons] at hdrop
        omega
      have hfuel' : t.length < fuel := by
        simp only [List.length_append, List.length_cons] at hfuel
        omega
      obtain ⟨buf₂, json', hstring, hlen₂, hat₂⟩ := stringLoop_spec hs hrest hlt
      obtain ⟨buf', hloop, hlen, htake⟩ := ih hat₂ hfuel'
      refine ⟨buf', ?_, hlen.trans (hlen₂.trans hlen₁), by simpa using htake⟩
      have hzero : ch '"' ≠ 0 := by decide
      have hnot : ¬ (ch '"' = ch ' ' ∨ ch '"' = 9 ∨ ch '"' = 13 ∨ ch '"' = 10) := by decide
      have hslash : ch '"' ≠ ch '/' := by decide
      rw [length_snoc] at hstring
      rw [minifyLoop, h.read]
      simp only [Option.bind_eq_bind, Option.bind_some]
      rw [if_neg hzero, if_neg hnot, if_neg hslash]
      simp only [if_true, minify_string, hcopy, Option.bind_eq_bind, Option.bind_some]
      rw [hstring]
      exact hloop

theorem cJSON_Minify_spec {t u : List UInt8} (rest : List UInt8) (ht : Minifies t u) :
    ∃ buf, cJSON_Minify (some (t ++ 0 :: rest)) = some (some buf) ∧
      buf.length = (t ++ 0 :: rest).length ∧ buf.take (u.length + 1) = u ++ [0] := by
  have hat : MinifyAt (t ++ 0 :: rest) [] 0 (t ++ 0 :: rest) := ⟨rfl, rfl, Nat.le_refl 0⟩
  have hfuel : t.length < (t ++ 0 :: rest).length := by
    rw [List.length_append, List.length_cons]
    omega
  obtain ⟨buf, hloop, hlen, htake⟩ := minifyLoop_spec ht hat hfuel
  refine ⟨buf, ?_, hlen, by simpa using htake⟩
  rw [cJSON_Minify]
  simpa using hloop

/-! ## What a text is made of -/

theorem Minifies.append {s t u v : List UInt8} (hs : Minifies s u) (ht : Minifies t v) :
    Minifies (s ++ t) (u ++ v) := by
  induction hs with
  | nil => exact ht
  | space hb _ ih => exact .space hb ih
  | plain hb _ ih => exact .plain hb ih
  | string hs _ ih =>
      rw [List.cons_append, List.append_assoc, List.cons_append, List.cons_append,
        List.append_assoc, List.cons_append]
      exact .string hs ih

theorem minifies_space {w : List UInt8} (hw : Ws w) : Minifies w [] := by
  induction w with
  | nil => exact .nil
  | cons b w ih =>
      exact .space (hw b List.mem_cons_self) (ih fun c hc => hw c (List.mem_cons_of_mem b hc))

theorem minifies_plain {t : List UInt8} (ht : ∀ b ∈ t, Verbatim b) : Minifies t t := by
  induction t with
  | nil => exact .nil
  | cons b t ih =>
      exact .plain (ht b List.mem_cons_self) (ih fun c hc => ht c (List.mem_cons_of_mem b hc))

theorem verbatim_of_all {t : List UInt8} (h : t.all fun b => decide (Verbatim b)) :
    ∀ b ∈ t, Verbatim b := by
  intro b hb
  exact of_decide_eq_true (List.all_eq_true.1 h b hb)

variable {format : Bool}

/-- White space that is only in a formatted print is in neither text. -/
theorem minifies_formatted {w : List UInt8} (hw : Ws w) :
    Minifies (formatted format w) (formatted false w) := by
  cases format with
  | false => exact .nil
  | true => exact minifies_space hw

theorem plain_of_numberChar {b : UInt8} (h : numberChar b) : Verbatim b := by
  refine ⟨?_, ?_, ?_, ?_⟩
  · rintro rfl
    revert h
    decide
  · intro hb
    simp only [whiteSpace, List.mem_cons, List.not_mem_nil, or_false] at hb
    rcases hb with rfl | rfl | rfl | rfl <;> revert h <;> decide
  · rintro rfl
    revert h
    decide
  · rintro rfl
    revert h
    decide

variable {D : Type} {dbl : Doubles D}

theorem numeral_plain (hlegible : dbl.Legible) (d : D) : ∀ b ∈ numeral dbl d, Verbatim b := by
  rcases numeral_cases dbl d with ⟨-, h⟩ | ⟨hfinite, h | ⟨h, -⟩⟩ <;> rw [h]
  · exact verbatim_of_all (by decide)
  · obtain ⟨d', hnumeral⟩ := hlegible d hfinite 17 (.inr rfl)
    exact fun b hb => plain_of_numberChar (hnumeral.chars b hb)
  · obtain ⟨d', hnumeral⟩ := hlegible d hfinite 15 (.inl rfl)
    exact fun b hb => plain_of_numberChar (hnumeral.chars b hb)

/-! ## Escapes -/

/-- A byte in a string that nothing is special about. -/
def Unescaped (b : UInt8) : Prop := b ≠ 0 ∧ b ≠ ch '"' ∧ b ≠ ch '\\'

theorem StringInside.append {s t : List UInt8} (hs : ∀ b ∈ s, Unescaped b) (ht : StringInside t) :
    StringInside (s ++ t) := by
  induction s with
  | nil => exact ht
  | cons b s ih =>
      obtain ⟨hzero, hquote, hslash⟩ := hs b List.mem_cons_self
      exact .plain hzero hquote hslash (ih fun c hc => hs c (List.mem_cons_of_mem b hc))

/-- A backslash and what it stands in front of. -/
theorem StringInside.escape {b : UInt8} {s t : List UInt8} (hs : ∀ c ∈ b :: s, Unescaped c)
    (ht : StringInside t) : StringInside (ch '\\' :: b :: s ++ t) :=
  .slash (hs b List.mem_cons_self).2.1 (StringInside.append hs ht)

theorem hexChar_unescaped {n : Nat} (h : n < 16) : Unescaped (hexChar n) := by
  have hall : ∀ n < 16, hexChar n ≠ 0 ∧ hexChar n ≠ ch '"' ∧ hexChar n ≠ ch '\\' := by decide
  exact hall n h

/-- What stands for a character does not begin with a quote. -/
theorem escaped_head (b : UInt8) : ∃ c e, escaped b = c :: e ∧ c ≠ ch '"' := by
  rw [escaped]
  by_cases h : 31 < b ∧ b ≠ ch '"' ∧ b ≠ ch '\\'
  · rw [if_pos h]
    exact ⟨b, [], rfl, h.2.1⟩
  · rw [if_neg h]
    have hne : ch '\\' ≠ ch '"' := by decide
    repeat' split
    all_goals exact ⟨ch '\\', _, rfl, hne⟩

theorem StringInside.escaped {b : UInt8} {t : List UInt8} (hb : b ≠ ch '\\') (ht : StringInside t) :
    StringInside (escaped b ++ t) := by
  have short : ∀ c, Unescaped c → StringInside ([ch '\\', c] ++ t) := by
    intro c hc
    exact .escape (s := []) (fun d hd => by rwa [List.mem_singleton.1 hd]) ht
  rw [IotCamera.escaped]
  by_cases h : 31 < b ∧ b ≠ ch '"' ∧ b ≠ ch '\\'
  · rw [if_pos h]
    refine .plain ?_ h.2.1 h.2.2 ht
    rintro rfl
    exact absurd h.1 (by decide)
  rw [if_neg h, if_neg hb]
  by_cases hquote : b = ch '"'
  · rw [if_pos hquote]
    exact .quote ht
  rw [if_neg hquote]
  repeat' split
  all_goals try exact short _ (by unfold Unescaped; decide)
  have hhigh := hexChar_unescaped (show b.toNat / 16 < 16 from Nat.div_lt_of_lt_mul b.toNat_lt)
  have hlow := hexChar_unescaped (Nat.mod_lt b.toNat (show 0 < 16 by decide))
  refine StringInside.escape (b := ch 'u') (s := [ch '0', ch '0', _, _]) ?_ ht
  intro c hc
  simp only [List.mem_cons, List.not_mem_nil, or_false] at hc
  rcases hc with rfl | rfl | rfl | rfl | rfl
  · unfold Unescaped; decide
  · unfold Unescaped; decide
  · unfold Unescaped; decide
  · exact hhigh
  · exact hlow

/-- A string whose closing quote is found where it is. -/
def Closes (s : List UInt8) : Prop := s.getLast? ≠ some (ch '\\')

theorem inside_escaped {s : List UInt8} (hs : Closes s) : StringInside (s.flatMap escaped) := by
  induction s with
  | nil => exact .nil
  | cons b s ih =>
      rw [List.flatMap_cons]
      cases s with
      | nil =>
          have hb : b ≠ ch '\\' := fun h => hs (congrArg some h)
          exact StringInside.escaped hb .nil
      | cons c s =>
          have ht : StringInside ((c :: s).flatMap escaped) := ih (by
            rw [Closes, List.getLast?_cons_cons] at hs
            exact hs)
          by_cases hb : b = ch '\\'
          · obtain ⟨d, e, heq, hd⟩ := escaped_head c
            rw [List.flatMap_cons, heq, List.cons_append] at ht ⊢
            rw [hb]
            exact .slash (by decide) (.slash hd ht)
          · exact StringInside.escaped hb ht

theorem minifies_quoted {s : List UInt8} (hs : Closes s) : Minifies (quoted s) (quoted s) :=
  .string (inside_escaped hs) .nil

/-! ## Items -/

/-- No string in it and no name ends in a backslash. -/
inductive Closable : CJson D → Prop
  | null : Closable .null
  | false : Closable .false
  | true : Closable .true
  | number {d : D} : Closable (.number d)
  | string {s : List UInt8} : Closes s → Closable (.string s)
  | array {child : List (CJson D)} : (∀ item ∈ child, Closable item) → Closable (.array child)
  | object {child : List (List UInt8 × CJson D)} : (∀ m ∈ child, Closes m.1) →
      (∀ m ∈ child, Closable m.2) → Closable (.object child)

theorem minifies_byte {b : UInt8} (hb : Verbatim b) : Minifies [b] [b] := .plain hb .nil

mutual

theorem minifies_text (hlegible : dbl.Legible) (depth : Nat) (item : CJson D)
    (hitem : Closable item) :
    Minifies (text dbl format depth item) (text dbl false depth item) := by
  cases item with
  | null => rw [text, text]; exact minifies_plain (verbatim_of_all (by decide))
  | false => rw [text, text]; exact minifies_plain (verbatim_of_all (by decide))
  | true => rw [text, text]; exact minifies_plain (verbatim_of_all (by decide))
  | number d => rw [text, text]; exact minifies_plain (numeral_plain hlegible d)
  | string s =>
      cases hitem with
      | string hs => rw [text, text]; exact minifies_quoted hs
  | array child =>
      cases hitem with
      | array hchild =>
          rw [text, text]
          exact .plain (by decide)
            ((minifies_elements hlegible (depth + 1) child hchild).append
              (minifies_byte (by decide)))
  | object child =>
      cases hitem with
      | object hnames hchild =>
          rw [text, text]
          exact .plain (by decide)
            ((((minifies_formatted ws_newline).append
              (minifies_members hlegible (depth + 1) child hnames hchild)).append
              (minifies_formatted (ws_tabs))).append (minifies_byte (by decide)))

theorem minifies_elements (hlegible : dbl.Legible) (depth : Nat) (child : List (CJson D))
    (hchild : ∀ item ∈ child, Closable item) :
    Minifies (textElements dbl format depth child) (textElements dbl false depth child) := by
  cases child with
  | nil => rw [textElements, textElements]; exact .nil
  | cons item next =>
      have hcomma : Minifies (if next.isEmpty then [] else ch ',' :: formatted format [ch ' '])
          (if next.isEmpty then [] else ch ',' :: formatted false [ch ' ']) := by
        split
        · exact .nil
        · exact .plain (by decide) (minifies_formatted ws_space)
      rw [textElements, textElements]
      exact ((minifies_text hlegible depth item (hchild item List.mem_cons_self)).append
        hcomma).append (minifies_elements hlegible depth next fun a ha =>
          hchild a (List.mem_cons_of_mem item ha))

theorem minifies_members (hlegible : dbl.Legible) (depth : Nat)
    (child : List (List UInt8 × CJson D)) (hnames : ∀ m ∈ child, Closes m.1)
    (hchild : ∀ m ∈ child, Closable m.2) :
    Minifies (textMembers dbl format depth child) (textMembers dbl false depth child) := by
  match child with
  | [] => rw [textMembers, textMembers]; exact .nil
  | (string, item) :: next =>
      have hname : Closes string := hnames (string, item) List.mem_cons_self
      have hitem : Closable item := hchild (string, item) List.mem_cons_self
      have hcomma : Minifies (if next.isEmpty then [] else [ch ','])
          (if next.isEmpty then [] else [ch ',']) := by
        split
        · exact .nil
        · exact minifies_byte (by decide)
      rw [textMembers, textMembers]
      exact (((((((minifies_formatted (ws_tabs)).append (minifies_quoted hname)).append
        (.plain (by decide) (minifies_formatted ws_tab))).append
        (minifies_text hlegible depth item hitem)).append hcomma).append
        (minifies_formatted ws_newline)).append
        (minifies_members hlegible depth next
          (fun m hm => hnames m (List.mem_cons_of_mem _ hm))
          fun m hm => hchild m (List.mem_cons_of_mem _ hm)))

end

/-- A print with its white space taken out is the unformatted print, where no
string ends in a backslash, and one without any stays as it is. -/
theorem print_minify (hooks : InternalHooks) (dbl : Doubles D) (item : CJson D) (format : Bool)
    (hlegible : dbl.Legible) (hitem : Closable item) (printed : List UInt8) (live : Nat)
    (h : print hooks dbl item format = some (some printed, live)) :
    ∃ buf, cJSON_Minify (some printed) = some (some buf) ∧ buf.length = printed.length ∧
      ∀ hooks' plain live', cJSON_PrintUnformatted hooks' dbl item = some (some plain, live') →
        buf.take plain.length = plain := by
  rw [print_eq h]
  obtain ⟨buf, hminify, hlen, htake⟩ :=
    cJSON_Minify_spec [] (minifies_text hlegible 0 item hitem)
  refine ⟨buf, hminify, hlen, fun hooks' plain live' hplain => ?_⟩
  rw [print_eq hplain, List.length_append, List.length_singleton]
  exact htake

/-- Where one does, the quote of the next string closes it. -/
example : (cJSON_Minify (some (bytes "[\"\\\\\", \" \"]" ++ [0]))).map (Option.map (List.take 11)) =
    some (some (bytes "[\"\\\\\", \"\"]" ++ [0])) := by decide

theorem print_minify_list : ∃ buf,
    cJSON_Minify (some (bytes "[null, \"a b\"]" ++ [0])) = some (some buf) ∧
      buf.take 13 = bytes "[null,\"a b\"]" ++ [0] := by
  have hitem : Closable (.array [.null, .string (bytes "a b")] :
      CJson {b : UInt8 // isdigit b}) := by
    refine Closable.array fun item hitem => ?_
    simp only [List.mem_cons, List.not_mem_nil, or_false] at hitem
    rcases hitem with rfl | rfl
    · exact .null
    · exact .string (by unfold Closes; decide)
  have hprint := print_plain oneDigit (.array [.null, .string (bytes "a b")]) true (by decide)
  have hplain := print_plain oneDigit (.array [.null, .string (bytes "a b")]) false (by decide)
  obtain ⟨buf, hminify, -, htake⟩ :=
    print_minify .plain oneDigit _ true oneDigit_exact.legible hitem _ 1 hprint
  exact ⟨buf, hminify, htake .plain _ 1 hplain⟩

end IotCamera
