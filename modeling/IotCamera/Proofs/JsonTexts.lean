import IotCamera.Proofs.JsonLiterals

/-!
# JSON texts are read as what they say

The recursion is that of the parser: on the nesting, and at each level along
the items between the brackets. Of a text it has to be known what it begins
with, since that is what the parser goes by, and since white space is skipped
up to it; and of what follows a text, that it does not go on like a number,
since a number has no other end.
-/

namespace IotCamera

open CString

variable {D : Type} {dbl : Doubles D} {α : Type} {content rest t u w s : List UInt8} {p n : Nat}

/-! ## White space, and what follows -/

theorem ws_nil : Ws [] := fun b hb => by cases hb

theorem whiteSpace_le {b : UInt8} (h : b ∈ whiteSpace) : b ≤ 32 ∧ numberChar b = false := by
  simp only [whiteSpace, List.mem_cons, List.not_mem_nil, or_false] at h
  rcases h with rfl | rfl | rfl | rfl <;> decide

theorem skip_whitespace_eq {b : UInt8} (hw : Ws w) (hb : 32 < b)
    (hp : content.drop p = w ++ b :: rest) :
    buffer_skip_whitespace content p = p + w.length := by
  have htake : ((content.drop p).takeWhile fun b => b ≤ 32) = w := by
    rw [hp, List.takeWhile_append_of_pos fun b hb => by simpa using (whiteSpace_le (hw b hb)).1,
      List.takeWhile_cons_of_neg (by simpa using hb), List.append_nil]
  have hlen : content.length - p = w.length + (rest.length + 1) := by
    rw [← List.length_drop, hp, List.length_append, List.length_cons]
  rw [buffer_skip_whitespace, htake, if_neg (by omega)]

/-- What follows does not go on like a number. -/
def Stops (rest : List UInt8) : Prop := ∀ b ∈ rest.head?, numberChar b = false

theorem Ws.stops {b : UInt8} (hw : Ws w) (hb : numberChar b = false) : Stops (w ++ b :: rest) := by
  intro c hc
  cases w with
  | nil =>
      cases hc
      exact hb
  | cons a w =>
      cases hc
      exact (whiteSpace_le (hw c List.mem_cons_self)).2

/-- What a value or a member begins with. -/
def Begins (t : List UInt8) : Prop :=
  ∃ b t', t = b :: t' ∧ 32 < b ∧ b < 128 ∧ b ≠ ch ']' ∧ b ≠ ch '}'

theorem StringText.begins (h : StringText s t) : Begins t := by
  obtain ⟨u, -, rfl⟩ := h.chars
  exact ⟨ch '"', u ++ [ch '"'], rfl, by decide⟩

theorem isdigit_begins {b : UInt8} (h : isdigit b) : (32 < b ∧ b < 128 ∧ b ≠ ch ']' ∧ b ≠ ch '}') ∧
    b ≠ ch 'n' ∧ b ≠ ch 'f' ∧ b ≠ ch 't' ∧ b ≠ ch '"' := by
  simp only [isdigit, Bool.and_eq_true, decide_eq_true_eq, UInt8.le_iff_toNat_le] at h
  have hle : b.toNat ≤ 57 := h.2
  have hge : 48 ≤ b.toNat := h.1
  have hne : ∀ c : UInt8, 57 < c.toNat ∨ c.toNat < 48 → b ≠ c := by
    intro c hc heq
    rw [heq] at hle hge
    omega
  refine ⟨⟨?_, ?_, hne _ ?_, hne _ ?_⟩, hne _ ?_, hne _ ?_, hne _ ?_, hne _ ?_⟩
  · rw [UInt8.lt_iff_toNat_lt]
    exact Nat.lt_of_lt_of_le (by decide) hge
  · rw [UInt8.lt_iff_toNat_lt]
    exact Nat.lt_of_le_of_lt hle (by decide)
  all_goals decide

/-- A numeral begins with a sign or a digit. -/
theorem Numeral.head_eq {d : D} (h : Numeral dbl d t) :
    ∃ b t', t = b :: t' ∧ (b = ch '-' ∨ isdigit b) := by
  obtain ⟨b, hb, hor⟩ := h.head
  cases t with
  | nil => cases hb
  | cons c t =>
      cases hb
      exact ⟨b, t, rfl, hor⟩

theorem Numeral.begins {d : D} (h : Numeral dbl d t) : Begins t := by
  obtain ⟨b, t', rfl, hb⟩ := h.head_eq
  refine ⟨b, t', rfl, ?_⟩
  cases hb with
  | inl hb => subst hb; decide
  | inr hb => exact (isdigit_begins hb).1

theorem ValueText.begins {Inner : Option (CJson D → List UInt8 → Prop)} {v : CJson D}
    (h : ValueText dbl Inner v t) : Begins t := by
  cases h with
  | null => exact ⟨_, _, rfl, by decide⟩
  | false => exact ⟨_, _, rfl, by decide⟩
  | true => exact ⟨_, _, rfl, by decide⟩
  | number h => exact h.begins
  | string h => exact h.begins
  | array hR h => exact ⟨_, _, rfl, by decide⟩
  | object hR h => exact ⟨_, _, rfl, by decide⟩

theorem MemberText.begins {Item : CJson D → List UInt8 → Prop} {m : List UInt8 × CJson D}
    (h : MemberText Item m t) : Begins t := by
  cases h with
  | mk hs hw hw' ht =>
      obtain ⟨b, t', rfl, hb⟩ := hs.begins
      exact ⟨b, _, rfl, hb⟩

/-! ## Between brackets -/

/-- A parse function reads the texts of its items. -/
def Reads (content : List UInt8) (Item : α → List UInt8 → Prop)
    (one : Nat → Option (Parsed α)) : Prop :=
  ∀ {a t rest p}, Item a t → content.drop p = t ++ rest → Stops rest →
    one p = some (.done a (p + t.length))

variable {Item : α → List UInt8 → Prop} {one : Nat → Option (Parsed α)} {close : UInt8}
  {items : List α}

/-- One round of the loop. -/
theorem parseItems_next {a : α} {w' : List UInt8} {b : UInt8} {fuel offset : Nat}
    (hone : Reads content Item one) (hw : Ws w) (ht : Item a t) (hw' : Ws w')
    (hbegin : Begins t) (hb : 32 < b) (hstop : numberChar b = false)
    (hp : content.drop (offset + 1) = w ++ t ++ w' ++ b :: rest) :
    parseItems content one close (fuel + 1) offset =
      if b = ch ',' then
        (parseItems content one close fuel
          (offset + 1 + (w ++ t ++ w').length)).map (Parsed.map (a :: ·))
      else if b = close then some (.done [a] (offset + 1 + (w ++ t ++ w').length + 1))
      else some (.failed (offset + 1 + (w ++ t ++ w').length)) := by
  obtain ⟨c, t', htc, hc, -⟩ := hbegin
  have hp' : content.drop (offset + 1) = w ++ (t ++ (w' ++ b :: rest)) := by
    rw [hp]
    simp
  have hhead : content.drop (offset + 1) = w ++ c :: (t' ++ (w' ++ b :: rest)) := by
    rw [hp', htc]
    rfl
  have hskip := skip_whitespace_eq hw hc hhead
  have hdrop := drop_of_drop hp'
  have hread := hone ht hdrop (hw'.stops hstop)
  have hdrop' := drop_of_drop hdrop
  have hskip' := skip_whitespace_eq hw' hb hdrop'
  have hbyte := getElem?_of_drop (drop_of_drop hdrop')
  rw [parseItems, hskip, hread]
  simp only [Option.bind_eq_bind, Option.bind_some, hskip', hbyte, Option.some.injEq]
  simp only [List.length_append, Nat.add_assoc]
  split
  · cases parseItems content one close fuel (offset + (1 + (w.length + (t.length + w'.length))))
      <;> rfl
  · rfl

theorem parseItems_separated (hone : Reads content Item one)
    (hbegin : ∀ a t, Item a t → Begins t) (hclose : close = ch ']' ∨ close = ch '}')
    (h : Separated Item items u) : ∀ {fuel offset : Nat},
      content.drop (offset + 1) = u ++ close :: rest → u.length ≤ fuel →
      parseItems content one close fuel offset =
        some (.done items (offset + 1 + u.length + 1)) := by
  have hbyte : 32 < close ∧ numberChar close = false ∧ close ≠ ch ',' := by
    cases hclose with
    | inl h => subst h; decide
    | inr h => subst h; decide
  induction h with
  | last hw ht hw' =>
      intro fuel offset hp hfuel
      obtain ⟨c, t', htc, -⟩ := hbegin _ _ ht
      cases fuel with
      | zero =>
          rw [htc] at hfuel
          simp at hfuel
      | succ fuel =>
          rw [parseItems_next hone hw ht hw' (hbegin _ _ ht) hbyte.1 hbyte.2.1 hp,
            if_neg hbyte.2.2, if_pos rfl]
  | cons hw ht hw' hsep ih =>
      intro fuel offset hp hfuel
      obtain ⟨c, t', htc, -⟩ := hbegin _ _ ht
      cases fuel with
      | zero =>
          rw [htc] at hfuel
          simp at hfuel
      | succ fuel =>
          rw [List.append_assoc, List.cons_append] at hp
          have hdrop := drop_of_drop hp
          rw [parseItems_next hone hw ht hw' (hbegin _ _ ht) (by decide) (by decide) hp,
            if_pos rfl, ih (drop_succ hdrop) (by simp at hfuel; omega)]
          simp only [Option.map_some, Parsed.map, List.length_append, List.length_cons]
          congr 2
          omega

/-- The white space in front of the first item, apart from the rest. -/
theorem Separated.trim (h : Separated Item items u) (hbegin : ∀ a t, Item a t → Begins t) :
    ∃ w u', u = w ++ u' ∧ Ws w ∧ Begins u' ∧ Separated Item items u' := by
  cases h with
  | last hw ht hw' =>
      obtain ⟨b, t', htb, hb⟩ := hbegin _ _ ht
      refine ⟨_, _, List.append_assoc _ _ _, hw, ?_, .last ws_nil ht hw'⟩
      rw [htb]
      exact ⟨b, _, rfl, hb⟩
  | @cons a as w t w' u hw ht hw' hsep =>
      obtain ⟨b, t', htb, hb⟩ := hbegin _ _ ht
      refine ⟨w, t ++ w' ++ ch ',' :: u, ?_, hw, ⟨b, t' ++ w' ++ ch ',' :: u, ?_, hb⟩,
        .cons ws_nil ht hw' hsep⟩
      · simp
      · rw [htb]
        rfl

theorem parseBrackets_text (hone : Reads content Item one)
    (hbegin : ∀ a t, Item a t → Begins t) (hclose : close = ch ']' ∨ close = ch '}')
    (h : Bracketed Item items u) (hp : content.drop (p + 1) = u ++ close :: rest) :
    parseBrackets content one close p = some (.done items (p + 1 + u.length + 1)) := by
  have hbyte : 32 < close := by
    cases hclose with
    | inl h => subst h; decide
    | inr h => subst h; decide
  rw [parseBrackets]
  rcases h with ⟨rfl, hw⟩ | h
  · rw [skip_whitespace_eq hw hbyte hp, if_pos (getElem?_of_drop (drop_of_drop hp))]
  · obtain ⟨w, u', rfl, hw, ⟨b, t', hub, hb, -, hsq, hcu⟩, hsep⟩ := h.trim hbegin
    rw [List.append_assoc] at hp
    have hdrop := drop_of_drop hp
    have hhead : content.drop (p + 1) = w ++ b :: (t' ++ close :: rest) := by
      rw [hp, hub]
      rfl
    have hb' := getElem?_of_drop (drop_of_drop hhead)
    have hlt := (List.getElem?_eq_some_iff.1 hb').1
    have hne : b ≠ close := by
      cases hclose with
      | inl h => subst h; exact hsq
      | inr h => subst h; exact hcu
    have hlen := congrArg List.length hdrop
    rw [List.length_drop, List.length_append] at hlen
    have hitems : content.drop (p + 1 + w.length - 1 + 1) = u' ++ close :: rest := by
      rw [show p + 1 + w.length - 1 + 1 = p + 1 + w.length by omega]
      exact hdrop
    rw [skip_whitespace_eq hw hb hhead, if_neg (by rw [hb']; simpa using hne), if_neg (by omega),
      parseItems_separated hone hbegin hclose hsep hitems (by omega)]
    simp only [List.length_append]
    congr 2
    omega

/-! ## Values -/

/-- The characters that are looked at, if the text does not go on with such a
character. -/
theorem numberString_eq (hchars : ∀ b ∈ t, numberChar b) (hlen : t.length ≤ 63)
    (hp : content.drop p = t ++ rest) (hstop : Stops rest) :
    ((content.drop p).take 63).takeWhile numberChar = t := by
  have hrest : ((rest.take (63 - t.length)).takeWhile numberChar) = [] := by
    cases rest with
    | nil => simp
    | cons b rest =>
        have hb := hstop b rfl
        cases 63 - t.length with
        | zero => rfl
        | succ k =>
            rw [List.take_succ_cons, List.takeWhile_cons_of_neg (by rw [hb]; exact Bool.noConfusion)]
  rw [hp, List.take_append, List.take_of_length_le hlen, List.takeWhile_append_of_pos hchars,
    hrest, List.append_nil]

theorem parse_number_text {d : D} (h : Numeral dbl d t) (hp : content.drop p = t ++ rest)
    (hstop : Stops rest) : parse_number content dbl p = .done d (p + t.length) := by
  rw [parse_number, numberString_eq h.chars h.length_le hp hstop, h.read]

/-- A text that begins otherwise is none of the three words. -/
theorem parseValueAround_head {inner : Option (Nat → Option (Parsed (CJson D)))} {b : UInt8}
    (hp : content.drop p = b :: rest) (hn : b ≠ ch 'n') (hf : b ≠ ch 'f') (ht : b ≠ ch 't') :
    parseValueAround content dbl inner p =
      if b = ch '"' then (parse_string content p).map (Parsed.map .string)
      else if b = ch '-' || isdigit b then some ((parse_number content dbl p).map .number)
      else if b = ch '[' then parse_array content inner p
      else if b = ch '{' then parse_object content inner p
      else some (.failed p) := by
  have hword : ∀ {c : UInt8} {w v : List UInt8} {k : Nat}, w = c :: v → b ≠ c →
      (content.drop p).take (k + 1) ≠ w := by
    intro c w v k hw hne heq
    rw [hp, List.take_succ_cons, hw] at heq
    exact hne (List.cons.inj heq).1
  rw [parseValueAround, if_neg (hword (w := bytes "null") rfl hn),
    if_neg (hword (w := bytes "false") rfl hf), if_neg (hword (w := bytes "true") rfl ht),
    getElem?_of_drop hp]

variable {R : CJson D → List UInt8 → Prop} {parse : Nat → Option (Parsed (CJson D))}

theorem parseMember_text (hparse : Reads content R parse) (hbegin : ∀ v t, R v t → Begins t) :
    Reads content (MemberText R) (parseMember content parse) := by
  intro m t rest p hm hp hstop
  cases hm with
  | @mk string item s w w' t hs hw hw' ht =>
      obtain ⟨b, t', htb, hb, -⟩ := hbegin _ _ ht
      have hp' : content.drop p = s ++ (w ++ ch ':' :: (w' ++ (t ++ rest))) := by
        rw [hp]
        simp
      have h1 := drop_of_drop hp'
      have h2 := drop_of_drop h1
      have h3 := drop_succ h2
      have h4 := drop_of_drop h3
      have hskip := skip_whitespace_eq hw (by decide) h1
      have hhead : content.drop (p + s.length + w.length + 1) = w' ++ b :: (t' ++ rest) := by
        rw [h3, htb]
        rfl
      have hskip' := skip_whitespace_eq hw' hb hhead
      rw [parseMember, parse_string_text hs hp']
      simp only [Option.bind_eq_bind, Option.bind_some, hskip]
      rw [if_neg (by rw [getElem?_of_drop h2]; simp), hskip', hparse ht h4 hstop]
      simp only [Option.map_some, Parsed.map, List.length_append, List.length_cons]
      congr 2
      omega

theorem parse_array_text {child : List (CJson D)} (hparse : Reads content R parse)
    (hbegin : ∀ v t, R v t → Begins t) (h : Bracketed R child u)
    (hp : content.drop p = ch '[' :: u ++ [ch ']'] ++ rest) :
    parse_array content (some parse) p =
      some (.done (.array child) (p + (ch '[' :: u ++ [ch ']']).length)) := by
  have hp' : content.drop p = ch '[' :: (u ++ ch ']' :: rest) := by
    rw [hp]
    simp
  rw [parse_array, getElem?_of_drop hp']
  simp only [Option.bind_eq_bind, Option.bind_some]
  rw [if_neg (by simp), parseBrackets_text hparse hbegin (.inl rfl) h (drop_succ hp')]
  simp only [Option.map_some, Parsed.map, List.length_append, List.length_cons, List.length_nil]
  congr 2
  omega

theorem parse_object_text {child : List (List UInt8 × CJson D)} (hparse : Reads content R parse)
    (hbegin : ∀ v t, R v t → Begins t) (h : Bracketed (MemberText R) child u)
    (hp : content.drop p = ch '{' :: u ++ [ch '}'] ++ rest) :
    parse_object content (some parse) p =
      some (.done (.object child) (p + (ch '{' :: u ++ [ch '}']).length)) := by
  have hp' : content.drop p = ch '{' :: (u ++ ch '}' :: rest) := by
    rw [hp]
    simp
  rw [parse_object, if_neg (by rw [getElem?_of_drop hp']; simp),
    parseBrackets_text (parseMember_text hparse hbegin) (fun a t => MemberText.begins) (.inr rfl)
      h (drop_succ hp')]
  simp only [Option.map_some, Parsed.map, List.length_append, List.length_cons, List.length_nil]
  congr 2
  omega

theorem parseValueAround_text {Inner : Option (CJson D → List UInt8 → Prop)}
    {inner : Option (Nat → Option (Parsed (CJson D)))}
    (hinner : ∀ R, Inner = some R → (∀ v t, R v t → Begins t) ∧
      ∃ parse, inner = some parse ∧ Reads content R parse) :
    Reads content (ValueText dbl Inner) (parseValueAround content dbl inner) := by
  intro v t rest p h hp hstop
  cases h with
  | null =>
      have htake : (content.drop p).take 4 = bytes "null" := by
        rw [hp]
        exact List.take_left' rfl
      rw [parseValueAround, if_pos htake]
      rfl
  | false =>
      have htake : (content.drop p).take 5 = bytes "false" := by
        rw [hp]
        exact List.take_left' rfl
      have hnull : (content.drop p).take 4 ≠ bytes "null" := by
        rw [hp]
        exact ne_of_beq_false rfl
      rw [parseValueAround, if_neg hnull, if_pos htake]
      rfl
  | true =>
      have htake : (content.drop p).take 4 = bytes "true" := by
        rw [hp]
        exact List.take_left' rfl
      have hfalse : (content.drop p).take 5 ≠ bytes "false" := by
        rw [hp]
        exact fun h => absurd (List.cons.inj h).1 (by decide)
      rw [parseValueAround, if_neg (by rw [htake]; decide), if_neg hfalse, if_pos htake]
      rfl
  | number h =>
      obtain ⟨b, t', rfl, hb⟩ := h.head_eq
      have hne : b ≠ ch 'n' ∧ b ≠ ch 'f' ∧ b ≠ ch 't' ∧ b ≠ ch '"' := by
        cases hb with
        | inl hb => subst hb; decide
        | inr hb => exact (isdigit_begins hb).2
      rw [parseValueAround_head hp hne.1 hne.2.1 hne.2.2.1, if_neg hne.2.2.2,
        if_pos (by simpa using hb), parse_number_text h hp hstop]
      rfl
  | string h =>
      obtain ⟨u, -, htu⟩ := h.chars
      have hhead : content.drop p = ch '"' :: (u ++ [ch '"'] ++ rest) := by
        rw [hp, htu]
        rfl
      rw [parseValueAround_head hhead (by decide) (by decide) (by decide), if_pos rfl,
        parse_string_text h hp]
      rfl
  | array hR h =>
      obtain ⟨hbegin, parse, rfl, hparse⟩ := hinner _ hR
      rw [parseValueAround_head hp (by decide) (by decide) (by decide),
        if_neg (by decide), if_neg (by decide), if_pos rfl, parse_array_text hparse hbegin h hp]
  | object hR h =>
      obtain ⟨hbegin, parse, rfl, hparse⟩ := hinner _ hR
      rw [parseValueAround_head hp (by decide) (by decide) (by decide),
        if_neg (by decide), if_neg (by decide), if_neg (by decide), if_pos rfl,
        parse_object_text hparse hbegin h hp]

theorem Value.begins {v : CJson D} (h : Value dbl n v t) : Begins t := by
  cases n <;> exact ValueText.begins h

/-- What a text says is what it is read as, at each level of nesting. -/
theorem parse_value_text : Reads content (Value dbl n) (parse_value content dbl n) := by
  induction n with
  | zero => exact parseValueAround_text fun R h => by cases h
  | succ n ih =>
      refine parseValueAround_text fun R h => ?_
      cases h
      exact ⟨fun v t => Value.begins, _, rfl, ih⟩

end IotCamera
