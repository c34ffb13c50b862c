import IotCamera.Proofs.JsonLiterals

/-!
# Any text

Reading a text never leaves its buffer, writing never leaves the blocks, every
loop comes to its end, and what comes out is nested no deeper than the limit
and has C strings in it. What carries this is the zero byte at the end. No
value and no bracket takes it in, so that an offset behind one of them still is
an offset into the buffer; only `buffer_skip_whitespace` goes beyond it, and
comes back.
-/

namespace IotCamera

open CString

variable {D : Type} {dbl : Doubles D} {α : Type} {content rest t u w : List UInt8} {p left : Nat}

/-! ## The zero byte -/

/-- The buffer ends with a zero byte. -/
def Terminated (content : List UInt8) : Prop := content.getLast? = some 0

namespace Terminated

/-- Bytes other than zero are not the last ones. -/
theorem lt_length (h : Terminated content) (hp : content.drop p = t ++ rest)
    (hlt : p < content.length) (hne : 0 ∉ t) : p + t.length < content.length := by
  have hlen : content.length - p = t.length + rest.length := by
    rw [← List.length_drop, hp, List.length_append]
  cases rest with
  | nil =>
      have hlast : t.getLast? = some 0 := by
        rw [← List.append_nil t, ← hp, List.getLast?_drop, if_neg (by omega)]
        exact h
      exact absurd (List.mem_of_getLast? hlast) hne
  | cons b rest =>
      rw [List.length_cons] at hlen
      omega

theorem succ_lt {b : UInt8} (h : Terminated content) (hp : content[p]? = some b) (hb : b ≠ 0) :
    p + 1 < content.length := by
  obtain ⟨hlt, rfl⟩ := List.getElem?_eq_some_iff.1 hp
  have hdrop : content.drop p = [content[p]] ++ content.drop (p + 1) :=
    List.drop_eq_getElem_cons hlt
  exact h.lt_length hdrop hlt (by simpa using hb.symm)

end Terminated

theorem le_skip_whitespace (hp : p < content.length) :
    p ≤ buffer_skip_whitespace content p ∧ buffer_skip_whitespace content p < content.length := by
  have hle := (List.takeWhile_prefix (fun b : UInt8 => decide (b ≤ 32))
    (l := content.drop p)).length_le
  rw [List.length_drop] at hle
  rw [buffer_skip_whitespace]
  split <;> omega

/-! ## Any text -/

/-- A parse function has a result, and where it leaves off is in the buffer or
right behind it. If it comes to an item then the item is as it should be, and
there still is a byte to be read. -/
def Sound (content : List UInt8) (Good : α → Prop) (p : Nat) (r : Option (Parsed α)) : Prop :=
  ∃ x, r = some x ∧ x.offset ≤ content.length ∧
    ∀ item q, x = .done item q → Good item ∧ p < q ∧ q < content.length

variable {Good : α → Prop} {one : Nat → Option (Parsed α)} {close : UInt8}

theorem sound_failed {q : Nat} (hq : q ≤ content.length) :
    Sound content Good p (some (.failed q)) :=
  ⟨_, rfl, hq, fun item q h => by cases h⟩

theorem sound_done {item : α} {q : Nat} (hgood : Good item) (hp : p < q)
    (hq : q < content.length) : Sound content Good p (some (.done item q)) := by
  refine ⟨_, rfl, Nat.le_of_lt hq, fun item q h => ?_⟩
  cases h
  exact ⟨hgood, hp, hq⟩

theorem Sound.map {β : Type} {Good' : β → Prop} {r : Option (Parsed α)} {f : α → β} {p' : Nat}
    (h : Sound content Good p r) (hp : p' ≤ p) (hf : ∀ item, Good item → Good' (f item)) :
    Sound content Good' p' (r.map (Parsed.map f)) := by
  obtain ⟨x, rfl, hoff, hdone⟩ := h
  cases x with
  | failed q => exact sound_failed hoff
  | done item q =>
      obtain ⟨hgood, hlt, hq⟩ := hdone item q rfl
      exact sound_done (hf item hgood) (Nat.lt_of_le_of_lt hp hlt) hq

theorem parseItems_sound (hterm : Terminated content) (hclose : close ≠ 0)
    (hone : ∀ p, p < content.length → Sound content Good p (one p)) {fuel : Nat} :
    ∀ {offset : Nat}, offset + 1 < content.length → content.length ≤ fuel + offset →
      Sound content (fun items => ∀ item ∈ items, Good item) offset
        (parseItems content one close fuel offset) := by
  induction fuel with
  | zero =>
      intro offset hlt hfuel
      omega
  | succ fuel ih =>
      intro offset hlt hfuel
      have hskip := le_skip_whitespace hlt
      obtain ⟨x, hx, hoff, hdone⟩ := hone _ hskip.2
      rw [parseItems, hx]
      simp only [Option.bind_eq_bind, Option.bind_some]
      cases x with
      | failed q => exact sound_failed hoff
      | done item q =>
          obtain ⟨hgood, hq, hqlt⟩ := hdone item q rfl
          have hskip' := le_skip_whitespace hqlt
          simp only
          split
          · next hcomma =>
              have hnext := hterm.succ_lt hcomma (by decide)
              obtain ⟨y, hy, hyoff, hydone⟩ := ih hnext (by omega)
              rw [hy]
              simp only [Option.bind_some]
              cases y with
              | failed q' => exact sound_failed hyoff
              | done items q' =>
                  obtain ⟨hitems, hq', hq'lt⟩ := hydone items q' rfl
                  refine sound_done ?_ (by omega) hq'lt
                  intro a ha
                  rcases List.mem_cons.1 ha with rfl | ha
                  · exact hgood
                  · exact hitems a ha
          · split
            · next hend =>
                have hnext := hterm.succ_lt hend hclose
                refine sound_done ?_ (by omega) hnext
                intro a ha
                rwa [List.mem_singleton.1 ha]
            · exact sound_failed (Nat.le_of_lt hskip'.2)

theorem parseBrackets_sound (hterm : Terminated content) (hclose : close ≠ 0)
    (hone : ∀ p, p < content.length → Sound content Good p (one p))
    (hp : p + 1 < content.length) :
    Sound content (fun items => ∀ item ∈ items, Good item) p
      (parseBrackets content one close p) := by
  have hskip := le_skip_whitespace hp
  rw [parseBrackets]
  split
  · next hend =>
      have hnext := hterm.succ_lt hend hclose
      exact sound_done (fun item hitem => by cases hitem) (by omega) hnext
  · rw [if_neg (by omega)]
    have hlt : buffer_skip_whitespace content (p + 1) - 1 + 1 < content.length := by omega
    have hfuel : content.length ≤
        content.length + (buffer_skip_whitespace content (p + 1) - 1) := by omega
    obtain ⟨x, hx, hoff, hdone⟩ := parseItems_sound hterm hclose hone hlt hfuel
    refine ⟨x, hx, hoff, fun items q h => ?_⟩
    obtain ⟨hgood, hlt, hq⟩ := hdone items q h
    exact ⟨hgood, by omega, hq⟩

/-- What is one level further in, if the limit allows it. -/
def Inner (content : List UInt8) (n : Nat) (inner : Option (Nat → Option (Parsed (CJson D)))) :
    Prop :=
  ∀ parse, inner = some parse → ∃ left, n = left + 1 ∧
    ∀ p, p < content.length → Sound content (Printable left) p (parse p)

variable {inner : Option (Nat → Option (Parsed (CJson D)))} {n : Nat}

theorem parse_array_sound (hterm : Terminated content) (hinner : Inner content n inner)
    (hp : content[p]? = some (ch '[')) : Sound content (Printable n) p (parse_array content inner p) := by
  have hnext := hterm.succ_lt hp (by decide)
  cases inner with
  | none => exact sound_failed (by omega)
  | some parse =>
      obtain ⟨left, rfl, hparse⟩ := hinner parse rfl
      have hbrackets := parseBrackets_sound hterm (show ch ']' ≠ 0 by decide) hparse hnext
      rw [parse_array, hp]
      simp only [Option.bind_eq_bind, Option.bind_some]
      rw [if_neg (by simp)]
      exact hbrackets.map (Nat.le_refl p) fun child hchild => Printable.array hchild

theorem parseMember_sound {parse : Nat → Option (Parsed (CJson D))} (hterm : Terminated content)
    (hparse : ∀ p, p < content.length → Sound content (Printable left) p (parse p))
    (hp : p < content.length) :
    Sound content (fun m => 0 ∉ m.1 ∧ Printable left m.2) p (parseMember content parse p) := by
  obtain ⟨x, hx, hoff, hdone⟩ := parse_string_defined hp
  rw [parseMember, hx]
  simp only [Option.bind_eq_bind, Option.bind_some]
  cases x with
  | failed q => exact sound_failed hoff
  | done string q =>
      obtain ⟨hzero, hq, hquote⟩ := hdone string q rfl
      have hqlt := hterm.succ_lt hquote (by decide)
      have hskip := le_skip_whitespace (show q < content.length by omega)
      simp only
      split
      · exact sound_failed (Nat.le_of_lt hskip.2)
      · next hcolon =>
          have hnext := hterm.succ_lt (not_not.1 hcolon) (by decide)
          have hskip' := le_skip_whitespace hnext
          have hle : p ≤ buffer_skip_whitespace content
              (buffer_skip_whitespace content q + 1) := by omega
          exact (hparse _ hskip'.2).map hle fun item hitem => ⟨hzero, hitem⟩

theorem parse_object_sound (hterm : Terminated content) (hinner : Inner content n inner)
    (hp : content[p]? = some (ch '{')) :
    Sound content (Printable n) p (parse_object content inner p) := by
  have hnext := hterm.succ_lt hp (by decide)
  cases inner with
  | none => exact sound_failed (by omega)
  | some parse =>
      obtain ⟨left, rfl, hparse⟩ := hinner parse rfl
      have hbrackets := parseBrackets_sound hterm (show ch '}' ≠ 0 by decide)
        (fun p hp => parseMember_sound hterm hparse hp) hnext
      rw [parse_object, if_neg (by simp [hp])]
      exact hbrackets.map (Nat.le_refl p) fun child hchild =>
        Printable.object (fun m hm => (hchild m hm).1) fun m hm => (hchild m hm).2

/-- A word of the language, if that is what the text goes on with. -/
theorem word_lt (hterm : Terminated content) (hp : p < content.length)
    (h : (content.drop p).take w.length = w) (hzero : 0 ∉ w) : p + w.length < content.length := by
  have hdrop : content.drop p = w ++ (content.drop p).drop w.length := by
    conv_lhs => rw [← List.take_append_drop w.length (content.drop p), h]
  exact hterm.lt_length hdrop hp hzero

theorem not_numberChar_zero : numberChar 0 = false := by decide

theorem parse_number_sound (hterm : Terminated content) (hp : p < content.length) :
    Sound content (fun _ => True) p (some (parse_number content dbl p)) := by
  rw [parse_number]
  split
  · exact sound_failed (Nat.le_of_lt hp)
  · next number after_end h =>
      have hle := dbl.strtod_le h
      have hpos := dbl.strtod_pos h
      -- the characters that are looked at, and what is behind them
      have hprefix : (((content.drop p).take 63).takeWhile numberChar) <+: content.drop p :=
        (List.takeWhile_prefix _).trans (List.take_prefix _ _)
      obtain ⟨rest, hrest⟩ := hprefix
      have hzero : 0 ∉ ((content.drop p).take 63).takeWhile numberChar := by
        intro h0
        have := List.mem_takeWhile_imp h0
        rw [not_numberChar_zero] at this
        cases this
      have hlt := hterm.lt_length hrest.symm hp hzero
      exact sound_done trivial (by omega) (by omega)

theorem parseValueAround_sound (hterm : Terminated content) (hinner : Inner content n inner)
    (hp : p < content.length) :
    Sound content (Printable n) p (parseValueAround content dbl inner p) := by
  have hb := List.getElem?_eq_getElem hp
  rw [parseValueAround, hb]
  split
  · next h => exact sound_done .null (by omega) (word_lt (w := bytes "null") hterm hp h (by decide))
  split
  · next h =>
      exact sound_done .false (by omega) (word_lt (w := bytes "false") hterm hp h (by decide))
  split
  · next h => exact sound_done .true (by omega) (word_lt (w := bytes "true") hterm hp h (by decide))
  simp only
  split
  · obtain ⟨x, hx, hoff, hdone⟩ := parse_string_defined hp
    rw [hx]
    cases x with
    | failed q => exact sound_failed hoff
    | done s q =>
        obtain ⟨hzero, hq, hquote⟩ := hdone s q rfl
        have hqlt := hterm.succ_lt hquote (by decide)
        exact sound_done (.string hzero) (by omega) (by omega)
  split
  · exact (parse_number_sound hterm hp).map (Nat.le_refl p) fun d _ => Printable.number
  split
  · next h => exact parse_array_sound hterm hinner (by rw [hb, h])
  split
  · next h => exact parse_object_sound hterm hinner (by rw [hb, h])
  · exact sound_failed (Nat.le_of_lt hp)

/-- Whatever the text is. -/
theorem parse_value_sound (hterm : Terminated content) : ∀ {left p : Nat}, p < content.length →
    Sound content (Printable left) p (parse_value content dbl left p) := by
  intro left
  induction left with
  | zero => exact fun hp => parseValueAround_sound hterm (fun parse h => by cases h) hp
  | succ left ih =>
      intro p hp
      refine parseValueAround_sound hterm (fun parse h => ?_) hp
      cases h
      exact ⟨left, rfl, fun p hp => ih hp⟩

end IotCamera
