import IotCamera.Proofs.JsonBuffer

/-!
# What is printed

The printer writes `text`, and nothing but `text` and a zero byte behind it.
The proof walks the recursion of the printer, which is that of `text`. Strings
are the only step that is not one piece: the loop that escapes them ends every
long escape with a zero byte, which what comes next overwrites.
-/

namespace IotCamera

open CString Fallible

variable {D : Type} {dbl : Doubles D} {j : Job} {depth : Nat} {done t s : List UInt8}

/-! ## Strings -/

theorem hexChar_ne_zero {n : Nat} (h : n < 16) : hexChar n ≠ 0 := by
  have hall : ∀ n < 16, hexChar n ≠ 0 := by decide
  exact hall n h

theorem length_escaped {b : UInt8} : (escaped b).length = 1 + escapeExtra b := by
  by_cases hplain : 31 < b ∧ b ≠ ch '"' ∧ b ≠ ch '\\'
  · obtain ⟨hctl, hquote, hslash⟩ := hplain
    have hge : 32 ≤ b.toNat := UInt8.lt_iff_toNat_lt.1 hctl
    have hne : ∀ c : UInt8, c.toNat < 32 → b ≠ c := by
      intro c hc heq
      rw [heq] at hge
      omega
    have h8 := hne 8 (by decide)
    have h12 := hne 12 (by decide)
    have h10 := hne 10 (by decide)
    have h13 := hne 13 (by decide)
    have h9 := hne 9 (by decide)
    rw [escaped, if_pos ⟨hctl, hquote, hslash⟩, escapeExtra,
      if_neg (by simp [hquote, hslash, h8, h12, h10, h13, h9]),
      if_neg (by rw [UInt8.lt_iff_toNat_lt]; exact Nat.not_lt.2 hge)]
    rfl
  · rw [escaped, if_neg hplain, escapeExtra]
    by_cases hslash : b = ch '\\'
    · subst hslash; rfl
    by_cases hquote : b = ch '"'
    · subst hquote; rfl
    by_cases h8 : b = 8
    · subst h8; rfl
    by_cases h12 : b = 12
    · subst h12; rfl
    by_cases h10 : b = 10
    · subst h10; rfl
    by_cases h13 : b = 13
    · subst h13; rfl
    by_cases h9 : b = 9
    · subst h9; rfl
    have hctl : b < 32 := by
      rw [UInt8.lt_iff_toNat_lt]
      have : ¬ 31 < b := fun h => hplain ⟨h, hquote, hslash⟩
      rw [UInt8.lt_iff_toNat_lt] at this
      exact Nat.lt_succ_of_le (Nat.not_lt.1 this)
    rw [if_neg hslash, if_neg hquote, if_neg h8, if_neg h12, if_neg h10, if_neg h13, if_neg h9,
      if_neg (by simp [hquote, hslash, h8, h12, h10, h13, h9]), if_pos hctl]
    rfl

theorem escaped_plain {b : UInt8} (h : escapeExtra b = 0) : escaped b = [b] := by
  have hlen : (escaped b).length = 1 + escapeExtra b := length_escaped
  rw [h] at hlen
  by_cases hplain : 31 < b ∧ b ≠ ch '"' ∧ b ≠ ch '\\'
  · rw [escaped, if_pos hplain]
  · rw [escaped, if_neg hplain] at hlen
    repeat' split at hlen
    all_goals simp at hlen

theorem zero_not_mem_escaped {b : UInt8} : 0 ∉ escaped b := by
  have hhigh : b.toNat / 16 < 16 := Nat.div_lt_of_lt_mul b.toNat_lt
  have hlow : b.toNat % 16 < 16 := Nat.mod_lt _ (by decide)
  rw [escaped]
  split
  · next h =>
      intro hmem
      rw [List.mem_singleton] at hmem
      rw [← hmem] at h
      exact absurd h.1 (by decide)
  repeat' split
  all_goals first
    | decide
    | simp only [List.mem_cons, List.not_mem_nil, or_false, not_or]
      refine ⟨by decide, by decide, by decide, by decide, ?_, ?_⟩
      · exact (hexChar_ne_zero hhigh).symm
      · exact (hexChar_ne_zero hlow).symm

theorem length_flatMap_escaped : (s.flatMap escaped).length =
    s.length + escape_characters s := by
  induction s with
  | nil => rfl
  | cons b s ih =>
      rw [List.flatMap_cons, List.length_append, length_escaped, ih, escape_characters,
        List.length_cons]
      omega

theorem flatMap_escaped_plain (h : escape_characters s = 0) : s.flatMap escaped = s := by
  induction s with
  | nil => rfl
  | cons b s ih =>
      rw [escape_characters] at h
      rw [List.flatMap_cons, escaped_plain (by omega), ih (by omega)]
      rfl

theorem zero_not_mem_quoted : 0 ∉ quoted s := by
  rw [quoted]
  simp only [List.cons_append, List.mem_cons, List.mem_append, List.mem_flatMap, List.not_mem_nil,
    or_false, not_or, not_exists, not_and]
  exact ⟨by decide, fun b _ => zero_not_mem_escaped, by decide⟩

/-- The loop that copies the string leaves the escapes behind what was there,
and a byte for the zero of the last one. -/
theorem escapeLoop_spec : ∀ {done rest : List UInt8},
    done.length + (s.flatMap escaped).length + 1 ≤ (done ++ rest).length →
    ∃ rest', escapeLoop s done.length (done ++ rest) = some (done ++ s.flatMap escaped ++ rest') ∧
      (done ++ s.flatMap escaped ++ rest').length = (done ++ rest).length := by
  induction s with
  | nil =>
      intro done rest h
      exact ⟨rest, by simp [escapeLoop], by simp⟩
  | cons b s ih =>
      intro done rest h
      rw [List.flatMap_cons, List.length_append] at h
      -- the zero byte of a long escape is the first of what is left
      have hput : ∃ rest', putBytes (done ++ rest) done.length
          (if (escaped b).length = 6 then escaped b ++ [0] else escaped b) =
            some (done ++ escaped b ++ rest') ∧
          (done ++ escaped b ++ rest').length = (done ++ rest).length := by
        split
        · have hroom : done.length + (escaped b ++ [0]).length ≤ (done ++ rest).length := by
            rw [List.length_append, List.length_singleton]
            omega
          obtain ⟨rest', hrest', hlen⟩ := putBytes_behind hroom
          exact ⟨0 :: rest', by rw [hrest']; simp, by rw [← hlen]; simp⟩
        · exact putBytes_behind (by omega)
      obtain ⟨rest', hrest', hlen⟩ := hput
      have hroom : (done ++ escaped b).length + (s.flatMap escaped).length + 1 ≤
          (done ++ escaped b ++ rest').length := by
        rw [hlen, List.length_append]
        omega
      obtain ⟨rest'', hloop, hlen'⟩ := ih hroom
      refine ⟨rest'', ?_, ?_⟩
      · rw [escapeLoop, hrest']
        simp only [Option.bind_eq_bind, Option.bind_some]
        rw [← List.length_append, hloop, List.flatMap_cons]
        simp
      · rw [← hlen, ← hlen', List.flatMap_cons]
        simp

/-- What `print_string_ptr` does to the buffer. -/
theorem storeString {rest : List UInt8}
    (h : done.length + ((quoted s).length + 2) ≤ (done ++ rest).length) :
    (∃ rest', putBytes (done ++ rest) done.length (ch '"' :: s.flatMap escaped ++ [ch '"', 0]) =
        some (done ++ (quoted s ++ [0]) ++ rest') ∧
      (done ++ (quoted s ++ [0]) ++ rest').length = (done ++ rest).length) ∧
    ∃ rest', (do
        let buffer ← putBytes (done ++ rest) done.length [ch '"']
        let buffer ← escapeLoop s (done.length + 1) buffer
        putBytes buffer (done.length + (s.flatMap escaped).length + 1) [ch '"', 0]) =
        some (done ++ (quoted s ++ [0]) ++ rest') ∧
      (done ++ (quoted s ++ [0]) ++ rest').length = (done ++ rest).length := by
  have hlen : (quoted s).length = (s.flatMap escaped).length + 2 := by
    simp [quoted]
  constructor
  · have heq : ch '"' :: s.flatMap escaped ++ [ch '"', 0] = quoted s ++ [0] := by simp [quoted]
    rw [heq]
    refine putBytes_behind ?_
    rw [List.length_append, List.length_singleton]
    omega
  · obtain ⟨rest1, h1, hlen1⟩ : ∃ rest', putBytes (done ++ rest) done.length [ch '"'] =
        some (done ++ [ch '"'] ++ rest') ∧ (done ++ [ch '"'] ++ rest').length =
          (done ++ rest).length :=
      putBytes_behind (by rw [List.length_singleton]; omega)
    have hroom2 : (done ++ [ch '"']).length + (s.flatMap escaped).length + 1 ≤
        (done ++ [ch '"'] ++ rest1).length := by
      rw [hlen1, List.length_append, List.length_singleton]
      omega
    obtain ⟨rest2, h2, hlen2⟩ := escapeLoop_spec hroom2
    have hroom3 : (done ++ [ch '"'] ++ s.flatMap escaped).length + [ch '"', 0].length ≤
        (done ++ [ch '"'] ++ s.flatMap escaped ++ rest2).length := by
      rw [hlen2, hlen1]
      simp only [List.length_append, List.length_cons, List.length_nil] at h hlen ⊢
      omega
    obtain ⟨rest3, h3, hlen3⟩ := putBytes_behind hroom3
    refine ⟨rest3, ?_, ?_⟩
    · rw [List.length_append, List.length_singleton] at h2
      rw [List.length_append, List.length_append, List.length_singleton] at h3
      rw [h1]
      simp only [Option.bind_eq_bind, Option.bind_some, h2]
      rw [show done.length + (s.flatMap escaped).length + 1 =
        done.length + 1 + (s.flatMap escaped).length by omega, h3]
      simp [quoted]
    · rw [← hlen1, ← hlen2, ← hlen3]
      simp [quoted]

/-- A value that has been put behind the text, with its zero byte. -/
theorem Job.Keeps.printed {p : Printbuffer} (h : j.Keeps depth p) (hoff : p.offset = done.length)
    (hfits : done.length + t.length + 2 ≤ p.length)
    (hbuf : ∃ rest, p.buffer = some (done ++ (t ++ [0]) ++ rest) ∧
      (done ++ (t ++ [0]) ++ rest).length = p.length) : j.Printed depth done t p := by
  obtain ⟨rest, hbuf, hlen⟩ := hbuf
  refine { h with buffer := ⟨rest, ?_, ?_⟩, offset_ge := ?_, offset_le := ?_, fits := hfits }
  · rw [hbuf]
    simp
  · rw [← hlen]
    simp
  · rw [hoff]
  · rw [hoff]
    exact Nat.le_add_right _ _

theorem print_string_ptr_spec (h : done.length + (quoted s).length ≤ j.total) :
    Ensures (j.Holds depth done) (print_string_ptr j.hooks (some s))
      (fun _ => j.Printed depth done (quoted s)) j.Failed := by
  have hlen : (quoted s).length = (s.flatMap escaped).length + 2 := by
    simp [quoted]
  have hesc : (s.flatMap escaped).length = s.length + escape_characters s :=
    length_flatMap_escaped
  -- either way it is the quoted string and a zero byte
  have hstore : ∀ {f : Nat → List UInt8 → Option (List UInt8)},
      (∀ rest, done.length + ((quoted s).length + 2) ≤ (done ++ rest).length →
        ∃ rest', f done.length (done ++ rest) = some (done ++ (quoted s ++ [0]) ++ rest') ∧
          (done ++ (quoted s ++ [0]) ++ rest').length = (done ++ rest).length) →
      Ensures (fun p => j.Holds depth done p ∧
        done.length + (s.length + escape_characters s + 3) + 1 ≤ p.length) (store f)
        (fun _ => j.Printed depth done (quoted s)) j.Failed := by
    intro f hf
    refine (store_spec ((quoted s).length + 2) hf).mono (fun p hp => ⟨hp.1, by omega⟩)
      (fun _ p hp => ?_) fun p hp => hp
    obtain ⟨hkeeps, hoff, hroom, hbuf⟩ := hp
    exact hkeeps.printed hoff (by omega) hbuf
  rw [print_string_ptr]
  refine ensures_bind (ensure_spec (by omega)) fun _ => ?_
  refine ensures_ite (fun hplain => ?_) fun hplain => ?_
  · refine hstore fun rest hrest => ?_
    have hput := (storeString hrest).1
    rwa [flatMap_escaped_plain hplain] at hput
  · refine hstore fun rest hrest => ?_
    rw [← hesc]
    exact (storeString hrest).2

/-! ## Numbers -/

/-- It is one of two prints, unless the number is not finite. -/
theorem numeral_cases (dbl : Doubles D) (d : D) :
    dbl.notFinite d = true ∧ numeral dbl d = bytes "null" ∨
      dbl.notFinite d = false ∧ (numeral dbl d = dbl.sprintf 17 d ∨
        numeral dbl d = dbl.sprintf 15 d ∧ ∃ test, dbl.sscanf (dbl.sprintf 15 d) = some test ∧
          dbl.compare_double test d = true) := by
  rw [numeral]
  split
  · next hfinite => exact .inl ⟨hfinite, rfl⟩
  next hfinite =>
  refine .inr ⟨Bool.not_eq_true _ ▸ hfinite, ?_⟩
  split
  · exact .inl rfl
  · next test htest =>
      split
      · next hcompare => exact .inr ⟨rfl, test, htest, hcompare⟩
      · exact .inl rfl

theorem length_numeral {d : D} : (numeral dbl d).length ≤ 24 := by
  have h15 := dbl.length_sprintf 15 d
  have h17 := dbl.length_sprintf 17 d
  rcases numeral_cases dbl d with ⟨-, h⟩ | ⟨-, h | ⟨h, -⟩⟩ <;> rw [h]
  · decide
  · exact h17
  · omega

theorem zero_not_mem_numeral {d : D} : 0 ∉ numeral dbl d := by
  rcases numeral_cases dbl d with ⟨-, h⟩ | ⟨-, h | ⟨h, -⟩⟩ <;> rw [h]
  · decide
  · exact dbl.sprintf_zero 17 d
  · exact dbl.sprintf_zero 15 d

theorem fits_of_lt {n : Nat} (h : t.length < n) : fits n t = some t := if_pos h

theorem numberBuffer_eq {d : D} : numberBuffer dbl d = some (numeral dbl d) := by
  have h15 := dbl.length_sprintf 15 d
  have h17 := dbl.length_sprintf 17 d
  rw [numeral, numberBuffer]
  split
  · rfl
  · rw [fits_of_lt (by omega), fits_of_lt (by omega)]
    simp only [Option.bind_eq_bind, Option.bind_some]
    cases dbl.sscanf (dbl.sprintf 15 d) with
    | none => rfl
    | some test =>
        simp only
        split <;> rfl

/-- A step that is a whole value. -/
theorem emit_value {needed length : Nat} (h : done.length + t.length ≤ j.total)
    (hneeded : needed = t.length + 1) (hlength : length ≤ t.length) :
    Ensures (j.Holds depth done) (emit j.hooks needed (t ++ [0]) length)
      (fun _ => j.Printed depth done t) j.Failed := by
  have hbound : (done ++ []).length + needed + 1 ≤ j.total + 2 := by
    rw [List.append_nil]
    omega
  have hlast : Ensures (j.Holds depth (done ++ [])) (emit j.hooks needed (t ++ [0]) length)
      (fun _ => j.Printed depth done ([] ++ t)) j.Failed :=
    emit_last t hbound (Nat.le_of_eq hneeded.symm) hlength
  rwa [List.append_nil, List.nil_append] at hlast

theorem print_number_spec {d : D} (h : done.length + (numeral dbl d).length ≤ j.total) :
    Ensures (j.Holds depth done) (print_number j.hooks dbl d)
      (fun _ => j.Printed depth done (numeral dbl d)) j.Failed := by
  have hlen : (numeral dbl d).length ≤ 24 := length_numeral
  have hread : Ensures (j.Holds depth done) (lift (some (numeral dbl d)))
      (fun a p => a = numeral dbl d ∧ j.Holds depth done p) j.Failed :=
    ensures_lift rfl fun p hp => ⟨rfl, hp⟩
  rw [print_number, numberBuffer_eq]
  refine ensures_bind hread fun number_buffer => ?_
  have hnumber : number_buffer = numeral dbl d → Ensures (j.Holds depth done)
      (when (decide (25 < number_buffer.length)) fail >>= fun _ =>
        emit j.hooks (number_buffer.length + 1) (number_buffer ++ [0]) number_buffer.length)
      (fun _ => j.Printed depth done (numeral dbl d)) j.Failed := by
    intro heq
    subst heq
    refine ensures_bind (ensures_when (fun hlong => ?_) fun _ p hp => hp) fun _ =>
      emit_value h rfl (Nat.le_refl _)
    exact absurd (of_decide_eq_true hlong) (by omega)
  intro p hp
  exact hnumber hp.1 p hp.2

/-! ## Values -/

theorem Job.Holds.setDepth {p : Printbuffer} (h : j.Holds depth done p) (d : Nat) :
    j.Holds d done { p with depth := d } :=
  { h with depth := rfl }

theorem Job.Printed.setDepth {p : Printbuffer} (h : j.Printed depth done t p) (d : Nat) :
    j.Printed d done t { p with depth := d } :=
  { h with depth := rfl }

/-- One level further in. -/
theorem deeper : Ensures (j.Holds depth done)
    (modify fun p => { p with depth := p.depth + 1 }) (fun _ => j.Holds (depth + 1) done)
    j.Failed := by
  refine ensures_modify fun p hp => ?_
  have hd := hp.setDepth (depth + 1)
  rwa [← hp.depth] at hd ⊢

/-- And back. -/
theorem shallower : Ensures (j.Printed (depth + 1) done t)
    (modify fun p => { p with depth := p.depth - 1 }) (fun _ => j.Printed depth done t)
    j.Failed := by
  refine ensures_modify fun p hp => ?_
  have hd := hp.setDepth depth
  have heq : p.depth - 1 = depth := by rw [hp.depth, Nat.add_sub_cancel]
  rwa [← heq] at hd ⊢

theorem length_tabs {n : Nat} : (tabs n).length = n := List.length_replicate

theorem zero_not_mem_tabs {n : Nat} : 0 ∉ tabs n := by
  intro h
  exact absurd (List.eq_of_mem_replicate h) (by decide)

theorem closeObject_spec (h : (done ++ t).length +
      (formatted j.format (tabs depth) ++ [ch '}']).length ≤ j.total) :
    Ensures (j.Holds (depth + 1) (done ++ t)) (closeObject j.hooks)
      (fun _ => j.Printed (depth + 1) done (t ++ (formatted j.format (tabs depth) ++ [ch '}'])))
      j.Failed := by
  refine ensures_read fun p hp => ?_
  rw [hp.format, hp.depth, Nat.add_sub_cancel]
  refine ensures_ite (fun hf => ?_) fun hf => ?_
  · simp only [hf, formatted_true] at h ⊢
    have hlen : (tabs depth ++ [ch '}']).length = depth + 1 := by
      rw [List.length_append, length_tabs, List.length_singleton]
    have hlast : Ensures (j.Holds (depth + 1) (done ++ t))
        (emit j.hooks (depth + 1 + 1) (tabs depth ++ [ch '}'] ++ [0]) 0)
        (fun _ => j.Printed (depth + 1) done (t ++ (tabs depth ++ [ch '}']))) j.Failed :=
      emit_last _ (by omega) (by omega) (Nat.zero_le _)
    rwa [List.append_assoc (tabs depth)] at hlast
  · rw [Bool.not_eq_true] at hf
    simp only [hf, formatted_false, List.nil_append, List.length_singleton] at h ⊢
    exact emit_last [ch '}'] (by omega) (Nat.le_refl 2) (Nat.zero_le _)

theorem zero_not_mem_formatted {bs : List UInt8} (h : 0 ∉ bs) :
    0 ∉ formatted j.format bs := by
  cases j.format with
  | true => exact h
  | false => exact List.not_mem_nil

mutual

theorem zero_not_mem_text (depth : Nat) (item : CJson D) : 0 ∉ text dbl j.format depth item := by
  cases item with
  | null => rw [text]; decide
  | false => rw [text]; decide
  | true => rw [text]; decide
  | number d => rw [text]; exact zero_not_mem_numeral
  | string s => rw [text]; exact zero_not_mem_quoted
  | array child =>
      rw [text]
      have hchild := zero_not_mem_elements (depth + 1) child
      simp only [List.cons_append, List.mem_cons, List.mem_append, List.not_mem_nil, or_false,
        not_or]
      exact ⟨by decide, hchild, by decide⟩
  | object child =>
      rw [text]
      have hchild := zero_not_mem_members (depth + 1) child
      have hnl : 0 ∉ formatted j.format [10] := zero_not_mem_formatted (by decide)
      have htabs : 0 ∉ formatted j.format (tabs depth) := zero_not_mem_formatted zero_not_mem_tabs
      simp only [List.cons_append, List.mem_cons, List.mem_append, List.not_mem_nil, or_false,
        not_or]
      exact ⟨by decide, ⟨⟨hnl, hchild⟩, htabs⟩, by decide⟩

theorem zero_not_mem_elements (depth : Nat) (child : List (CJson D)) :
    0 ∉ textElements dbl j.format depth child := by
  cases child with
  | nil => rw [textElements]; exact List.not_mem_nil
  | cons item next =>
      rw [textElements]
      have hitem := zero_not_mem_text depth item
      have hnext := zero_not_mem_elements depth next
      have hspace : 0 ∉ formatted j.format [ch ' '] := zero_not_mem_formatted (by decide)
      simp only [List.mem_append, not_or]
      refine ⟨⟨hitem, ?_⟩, hnext⟩
      split
      · exact List.not_mem_nil
      · rw [List.mem_cons, not_or]
        exact ⟨by decide, hspace⟩

theorem zero_not_mem_members (depth : Nat) (child : List (List UInt8 × CJson D)) :
    0 ∉ textMembers dbl j.format depth child := by
  match child with
  | [] => rw [textMembers]; exact List.not_mem_nil
  | (string, item) :: next =>
      rw [textMembers]
      have hitem := zero_not_mem_text depth item
      have hnext := zero_not_mem_members depth next
      have htabs : 0 ∉ formatted j.format (tabs depth) := zero_not_mem_formatted zero_not_mem_tabs
      have htab : 0 ∉ formatted j.format [9] := zero_not_mem_formatted (by decide)
      have hnl : 0 ∉ formatted j.format [10] := zero_not_mem_formatted (by decide)
      simp only [List.mem_append, List.mem_cons, not_or]
      refine ⟨⟨⟨⟨⟨⟨htabs, zero_not_mem_quoted⟩, by decide, htab⟩, hitem⟩, ?_⟩, hnl⟩, hnext⟩
      split <;> decide

end

/-! ## The walk over the item -/

/-- What a print of something does: it puts `t` behind what is there. -/
def Prints (j : Job) (depth : Nat) (t : List UInt8) (m : Fallible Printbuffer Unit) : Prop :=
  ∀ done, done.length + t.length ≤ j.total →
    Ensures (j.Holds depth done) m (fun _ => j.Holds depth (done ++ t)) j.Failed

theorem Prints.then {m m' : Fallible Printbuffer Unit} {t' : List UInt8}
    (h : Prints j depth t m) (h' : Prints j depth t' m') :
    Prints j depth (t ++ t') (m >>= fun _ => m') := by
  intro done hle
  rw [List.length_append] at hle
  refine ensures_bind (h done (by omega)) fun _ => ?_
  rw [← List.append_assoc]
  exact h' (done ++ t) (by rw [List.length_append]; omega)

theorem prints_nothing : Prints j depth [] (pure ()) := by
  intro done hle
  rw [List.append_nil]
  exact ensures_pure fun p hp => hp

/-- A step with its text, and `z` behind it that is overwritten. -/
theorem prints_emit {needed : Nat} (z : List UInt8) (ht : t.length ≤ needed)
    (hn : needed ≤ t.length + 1) (hz : t.length + z.length ≤ needed + 1) :
    Prints j depth t (emit j.hooks needed (t ++ z) t.length) :=
  fun _ hle => emit_on t z (by omega) ht hz

/-- A value, whose end is then found. -/
theorem Prints.value {m m' : Fallible Printbuffer Unit} {t' : List UInt8}
    (h : ∀ done, done.length + t.length ≤ j.total →
      Ensures (j.Holds depth done) m (fun _ => j.Printed depth done t) j.Failed)
    (hzero : 0 ∉ t) (h' : Prints j depth t' m') :
    Prints j depth (t ++ t') (m >>= fun _ => update_offset >>= fun _ => m') := by
  intro done hle
  rw [List.length_append] at hle
  refine ensures_bind (h done (by omega)) fun _ => ?_
  refine ensures_bind (update_offset_spec hzero) fun _ => ?_
  rw [← List.append_assoc]
  exact h' (done ++ t) (by rw [List.length_append]; omega)

theorem prints_when {c : Bool} {m : Fallible Printbuffer Unit} (h : Prints j depth t m) :
    Prints j depth (formatted c t) (when c m) := by
  cases c with
  | true => exact h
  | false => exact prints_nothing

/-- What is known of the buffer can be used to say what is printed. -/
theorem prints_read {f : Printbuffer → Fallible Printbuffer Unit}
    (h : ∀ p, p.format = j.format → p.depth = depth → Prints j depth t (f p)) :
    Prints j depth t (get >>= f) :=
  fun done hle => ensures_read fun p hp => h p hp.format hp.depth done hle

mutual

theorem print_value_spec (depth : Nat) (item : CJson D) (done : List UInt8)
    (h : done.length + (text dbl j.format depth item).length ≤ j.total) :
    Ensures (j.Holds depth done) (print_value j.hooks dbl item)
      (fun _ => j.Printed depth done (text dbl j.format depth item)) j.Failed := by
  cases item with
  | null => rw [print_value, text] at *; exact emit_value h rfl (Nat.zero_le _)
  | false => rw [print_value, text] at *; exact emit_value h rfl (Nat.zero_le _)
  | true => rw [print_value, text] at *; exact emit_value h rfl (Nat.zero_le _)
  | number d => rw [print_value, text] at *; exact print_number_spec h
  | string s => rw [print_value, text] at *; exact print_string_ptr_spec h
  | array child =>
      rw [print_value]
      rw [text] at h ⊢
      simp only [List.length_append, List.length_cons, List.length_nil] at h
      have hopen : Prints j depth [ch '['] (emit j.hooks 1 ([ch '['] ++ []) [ch '['].length) :=
        prints_emit [] (Nat.le_refl 1) (by decide) (by decide)
      refine ensures_bind (hopen done (by simp; omega)) fun _ => ?_
      refine ensures_bind deeper fun _ => ?_
      refine ensures_bind (printElements_spec (depth + 1) child (done ++ [ch '['])
        (by simp; omega)) fun _ => ?_
      rw [List.append_assoc]
      refine ensures_bind (emit_last [ch ']'] (by simp; omega) (Nat.le_refl 2) (Nat.zero_le _))
        fun _ => ?_
      exact shallower
  | object child =>
      rw [print_value]
      rw [text] at h ⊢
      simp only [List.length_append, List.length_cons, List.length_nil] at h
      refine ensures_read fun p hp => ?_
      rw [hp.format]
      have hopen : Prints j depth (ch '{' :: formatted j.format [10])
          (emit j.hooks ((ch '{' :: formatted j.format [10]).length + 1)
            (ch '{' :: formatted j.format [10] ++ []) (ch '{' :: formatted j.format [10]).length) :=
        prints_emit [] (Nat.le_succ _) (Nat.le_refl _) (by simp)
      rw [List.append_nil] at hopen
      refine ensures_bind (hopen done (by simp; omega)) fun _ => ?_
      refine ensures_bind deeper fun _ => ?_
      refine ensures_bind (printMembers_spec (depth + 1) child
        (done ++ ch '{' :: formatted j.format [10]) (by simp; omega)) fun _ => ?_
      rw [List.append_assoc]
      refine ensures_bind (closeObject_spec (by simp; omega)) fun _ => ?_
      rw [List.append_assoc _ (formatted j.format (tabs depth))]
      exact shallower

theorem printElements_spec (depth : Nat) (child : List (CJson D)) :
    Prints j depth (textElements dbl j.format depth child) (printElements j.hooks dbl child) := by
  cases child with
  | nil =>
      rw [printElements, textElements]
      exact prints_nothing
  | cons item next =>
      rw [printElements, textElements]
      rw [List.append_assoc]
      refine Prints.value (fun done h => print_value_spec depth item done h)
        (zero_not_mem_text depth item) (prints_read fun p hf _ => ?_)
      rw [hf]
      refine Prints.then ?_ (printElements_spec depth next)
      cases next with
      | nil => exact prints_nothing
      | cons item' next => exact prints_emit [0] (Nat.le_succ _) (Nat.le_refl _) (Nat.le_succ _)

theorem printMembers_spec (depth : Nat) (child : List (List UInt8 × CJson D)) :
    Prints j depth (textMembers dbl j.format depth child) (printMembers j.hooks dbl child) := by
  match child with
  | [] =>
      rw [printMembers, textMembers]
      exact prints_nothing
  | (string, item) :: next =>
      rw [printMembers, textMembers]
      simp only [List.append_assoc]
      refine prints_read fun p hf hd => ?_
      rw [hf, hd]
      have htabs : Prints j depth (tabs depth) (emit j.hooks depth (tabs depth) depth) := by
        have hon : Prints j depth (tabs depth)
            (emit j.hooks depth (tabs depth ++ []) (tabs depth).length) :=
          prints_emit [] (by rw [length_tabs]) (by rw [length_tabs]; omega)
            (by rw [length_tabs]; exact Nat.le_succ depth)
        rwa [List.append_nil, length_tabs] at hon
      have hcolon : Prints j depth (ch ':' :: formatted j.format [9])
          (emit j.hooks (ch ':' :: formatted j.format [9]).length
            (ch ':' :: formatted j.format [9] ++ []) (ch ':' :: formatted j.format [9]).length) :=
        prints_emit [] (Nat.le_refl _) (Nat.le_succ _) (Nat.le_succ _)
      rw [List.append_nil] at hcolon
      refine Prints.then (prints_when htabs) ?_
      refine Prints.value (fun done h => print_string_ptr_spec h) zero_not_mem_quoted ?_
      refine Prints.then hcolon ?_
      refine Prints.value (fun done h => print_value_spec depth item done h)
        (zero_not_mem_text depth item) ?_
      have hcomma : Prints j depth
          ((if next.isEmpty then [] else [ch ',']) ++ formatted j.format [10]) _ :=
        prints_emit [0] (Nat.le_succ _) (Nat.le_refl _) (Nat.le_succ _)
      rw [List.append_assoc _ _ [0]] at hcomma
      rw [← List.append_assoc (if next.isEmpty then [] else [ch ','])]
      exact Prints.then hcomma (printMembers_spec depth next)

end

end IotCamera
