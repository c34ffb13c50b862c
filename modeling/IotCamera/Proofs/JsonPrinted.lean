import IotCamera.Proofs.JsonPrint

/-!
# The functions that print

What a caller gets. `cJSON_Print`, `cJSON_PrintUnformatted` and
`cJSON_PrintBuffered` give the text of the item, whatever size they start
with, or nothing, and then nothing is left allocated; there is a reason for
that, in the allocator or in the length of the text. `cJSON_PrintPreallocated`
works if and only if the caller's buffer is two bytes longer than the text:
one for the zero byte, and one that is asked for and not used.
-/

namespace IotCamera

open CString Fallible

variable {D : Type} {dbl : Doubles D} {hooks : InternalHooks} {item : CJson D} {format : Bool}

/-- A print that may grow, of a text of this length. -/
def growingJob (hooks : InternalHooks) (format : Bool) (total : Nat) : Job where
  hooks := hooks
  format := format
  noalloc := false
  live := 1
  limit := INT_MAX
  total := total
  limit_le := Nat.le_refl _

/-- A print into a buffer of the caller's. -/
def callerJob (hooks : InternalHooks) (format : Bool) (total : Nat) {buffer : List UInt8}
    (hint : buffer.length ≤ INT_MAX) : Job where
  hooks := hooks
  format := format
  noalloc := true
  live := 0
  limit := buffer.length
  total := total
  limit_le := hint

/-- The start of a print is as it should be. -/
theorem start_holds {j : Job} {buffer : List UInt8} {calls : Nat}
    (hle : buffer.length ≤ j.limit) (hfixed : j.noalloc = true → buffer.length = j.limit)
    (hgrows : j.noalloc = false → j.limit = INT_MAX)
    (hcopies : j.noalloc = true ∨ j.hooks.reallocate = true ∨ 0 < buffer.length) :
    j.Holds 0 [] (.start buffer j.noalloc j.format calls j.live) where
  format := rfl
  noalloc := rfl
  depth := rfl
  live := rfl
  length_le := hle
  fixed := hfixed
  grows := hgrows
  copies := hcopies
  buffer := ⟨buffer, rfl, rfl⟩
  offset := rfl
  room := .inl rfl

/-- What the print of an item comes to, from where it starts. -/
theorem print_value_start {j : Job} {p : Printbuffer} (hp : j.Holds 0 [] p)
    (htotal : j.total = (text dbl j.format 0 item).length) :
    (∃ p', print_value j.hooks dbl item p = some (none, p') ∧ j.Failed p') ∨
    ∃ p', print_value j.hooks dbl item p = some (some (), p') ∧
      j.Printed 0 [] (text dbl j.format 0 item) p' := by
  have hle : ([] : List UInt8).length + (text dbl j.format 0 item).length ≤ j.total := by
    rw [htotal, List.length_nil, Nat.zero_add]
  cases print_value_spec 0 item [] hle p hp with
  | inl h => exact .inl h
  | inr h =>
      obtain ⟨u, p', h⟩ := h
      exact .inr ⟨p', h⟩

/-- A block of the length of the text and the zero byte, out of the buffer. -/
theorem regrown_text {t rest : List UInt8} {n : Nat} {block : Vector UInt8 (t.length + 1)}
    (hn : t.length + 1 ≤ n) : regrown (t ++ 0 :: rest) n block = t ++ [0] := by
  have htake : (t ++ 0 :: rest).take n = t ++ [0] ++ rest.take (n - (t.length + 1)) := by
    obtain ⟨k, rfl⟩ : ∃ k, n = t.length + 1 + k := ⟨n - (t.length + 1), by omega⟩
    rw [List.take_append, List.take_of_length_le (by omega),
      show t.length + 1 + k - t.length = k + 1 by omega, List.take_succ_cons,
      Nat.add_sub_cancel_left]
    simp
  rw [regrown, htake, List.append_assoc]
  exact List.take_left' (by simp)

/-- Where a print ends, the text is copied, or there is no memory for that. -/
theorem printed_spec {p : Printbuffer} {t : List UInt8} {j : Job} (hp : j.Printed 0 [] t p)
    (hoff : p.offset = t.length) :
    p.printed j.hooks = some (some (t ++ [0]), j.live) ∨
    p.printed j.hooks = some (none, j.live - 1) ∧ ∃ n size, j.hooks.allocate n size = none := by
  obtain ⟨rest, hbuf, hlen⟩ := hp.buffer
  have hfits := hp.fits
  have hlive := hp.live
  obtain ⟨buffer, length, offset, depth, noalloc, format, calls, live⟩ := p
  simp only [List.nil_append] at hbuf hlen hoff hfits hlive
  subst hbuf hoff hlive
  rw [Printbuffer.printed]
  simp only [Option.bind_eq_bind, Option.bind_some]
  cases hooked : j.hooks.allocate calls (t.length + 1) with
  | none => exact .inr ⟨rfl, _, _, hooked⟩
  | some block =>
      refine .inl ?_
      simp only
      split
      · rw [regrown_text (by simp)]
      · rw [Nat.min_eq_right (by simp at hfits; omega), regrown_text (Nat.le_refl _)]
        have hput : putBytes (t ++ [0]) t.length [0] = some (t ++ [0]) := by
          rw [putBytes, if_pos (by simp), List.take_left]
          simp
        rw [hput]
        rfl

/-- What a print that may grow fails for, and that it frees its buffer. -/
theorem growing_failed {total : Nat} {p : Printbuffer}
    (h : (growingJob hooks format total).Failed p) :
    (if p.buffer.isSome then p.live - 1 else p.live) = 0 ∧
      (INT_MAX < total + 2 ∨ ∃ n size, hooks.allocate n size = none) := by
  rcases h with ⟨hnone, hlive, -, hooked⟩ | ⟨⟨buffer, hbuf, -⟩, hlive, hlimit⟩
  · exact ⟨by rw [hnone, hlive]; rfl, .inr hooked⟩
  · exact ⟨by rw [hbuf, hlive]; rfl, .inl hlimit⟩

theorem growing_start {total : Nat} {buffer : List UInt8} (hle : buffer.length ≤ INT_MAX)
    (hcopies : hooks.reallocate = true ∨ 0 < buffer.length) :
    (growingJob hooks format total).Holds 0 [] (.start buffer false format 1 1) :=
  start_holds hle (fun h => by cases h) (fun _ => rfl) (.inr hcopies)

/-- The text, or a reason. -/
theorem print_spec (hooks : InternalHooks) (dbl : Doubles D) (item : CJson D) (format : Bool) :
    ∃ printed live, print hooks dbl item format = some (printed, live) ∧
    (printed = some (text dbl format 0 item ++ [0]) ∧ live = 1 ∨
      printed = none ∧ live = 0 ∧ (INT_MAX < (text dbl format 0 item).length + 2 ∨
        ∃ n size, hooks.allocate n size = none)) := by
  rw [print]
  cases hooked : hooks.allocate 0 256 with
  | none => exact ⟨none, 0, rfl, .inr ⟨rfl, rfl, .inr ⟨_, _, hooked⟩⟩⟩
  | some block =>
      have hlen : block.toList.length = 256 := Vector.length_toList
      have hINT : INT_MAX = 2147483647 := rfl
      have hstart : (growingJob hooks format (text dbl format 0 item).length).Holds 0 []
          (.start block.toList false format 1 1) :=
        growing_start (by omega) (.inr (by omega))
      have hspec : Ensures ((growingJob hooks format (text dbl format 0 item).length).Holds 0 [])
          (print_value hooks dbl item >>= fun _ => update_offset)
          (fun _ p => (growingJob hooks format (text dbl format 0 item).length).Printed 0 []
            (text dbl format 0 item) p ∧ p.offset = (text dbl format 0 item).length)
          (growingJob hooks format (text dbl format 0 item).length).Failed := by
        refine ensures_bind (print_value_spec 0 item []
          (Nat.le_of_eq (Nat.zero_add (text dbl format 0 item).length))) fun _ => ?_
        refine (update_offset_end (zero_not_mem_text 0 item)).post fun _ p hp => ⟨hp.1, ?_⟩
        rw [hp.2, List.length_nil, Nat.zero_add]
        rfl
      simp only
      cases hspec _ hstart with
      | inl h =>
          obtain ⟨p', hrun, hp'⟩ := h
          rw [hrun]
          exact ⟨none, _, rfl, .inr ⟨rfl, growing_failed hp'⟩⟩
      | inr h =>
          obtain ⟨u, p', hrun, hp', hoff⟩ := h
          rw [hrun]
          rcases printed_spec hp' hoff with hend | ⟨hend, hooked⟩
          · exact ⟨_, _, hend, .inl ⟨rfl, rfl⟩⟩
          · exact ⟨_, _, hend, .inr ⟨rfl, rfl, .inr hooked⟩⟩

/-- With memory for it. -/
theorem print_plain (dbl : Doubles D) (item : CJson D) (format : Bool)
    (h : (text dbl format 0 item).length + 2 ≤ INT_MAX) :
    print .plain dbl item format = some (some (text dbl format 0 item ++ [0]), 1) := by
  obtain ⟨printed, live, heq, hor⟩ := print_spec .plain dbl item format
  rcases hor with ⟨rfl, rfl⟩ | ⟨-, -, hlong | ⟨n, size, hnone⟩⟩
  · exact heq
  · omega
  · cases hnone

/-- With a buffer of the caller's size to start with, the text is in the
buffer that it ends with. -/
theorem printBuffered_spec (dbl : Doubles D) (item : CJson D) (format : Bool) {prebuffer : Int}
    (hint : prebuffer ≤ INT_MAX)
    (hcopies : hooks.reallocate = true ∨ 0 < prebuffer) :
    ∃ printed live, cJSON_PrintBuffered hooks dbl item prebuffer format = some (printed, live) ∧
      ((∃ rest, printed = some (text dbl format 0 item ++ 0 :: rest)) ∧ live = 1 ∨
        printed = none ∧ live = 0 ∧ (prebuffer < 0 ∨
          INT_MAX < (text dbl format 0 item).length + 2 ∨
          ∃ n size, hooks.allocate n size = none)) := by
  rw [cJSON_PrintBuffered]
  by_cases hneg : prebuffer < 0
  · rw [if_pos hneg]
    exact ⟨none, 0, rfl, .inr ⟨rfl, rfl, .inl hneg⟩⟩
  rw [if_neg hneg]
  cases hooked : hooks.allocate 0 prebuffer.toNat with
  | none => exact ⟨none, 0, rfl, .inr ⟨rfl, rfl, .inr (.inr ⟨_, _, hooked⟩)⟩⟩
  | some block =>
      have hlen : block.toList.length = prebuffer.toNat := Vector.length_toList
      have hstart : (growingJob hooks format (text dbl format 0 item).length).Holds 0 []
          (.start block.toList false format 1 1) :=
        growing_start (by omega) (hcopies.imp_right fun h => by omega)
      simp only
      rcases print_value_start hstart rfl with ⟨p', hrun, hp'⟩ | ⟨p', hrun, hp'⟩
      · have hend := growing_failed hp'
        rw [show print_value hooks dbl item _ = _ from hrun]
        exact ⟨none, _, rfl, .inr ⟨rfl, hend.1, .inr hend.2⟩⟩
      · obtain ⟨rest, hbuf, -⟩ := hp'.buffer
        rw [show print_value hooks dbl item _ = _ from hrun]
        exact ⟨_, _, rfl, .inl ⟨⟨rest, hbuf⟩, hp'.live⟩⟩

/-- The text and a zero byte are in the caller's buffer and there is a byte to
spare, or printing fails and the buffer is shorter than that. -/
theorem printPreallocated_spec (hooks : InternalHooks) (dbl : Doubles D) (item : CJson D)
    (format : Bool) {buffer : List UInt8} (hint : buffer.length ≤ INT_MAX) :
    ∃ ok buffer', cJSON_PrintPreallocated hooks dbl item buffer format = some (ok, some buffer') ∧
      buffer'.length = buffer.length ∧
      (ok = true ∧ (text dbl format 0 item).length + 2 ≤ buffer.length ∧
          (∃ rest, buffer' = text dbl format 0 item ++ 0 :: rest) ∨
        ok = false ∧ buffer.length < (text dbl format 0 item).length + 2) := by
  have hstart : (callerJob hooks format (text dbl format 0 item).length hint).Holds 0 []
      (.start buffer true format 0 0) :=
    start_holds (Nat.le_refl _) (fun _ => rfl) (fun h => by cases h) (.inl rfl)
  rw [cJSON_PrintPreallocated]
  rcases print_value_start hstart rfl with ⟨p', hrun, hp'⟩ | ⟨p', hrun, hp'⟩
  · rw [show print_value hooks dbl item _ = _ from hrun]
    rcases hp' with ⟨-, -, hgrows, -⟩ | ⟨⟨buffer', hbuf, hlen, hfixed⟩, -, hlimit⟩
    · cases hgrows
    · refine ⟨false, buffer', ?_, hlen.trans (hfixed rfl), .inr ⟨rfl, hlimit⟩⟩
      show some (false, p'.buffer) = _
      rw [hbuf]
  · rw [show print_value hooks dbl item _ = _ from hrun]
    obtain ⟨rest, hbuf, hlen⟩ := hp'.buffer
    have hfits := hp'.fits
    have hlength := hp'.fixed rfl
    rw [List.nil_append] at hbuf hlen
    simp only [List.length_nil, Nat.zero_add] at hfits
    refine ⟨true, text dbl format 0 item ++ 0 :: rest, ?_, hlen.trans hlength,
      .inl ⟨rfl, Nat.le_trans hfits (Nat.le_of_eq hlength), rest, rfl⟩⟩
    show some (true, p'.buffer) = _
    rw [hbuf]
    rfl

/-! ## What is printed -/

/-- Printing gives the text and a zero byte, and the block it is in is then
the only one; or it gives nothing and keeps nothing. -/
theorem print_text_or_reason (hooks : InternalHooks) (dbl : Doubles D) (item : CJson D)
    (format : Bool) (prebuffer : Int) (hint : prebuffer ≤ INT_MAX)
    (hcopies : hooks.reallocate = true ∨ 0 < prebuffer) :
    (∃ printed live, print hooks dbl item format = some (printed, live) ∧
      (printed = some (text dbl format 0 item ++ [0]) ∧ live = 1 ∨
        printed = none ∧ live = 0 ∧ (INT_MAX < (text dbl format 0 item).length + 2 ∨
          ∃ n size, hooks.allocate n size = none))) ∧
    ∃ printed live, cJSON_PrintBuffered hooks dbl item prebuffer format = some (printed, live) ∧
      ((∃ rest, printed = some (text dbl format 0 item ++ 0 :: rest)) ∧ live = 1 ∨
        printed = none ∧ live = 0 ∧ (prebuffer < 0 ∨
          INT_MAX < (text dbl format 0 item).length + 2 ∨
          ∃ n size, hooks.allocate n size = none)) :=
  ⟨print_spec hooks dbl item format, printBuffered_spec dbl item format hint hcopies⟩

theorem print_text_or_reason_list : ∃ printed live,
    cJSON_PrintUnformatted .plain oneDigit (.array [.null, .true]) = some (printed, live) ∧
      (printed = some (bytes "[null,true]" ++ [0]) ∧ live = 1 ∨
        printed = none ∧ live = 0 ∧ (INT_MAX < 11 + 2 ∨
          ∃ n size, InternalHooks.plain.allocate n size = none)) :=
  (print_text_or_reason .plain oneDigit (.array [.null, .true]) false 256 (by decide)
    (.inl rfl)).1

/-- Into the caller's buffer: exactly if there are two bytes more than the
text takes up. -/
theorem printPreallocated_iff (hooks : InternalHooks) (dbl : Doubles D) (item : CJson D)
    (format : Bool) (buffer : List UInt8) (hint : buffer.length ≤ INT_MAX) :
    ∃ ok buffer', cJSON_PrintPreallocated hooks dbl item buffer format = some (ok, some buffer') ∧
      buffer'.length = buffer.length ∧
      (ok = true ↔ (text dbl format 0 item).length + 2 ≤ buffer.length) ∧
      (ok = true → ∃ rest, buffer' = text dbl format 0 item ++ 0 :: rest) := by
  obtain ⟨ok, buffer', hrun, hlen, hor⟩ := printPreallocated_spec hooks dbl item format hint
  refine ⟨ok, buffer', hrun, hlen, ?_⟩
  rcases hor with ⟨rfl, hfits, htext⟩ | ⟨rfl, hshort⟩
  · exact ⟨iff_of_true rfl hfits, fun _ => htext⟩
  · exact ⟨iff_of_false Bool.false_ne_true (Nat.not_le_of_lt hshort), nofun⟩

theorem printPreallocated_iff_list : ∃ ok buffer',
    cJSON_PrintPreallocated .plain oneDigit (.array [.null, .true])
      (List.replicate 13 7) false = some (ok, some buffer') ∧
      buffer'.length = 13 ∧ (ok = true ↔ 11 + 2 ≤ 13) ∧
      (ok = true → ∃ rest, buffer' = bytes "[null,true]" ++ 0 :: rest) :=
  printPreallocated_iff .plain oneDigit (.array [.null, .true]) false (List.replicate 13 7)
    (by decide)

end IotCamera
