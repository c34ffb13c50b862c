import IotCamera.Json.Grammar

/-!
# The print buffer

The steps that a print is made of. Between two of them the buffer holds what
has been printed so far, its offset is behind it, and there is a byte left
(`Holds`); a value that has just been printed is in the buffer with a zero
byte behind it, and the offset is somewhere in it, until `update_offset` moves
it to the end (`Printed`). The contracts below take the one to the other, and
they are carried by the two numbers that a step asks for and writes: every
step asks for at least two bytes more than what is then printed, and writes no
more than it has asked for.

A step fails for one of two reasons. Either there was no memory for a larger
buffer, and then the old one is gone as well; or the text with two bytes is
longer than a buffer may be, which is the size of the caller's buffer or all
that an `int` can say.
-/

namespace IotCamera

open CString Fallible

variable {D : Type}

/-- What a print does not change, and how far it can get. -/
structure Job where
  hooks : InternalHooks
  format : Bool
  noalloc : Bool
  live : Nat
  /-- the size that the buffer can have -/
  limit : Nat
  /-- the length of the text in the end -/
  total : Nat
  limit_le : limit ≤ INT_MAX

namespace Job

variable (j : Job) (depth : Nat) (done t : List UInt8) (p : Printbuffer)

structure Keeps : Prop where
  format : p.format = j.format
  noalloc : p.noalloc = j.noalloc
  depth : p.depth = depth
  live : p.live = j.live
  length_le : p.length ≤ j.limit
  fixed : j.noalloc = true → p.length = j.limit
  grows : j.noalloc = false → j.limit = INT_MAX
  /-- without `reallocate` there must be a byte to copy -/
  copies : j.noalloc = true ∨ j.hooks.reallocate = true ∨ 0 < p.length

/-- The text so far, and room for at least one byte. -/
structure Holds : Prop extends j.Keeps depth p where
  buffer : ∃ rest, p.buffer = some (done ++ rest) ∧ (done ++ rest).length = p.length
  offset : p.offset = done.length
  room : done = [] ∨ done.length < p.length

/-- A value behind the text so far. -/
structure Printed : Prop extends j.Keeps depth p where
  buffer : ∃ rest, p.buffer = some (done ++ t ++ 0 :: rest) ∧
    (done ++ t ++ 0 :: rest).length = p.length
  offset_ge : done.length ≤ p.offset
  offset_le : p.offset ≤ done.length + t.length
  fits : done.length + t.length + 2 ≤ p.length

def Failed : Prop :=
  p.buffer = none ∧ p.live = j.live - 1 ∧ j.noalloc = false ∧
      (∃ n size, j.hooks.allocate n size = none) ∨
    (∃ buffer, p.buffer = some buffer ∧ buffer.length = p.length ∧
        (j.noalloc = true → p.length = j.limit)) ∧
      p.live = j.live ∧ j.limit < j.total + 2

end Job

variable {j : Job} {depth : Nat} {done t bs : List UInt8} {p : Printbuffer} {needed : Nat}

/-! ## The buffer -/

theorem length_regrown {buffer : List UInt8} {n size : Nat} {block : Vector UInt8 size}
    (hn : n ≤ buffer.length) (hsize : n ≤ size) : (regrown buffer n block).length = size := by
  rw [regrown, List.length_take, List.length_append, List.length_take, List.length_drop,
    Vector.length_toList]
  omega

/-- What was in front stays. -/
theorem regrown_append {rest : List UInt8} {n size : Nat} {block : Vector UInt8 size}
    (hdone : done.length ≤ n) (hsize : n ≤ size) :
    ∃ rest', regrown (done ++ rest) n block = done ++ rest' := by
  refine ⟨((rest.take (n - done.length)) ++ block.toList.drop n).take (size - done.length), ?_⟩
  have hfront : (done ++ rest).take n = done ++ rest.take (n - done.length) := by
    rw [List.take_append, List.take_of_length_le hdone]
  rw [regrown, hfront, List.append_assoc, List.take_append, List.take_of_length_le (by omega)]

theorem Job.Holds.failed (h : j.Holds depth done p) (hlimit : j.limit < j.total + 2) :
    j.Failed p := by
  obtain ⟨rest, hbuf, hlen⟩ := h.buffer
  exact .inr ⟨⟨_, hbuf, hlen, h.fixed⟩, h.live, hlimit⟩

theorem grow_spec {newsize : Nat} {buffer : List UInt8} (hlimit : newsize ≤ j.limit)
    (hgrows : j.noalloc = false) :
    Ensures (fun p => j.Holds depth done p ∧ p.buffer = some buffer ∧ p.length < newsize)
      (grow j.hooks newsize buffer) (fun _ p => j.Holds depth done p ∧ p.length = newsize)
      j.Failed := by
  intro p hpre
  obtain ⟨h, hbuf, hlt⟩ := hpre
  obtain ⟨rest, hbuf', hlen⟩ := h.buffer
  have heq : buffer = done ++ rest := Option.some.inj (hbuf.symm.trans hbuf')
  subst heq
  have hgrown : ∀ n, done.length ≤ n → n ≤ (done ++ rest).length →
      ∀ block : Vector UInt8 newsize,
      j.Holds depth done { p with
        buffer := some (regrown (done ++ rest) n block)
        length := newsize
        calls := p.calls + 1 } := by
    intro n hdone hn block
    obtain ⟨rest', hrest'⟩ : ∃ rest', regrown (done ++ rest) n block = done ++ rest' :=
      regrown_append hdone (by omega)
    have hlen' : (regrown (done ++ rest) n block).length = newsize :=
      length_regrown hn (by omega)
    exact
      { format := h.format, noalloc := h.noalloc, depth := h.depth, live := h.live
        length_le := hlimit
        fixed := by rw [hgrows]; intro h; cases h
        grows := h.grows
        copies := .inr (.inr (by show 0 < newsize; omega))
        buffer := ⟨rest', by rw [hrest'], by rw [← hrest', hlen']⟩
        offset := h.offset
        room := .inr (by show done.length < newsize; omega) }
  have hoff := h.offset
  rw [grow]
  cases hooked : j.hooks.allocate p.calls newsize with
  | none =>
      refine .inl ⟨_, rfl, .inl ⟨rfl, ?_, hgrows, _, _, hooked⟩⟩
      show p.live - 1 = j.live - 1
      rw [h.live]
  | some block =>
      refine .inr ⟨(), ?_⟩
      simp only
      split
      · exact ⟨_, rfl, hgrown _ (by simp) (Nat.le_refl _) block, rfl⟩
      · next hre =>
          -- `memcpy` takes one byte more than there is text
          have hpos : 0 < p.length :=
            (h.copies.resolve_left (by rw [hgrows]; exact Bool.noConfusion)).resolve_left hre
          have hroom : p.offset + 1 ≤ (done ++ rest).length := by
            rcases h.room with hnil | hroom
            · have hzero := congrArg List.length hnil
              rw [List.length_nil] at hzero
              omega
            · omega
          rw [if_pos ⟨hroom, by omega⟩]
          exact ⟨_, rfl, hgrown _ (by omega) hroom block, rfl⟩

/-- There is room for what was asked for and a byte more, or the buffer cannot
be that large. -/
theorem ensure_spec (h : done.length + needed + 1 ≤ j.total + 2) :
    Ensures (j.Holds depth done) (ensure j.hooks needed)
      (fun _ p => j.Holds depth done p ∧ done.length + needed + 1 ≤ p.length) j.Failed := by
  have hle := j.limit_le
  refine ensures_of_eq fun p hp => ensures_read fun p' hp' => ?_
  subst hp'
  obtain ⟨rest, hbuf, hlen⟩ := hp.buffer
  have hoff := hp.offset
  have hroom := hp.room
  have hfail : j.limit < j.total + 2 → Ensures (fun s => s = p')
      (fail : Fallible Printbuffer Unit)
      (fun _ p => j.Holds depth done p ∧ done.length + needed + 1 ≤ p.length) j.Failed := by
    intro hlimit
    exact ensures_fail fun s hs => by rw [hs]; exact hp.failed hlimit
  rw [hbuf]
  simp only
  rw [if_neg (by rcases hroom with rfl | hroom <;> simp at * <;> omega)]
  refine ensures_ite (fun hbig => hfail (by omega)) fun hbig => ?_
  refine ensures_ite (fun hfits => ensures_pure fun s hs => ?_) fun hfits => ?_
  · rw [hs]
    exact ⟨hp, by omega⟩
  have hlength := hp.length_le
  refine ensures_ite (fun hno => hfail ?_) fun hno => ?_
  · rw [hp.noalloc] at hno
    have := hp.fixed hno
    omega
  rw [hp.noalloc, Bool.not_eq_true] at hno
  have hmax := hp.grows hno
  have hgrow : ∀ newsize, newsize ≤ j.limit → done.length + needed + 1 ≤ newsize →
      Ensures (fun s => s = p') (grow j.hooks newsize (done ++ rest))
        (fun _ p => j.Holds depth done p ∧ done.length + needed + 1 ≤ p.length) j.Failed := by
    intro newsize hnew hneed
    have hspec : Ensures (fun p => j.Holds depth done p ∧ p.buffer = some (done ++ rest) ∧
        p.length < newsize) (grow j.hooks newsize (done ++ rest))
        (fun _ p => j.Holds depth done p ∧ p.length = newsize) j.Failed := grow_spec hnew hno
    refine hspec.mono (fun s hs => ?_) (fun _ s hs => ?_) fun s hs => hs
    · rw [hs]
      exact ⟨hp, hbuf, by omega⟩
    · exact ⟨hs.1, by rw [hs.2]; exact hneed⟩
  have hINT : INT_MAX = 2147483647 := rfl
  refine ensures_ite (fun hhalf => ?_) fun hhalf => hgrow _ (by omega) (by omega)
  exact ensures_ite (fun hint => hgrow _ (by omega) (by omega)) fun hint => hfail (by omega)

theorem putBytes_behind {rest : List UInt8} (h : done.length + bs.length ≤ (done ++ rest).length) :
    ∃ rest', putBytes (done ++ rest) done.length bs = some (done ++ bs ++ rest') ∧
      (done ++ bs ++ rest').length = (done ++ rest).length := by
  have hput := putBytes_append h
  exact ⟨rest.drop bs.length, hput, length_putBytes hput⟩

/-- A change of the buffer that puts bytes behind the text. -/
theorem store_spec {f : Nat → List UInt8 → Option (List UInt8)} (room : Nat)
    (hf : ∀ rest, done.length + room ≤ (done ++ rest).length →
      ∃ rest', f done.length (done ++ rest) = some (done ++ bs ++ rest') ∧
        (done ++ bs ++ rest').length = (done ++ rest).length) :
    Ensures (fun p => j.Holds depth done p ∧ done.length + room ≤ p.length) (store f)
      (fun _ p => j.Keeps depth p ∧ p.offset = done.length ∧ done.length + room ≤ p.length ∧
        ∃ rest, p.buffer = some (done ++ bs ++ rest) ∧ (done ++ bs ++ rest).length = p.length)
      j.Failed := by
  intro p hpre
  obtain ⟨h, hroom⟩ := hpre
  obtain ⟨rest, hbuf, hlen⟩ := h.buffer
  obtain ⟨rest', hrest', hlen'⟩ := hf rest (by omega)
  refine .inr ⟨(), { p with buffer := some (done ++ bs ++ rest') }, ?_, ?_⟩
  · rw [store, hbuf, h.offset]
    simp [hrest']
  · refine ⟨?_, h.offset, hroom, rest', rfl, by rw [hlen', hlen]⟩
    exact { h.toKeeps with }

/-- A step of the printer. -/
theorem emit_spec {length : Nat} (h : done.length + needed + 1 ≤ j.total + 2)
    (hbs : bs.length ≤ needed + 1) :
    Ensures (j.Holds depth done) (emit j.hooks needed bs length)
      (fun _ p => j.Keeps depth p ∧ p.offset = done.length + length ∧
        done.length + needed + 1 ≤ p.length ∧
        ∃ rest, p.buffer = some (done ++ bs ++ rest) ∧ (done ++ bs ++ rest).length = p.length)
      j.Failed := by
  refine ensures_bind (ensure_spec h) fun _ => ?_
  have hput : ∀ rest, done.length + (needed + 1) ≤ (done ++ rest).length →
      ∃ rest', putBytes (done ++ rest) done.length bs = some (done ++ bs ++ rest') ∧
        (done ++ bs ++ rest').length = (done ++ rest).length :=
    fun rest hrest => putBytes_behind (by omega)
  refine ensures_bind (store_spec (needed + 1) hput) fun _ => ?_
  refine ensures_modify fun p hp => ?_
  obtain ⟨hkeeps, hoff, hroom, hbuf⟩ := hp
  refine ⟨{ hkeeps with }, ?_, hroom, hbuf⟩
  show p.offset + length = done.length + length
  rw [hoff]

/-- A step that goes on behind what it has written. -/
theorem emit_on (t z : List UInt8) (h : done.length + needed + 1 ≤ j.total + 2)
    (ht : t.length ≤ needed) (hz : t.length + z.length ≤ needed + 1) :
    Ensures (j.Holds depth done) (emit j.hooks needed (t ++ z) t.length)
      (fun _ => j.Holds depth (done ++ t)) j.Failed := by
  refine (emit_spec h (by rw [List.length_append]; exact hz)).post fun _ p hp => ?_
  obtain ⟨hkeeps, hoff, hroom, rest, hbuf, hlen⟩ := hp
  refine { hkeeps with buffer := ⟨z ++ rest, ?_, ?_⟩, offset := ?_, room := .inr ?_ }
  · rw [hbuf]
    simp
  · rw [← hlen]
    simp
  · rw [hoff, List.length_append]
  · rw [List.length_append]
    omega

/-- A step that ends a text. -/
theorem emit_last (t' : List UInt8) {length : Nat}
    (h : (done ++ t).length + needed + 1 ≤ j.total + 2) (ht' : t'.length + 1 ≤ needed)
    (hlength : length ≤ t'.length) :
    Ensures (j.Holds depth (done ++ t)) (emit j.hooks needed (t' ++ [0]) length)
      (fun _ => j.Printed depth done (t ++ t')) j.Failed := by
  refine (emit_spec h (by rw [List.length_append, List.length_singleton]; omega)).post
    fun _ p hp => ?_
  obtain ⟨hkeeps, hoff, hroom, rest, hbuf, hlen⟩ := hp
  rw [List.length_append] at hoff hroom
  refine { hkeeps with
    buffer := ⟨rest, ?_, ?_⟩
    offset_ge := ?_
    offset_le := ?_
    fits := ?_ }
  · rw [hbuf]
    simp
  · rw [← hlen]
    simp
  · omega
  · rw [List.length_append]
    omega
  · rw [List.length_append]
    omega

/-- The offset goes to the zero byte behind the value. -/
theorem update_offset_end (hzero : 0 ∉ t) :
    Ensures (j.Printed depth done t) update_offset
      (fun _ p => j.Printed depth done t p ∧ p.offset = done.length + t.length) j.Failed := by
  intro p hp
  obtain ⟨rest, hbuf, hlen⟩ := hp.buffer
  have hge := hp.offset_ge
  have hle := hp.offset_le
  -- from the offset on it is the rest of the value, and the zero byte
  have hdrop : (done ++ t ++ 0 :: rest).drop p.offset =
      t.drop (p.offset - done.length) ++ 0 :: rest := by
    rw [List.append_assoc, List.drop_append, List.drop_eq_nil_of_le hge, List.nil_append,
      List.drop_append_of_le_length (by omega)]
  have hstr : str (t.drop (p.offset - done.length) ++ 0 :: rest) =
      some (t.drop (p.offset - done.length)) :=
    str_append_zero fun h => hzero (List.mem_of_mem_drop h)
  refine .inr ⟨(), { p with offset := done.length + t.length }, ?_, ?_, rfl⟩
  · rw [update_offset, hbuf]
    simp only [hdrop, hstr, Option.map_some, List.length_drop]
    congr 3
    omega
  · exact { hp with
      offset_ge := Nat.le_add_right _ _
      offset_le := Nat.le_refl _ }

theorem Job.Printed.holds (h : j.Printed depth done t p)
    (hoff : p.offset = done.length + t.length) : j.Holds depth (done ++ t) p := by
  obtain ⟨rest, hbuf, hlen⟩ := h.buffer
  have hfits := h.fits
  refine { h.toKeeps with buffer := ⟨0 :: rest, hbuf, hlen⟩, offset := ?_, room := .inr ?_ }
  · rw [hoff, List.length_append]
  · rw [List.length_append]
    omega

theorem update_offset_spec (hzero : 0 ∉ t) :
    Ensures (j.Printed depth done t) update_offset (fun _ => j.Holds depth (done ++ t))
      j.Failed :=
  (update_offset_end hzero).post fun _ _ h => h.1.holds h.2

end IotCamera
