/-!
# Counted loops that may fail

`for (i = lo; i < hi; i++)` over a body that is a partial function of the
loop variable and the state. An iteration that has no meaning (an access out
of bounds, an overflow) leaves the whole loop without one.

One rule proves that a loop succeeds and what it leaves: an invariant that
mentions the loop variable and that each iteration moves on by one. The other
goes back: a loop that succeeded has succeeded in every iteration.
-/

universe u

variable {σ : Type u} {lo hi : Nat} {body : Nat → σ → Option σ} {s s' : σ}

def forLoop (lo hi : Nat) (body : Nat → σ → Option σ) (s : σ) : Option σ :=
  (List.range' lo (hi - lo)).foldlM (fun s i => body i s) s

theorem forLoop_done (h : hi ≤ lo) : forLoop lo hi body s = some s := by
  rw [forLoop, Nat.sub_eq_zero_of_le h]
  rfl

theorem forLoop_next (h : lo < hi) :
    forLoop lo hi body s = (body lo s).bind (forLoop (lo + 1) hi body) := by
  obtain ⟨n, hn⟩ : ∃ n, hi - lo = n + 1 := ⟨hi - lo - 1, by omega⟩
  have hn' : hi - (lo + 1) = n := by omega
  have hrest : forLoop (lo + 1) hi body =
      fun t => (List.range' (lo + 1) n).foldlM (fun s i => body i s) t := by
    funext t
    rw [forLoop, hn']
  rw [forLoop, hn, List.range'_succ, List.foldlM_cons, hrest]
  rfl

theorem loop_induction {motive : Nat → Prop} (hi : Nat)
    (done : ∀ lo, hi ≤ lo → motive lo)
    (next : ∀ lo, lo < hi → motive (lo + 1) → motive lo) (lo : Nat) : motive lo := by
  induction h : hi - lo generalizing lo with
  | zero => exact done lo (by omega)
  | succ n ih => exact next lo (by omega) (ih (lo + 1) (by omega))

theorem forLoop_congr {body' : Nat → σ → Option σ}
    (h : ∀ i t, lo ≤ i → i < hi → body i t = body' i t) (t : σ) :
    forLoop lo hi body t = forLoop lo hi body' t := by
  induction lo using loop_induction hi generalizing t with
  | done lo hge => rw [forLoop_done hge, forLoop_done hge]
  | next lo hlt ih =>
      rw [forLoop_next hlt, forLoop_next hlt, h lo t (Nat.le_refl _) hlt]
      congr 1
      funext u
      exact ih (fun i t hlo hhi => h i t (Nat.le_of_succ_le hlo) hhi) u

/-- The invariant rule: it holds at the start, and an iteration that starts
in it succeeds and ends in it one further. -/
theorem forLoop_spec {I : Nat → σ → Prop} (hle : lo ≤ hi) (h : I lo s)
    (hbody : ∀ i t, lo ≤ i → i < hi → I i t → ∃ t', body i t = some t' ∧ I (i + 1) t') :
    ∃ s', forLoop lo hi body s = some s' ∧ I hi s' := by
  induction lo using loop_induction hi generalizing s with
  | done lo hge =>
      obtain rfl : lo = hi := Nat.le_antisymm hle hge
      exact ⟨s, forLoop_done (Nat.le_refl _), h⟩
  | next lo hlt ih =>
      obtain ⟨t, ht, hI⟩ := hbody lo s (Nat.le_refl _) hlt h
      obtain ⟨s', hs', hI'⟩ := ih hlt hI
        fun i u hlo hhi => hbody i u (Nat.le_of_succ_le hlo) hhi
      exact ⟨s', by rw [forLoop_next hlt, ht]; exact hs', hI'⟩

/-- What every iteration keeps, the loop keeps. -/
theorem forLoop_keeps {J : σ → Prop}
    (hkeep : ∀ i t t', J t → body i t = some t' → J t')
    (hrun : forLoop lo hi body s = some s') (h : J s) : J s' := by
  induction lo using loop_induction hi generalizing s with
  | done lo hge =>
      rw [forLoop_done hge] at hrun
      exact Option.some.inj hrun ▸ h
  | next lo hlt ih =>
      rw [forLoop_next hlt] at hrun
      obtain ⟨t, ht, hrest⟩ := Option.bind_eq_some_iff.1 hrun
      exact ih hrest (hkeep lo s t h ht)

/-- A change of the state that the iterations do not see goes through the
loop. -/
theorem forLoop_map {g : σ → σ} {body' : Nat → σ → Option σ}
    (hbody : ∀ i t, body' i (g t) = (body i t).map g) :
    forLoop lo hi body' (g s) = (forLoop lo hi body s).map g := by
  induction lo using loop_induction hi generalizing s with
  | done lo hge => rw [forLoop_done hge, forLoop_done hge, Option.map_some]
  | next lo hlt ih =>
      rw [forLoop_next hlt, forLoop_next hlt, hbody]
      cases body lo s with
      | none => rfl
      | some t => exact ih

/-- A loop that succeeded has succeeded in every iteration, from a state with
whatever the iterations keep. -/
theorem forLoop_each {J : σ → Prop}
    (hkeep : ∀ i t t', J t → body i t = some t' → J t')
    (hrun : forLoop lo hi body s = some s') (h : J s) {i : Nat} (hlo : lo ≤ i)
    (hhi : i < hi) : ∃ t t', J t ∧ body i t = some t' := by
  induction lo using loop_induction hi generalizing s with
  | done lo hge => omega
  | next lo hlt ih =>
      rw [forLoop_next hlt] at hrun
      obtain ⟨t, ht, hrest⟩ := Option.bind_eq_some_iff.1 hrun
      by_cases heq : i = lo
      · exact ⟨s, t, h, heq ▸ ht⟩
      · exact ih hrest (hkeep lo s t h ht) (by omega)

/-- A loop over the indices of a list that changes one element after another in
place. -/
theorem forLoop_set {α : Type u} (f : α → α) (xs : List α) :
    forLoop 0 xs.length (fun i ys => ys[i]?.map fun y => ys.set i (f y)) xs =
      some (xs.map f) := by
  obtain ⟨ys, hys, hI⟩ : ∃ ys, forLoop 0 xs.length
      (fun i ys => ys[i]?.map fun y => ys.set i (f y)) xs = some ys ∧
      ys = (xs.take xs.length).map f ++ xs.drop xs.length :=
    forLoop_spec (I := fun i ys => ys = (xs.take i).map f ++ xs.drop i) (Nat.zero_le xs.length) rfl
      fun i ys _ hi hI => by
        have hlen : ((xs.take i).map f).length = i := by
          rw [List.length_map, List.length_take]
          omega
        refine ⟨(xs.take i).map f ++ f xs[i] :: xs.drop (i + 1), ?_, ?_⟩
        · have hget : ((xs.take i).map f ++ xs[i] :: xs.drop (i + 1))[i]? = some xs[i] := by
            rw [List.getElem?_append_right (Nat.le_of_eq hlen), hlen, Nat.sub_self]
            rfl
          rw [hI, List.drop_eq_getElem_cons hi, hget, Option.map_some,
            List.set_append_right _ _ (Nat.le_of_eq hlen), hlen, Nat.sub_self, List.set_cons_zero]
        · rw [List.take_succ_eq_append_getElem hi, List.map_append, List.append_assoc]
          rfl
  rw [hys, hI, List.take_length, List.drop_length, List.append_nil]

/-! ## A loop in a loop -/

variable {rows cols : Nat} {cell : Nat → Nat → σ → Option σ} {I : Nat → Nat → σ → Prop}

/-- Row by row, with something to do at the end of each row: the invariant
moves on by a cell in each iteration of the inner loop, and to the start of
the next row at the end of one. -/
theorem forLoop_rows {next : σ → Option σ} (h : I 0 0 s)
    (hcell : ∀ i j t, i < rows → j < cols → I i j t →
      ∃ t', cell i j t = some t' ∧ I i (j + 1) t')
    (hrow : ∀ i t, i < rows → I i cols t → ∃ t', next t = some t' ∧ I (i + 1) 0 t') :
    ∃ s', forLoop 0 rows (fun i t => (forLoop 0 cols (cell i) t).bind next) s = some s' ∧
      I rows 0 s' := by
  refine forLoop_spec (I := fun i => I i 0) (Nat.zero_le _) h fun i t _ hi hI => ?_
  obtain ⟨u, hu, hend⟩ := forLoop_spec (I := I i) (Nat.zero_le cols) hI
    fun j u _ hj hu => hcell i j u hi hj hu
  obtain ⟨t', ht', hstart⟩ := hrow i u hi hend
  exact ⟨t', by rw [hu]; exact ht', hstart⟩

/-- The same with nothing to do at the end of a row. -/
theorem forLoop_cells (h : I 0 0 s)
    (hcell : ∀ i j t, i < rows → j < cols → I i j t →
      ∃ t', cell i j t = some t' ∧ I i (j + 1) t')
    (hrow : ∀ i t, i < rows → I i cols t → I (i + 1) 0 t) :
    ∃ s', forLoop 0 rows (fun i => forLoop 0 cols (cell i)) s = some s' ∧ I rows 0 s' := by
  have hloop : ∃ s', forLoop 0 rows (fun i t => (forLoop 0 cols (cell i) t).bind some) s =
      some s' ∧ I rows 0 s' :=
    forLoop_rows h hcell fun i t hi hI => ⟨t, rfl, hrow i t hi hI⟩
  obtain ⟨s', hs', hend⟩ := hloop
  refine ⟨s', ?_, hend⟩
  rw [← hs']
  exact forLoop_congr (fun i t _ _ => Option.bind_fun_some _ |>.symm) s
