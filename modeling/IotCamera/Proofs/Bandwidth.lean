import IotCamera.Common.Bandwidth

/-!
# Which bytes are counted

A call adds its length to what is counted, unless it begins a window. And a
window that is closed is reported as it is, unless its total has no place in an
`int`: then a negative number is printed. So the reports and the open window
together hold all bytes that were passed exactly as long as no packet comes with
the beginning of a window, and no window holds 2³¹ bytes when it is closed. The
counter cannot know when a window will begin: it is the first packet after more
than five seconds, however long it is.

What carries the induction is that the running total is at most what has been
passed. It is why nothing wraps as long as the sum of the lengths does not.
-/

namespace IotCamera

open Lts

namespace Bandwidth

variable {s : Bandwidth} {c : BandwidthCall}

theorem getBandwidth_first (h : s.sec = 0) :
    s.getBandwidth c = ({ s with sec := CInt.u32 c.tvSec }, none) := by
  rw [getBandwidth, if_pos h]

theorem getBandwidth_next (h : s.sec ≠ 0) (hold : s.elapsed c.tvSec > 5) :
    s.getBandwidth c = (⟨CInt.u32 c.tvSec, 0⟩,
      some ⟨CInt.wrapInt s.total, CInt.wrapInt (s.elapsed c.tvSec),
        CInt.wrapInt (((s.total : Int).tdiv (s.elapsed c.tvSec)).tdiv 1024)⟩) := by
  rw [getBandwidth, if_neg h, if_pos hold]

theorem getBandwidth_count (h : ¬ s.Begins c.tvSec) :
    s.getBandwidth c = ({ s with total := CInt.unsigned (s.total + c.len) }, none) := by
  obtain ⟨hfirst, hold⟩ := not_or.1 h
  rw [getBandwidth, if_neg hfirst, if_neg hold]

end Bandwidth

namespace Account

variable {s s' : Account} {c : BandwidthCall} {calls : List BandwidthCall}

/-- Everything that was passed is in a report or in the open window. -/
def Conserved (s : Account) : Prop := s.counted = s.passed

/-- The call closes a window and has it reported. -/
def Reports (s : Account) (c : BandwidthCall) : Prop :=
  s.counter.sec ≠ 0 ∧ s.counter.elapsed c.tvSec > 5

/-- A call that begins a window has nothing to count, and a window that is
closed holds less than 2³¹ bytes. -/
def Lossless (s : Account) (c : BandwidthCall) : Prop :=
  (s.counter.Begins c.tvSec → c.len = 0) ∧ (s.Reports c → s.counter.total < 2147483648)

instance (s : Account) : Decidable s.Conserved := inferInstanceAs (Decidable (_ = _))

instance (s : Account) (c : BandwidthCall) : Decidable (s.Reports c) :=
  inferInstanceAs (Decidable (_ ∧ _))

theorem call_passed (h : s.call c = some s') : s'.passed = s.passed + c.len := by
  rw [call, Option.some.injEq] at h
  subst h
  rfl

/-- The first call leaves the count as it is. -/
theorem call_first (hfirst : s.counter.sec = 0) (h : s.call c = some s') :
    s'.counted = s.counted ∧ s'.counter.total = s.counter.total := by
  rw [call, Option.some.injEq] at h
  subst h
  rw [Bandwidth.getBandwidth_first hfirst]
  simp [counted]

/-- A call that has a window reported takes its bytes from the count and puts
into it what is printed of them. -/
theorem call_reports (hreports : s.Reports c) (h : s.call c = some s') :
    s'.counted = s.counted - s.counter.total + CInt.wrapInt s.counter.total ∧
      s'.counter.total = 0 := by
  have hnext := Bandwidth.getBandwidth_next hreports.1 hreports.2
  rw [call, hnext, Option.some.injEq] at h
  rw [← h]
  refine ⟨?_, rfl⟩
  unfold counted
  rw [Option.toList_some, List.map_append, List.sum_append, List.map_singleton,
    List.sum_singleton, Nat.cast_zero, Int.add_zero]
  have hcancel : ∀ reported total printed : Int,
      reported + printed = reported + total - total + printed := by
    intro reported total printed
    omega
  rw [hcancel _ s.counter.total]

/-- Any other call counts its packet. -/
theorem call_counts (hbegins : ¬ s.counter.Begins c.tvSec) (hnonneg : 0 ≤ c.len)
    (hfit : s.counter.total + c.len < 4294967296) (h : s.call c = some s') :
    s'.counted = s.counted + c.len ∧ (s'.counter.total : Int) = s.counter.total + c.len := by
  rw [call, Option.some.injEq] at h
  subst h
  rw [Bandwidth.getBandwidth_count hbegins]
  have htotal : (CInt.unsigned (s.counter.total + c.len) : Int) = s.counter.total + c.len := by
    unfold CInt.unsigned
    omega
  refine ⟨?_, htotal⟩
  simp only [counted, Option.toList_none, List.append_nil, htotal]
  omega

theorem begins_iff : s.counter.Begins c.tvSec ↔ s.counter.sec = 0 ∨ s.Reports c := by
  unfold Bandwidth.Begins Reports
  tauto

/-- The running total is at most what has been passed. -/
def Bounded (s : Account) : Prop := (s.counter.total : Int) ≤ s.passed

/-- A call keeps the account exactly if it drops nothing, and the bound in any
case. -/
theorem call_conserved_iff (hs : s.Conserved) (hbound : s.Bounded) (hnonneg : 0 ≤ c.len)
    (hfit : s.passed + c.len < 4294967296) (h : s.call c = some s') :
    (s'.Conserved ↔ s.Lossless c) ∧ s'.Bounded := by
  have hpassed := call_passed h
  unfold Conserved at hs ⊢
  unfold Bounded at hbound ⊢
  unfold Lossless
  by_cases hfirst : s.counter.sec = 0
  · obtain ⟨hcounted, htotal⟩ := call_first hfirst h
    have hreports : ¬ s.Reports c := fun hr => hr.1 hfirst
    simp only [begins_iff, hfirst, hreports, true_or, forall_const, false_implies, and_true]
    omega
  by_cases hreports : s.Reports c
  · obtain ⟨hcounted, htotal⟩ := call_reports hreports h
    simp only [begins_iff, hreports, or_true, forall_const]
    by_cases hbig : s.counter.total < 2147483648
    · rw [CInt.wrapInt_eq hbig] at hcounted
      omega
    · -- what is printed is too little by 2³², and no packet makes up for it
      rw [CInt.wrapInt_of_le (Nat.le_of_not_lt hbig) (by omega)] at hcounted
      omega
  · have hbegins : ¬ s.counter.Begins c.tvSec := fun hb =>
      (begins_iff.1 hb).elim hfirst hreports
    obtain ⟨hcounted, htotal⟩ := call_counts hbegins hnonneg (by omega) h
    simp only [hbegins, hreports, false_implies, and_self, iff_true]
    omega

theorem along_conserved_iff (hs : s.Conserved) (hbound : s.Bounded)
    (hnonneg : ∀ c ∈ calls, 0 ≤ c.len)
    (hfit : s.passed + (calls.map BandwidthCall.len).sum < 4294967296) :
    Along Conserved call s calls ↔ Meets Lossless call s calls := by
  induction calls generalizing s with
  | nil => exact iff_of_true (along_nil.2 hs) Meets.nil
  | cons c calls ih =>
      have hrest : ∀ c ∈ calls, 0 ≤ c.len := fun c hc => hnonneg c (List.mem_cons_of_mem _ hc)
      have hsum : 0 ≤ (calls.map BandwidthCall.len).sum :=
        List.sum_nonneg (by simpa using hrest)
      rw [List.map_cons, List.sum_cons] at hfit
      obtain ⟨t, ht⟩ : ∃ t, s.call c = some t := ⟨_, rfl⟩
      have hpassed := call_passed ht
      obtain ⟨hstep, hbound'⟩ :=
        call_conserved_iff hs hbound (hnonneg c List.mem_cons_self) (by omega) ht
      have hnext : t.Conserved → (Along Conserved call t calls ↔ Meets Lossless call t calls) :=
        fun hc => ih hc hbound' hrest (by omega)
      rw [along_cons, meets_cons]
      constructor
      · intro h
        have halong := h.2 t ht
        refine ⟨hstep.1 halong.start, ?_⟩
        intro t' ht'
        obtain rfl := Option.some.inj (ht.symm.trans ht')
        exact (hnext halong.start).1 halong
      · intro h
        refine ⟨hs, ?_⟩
        intro t' ht'
        obtain rfl := Option.some.inj (ht.symm.trans ht')
        exact (hnext (hstep.2 h.1)).2 (h.2 t ht)

/-- For every sequence of calls, at whatever times, nothing is lost in any of
the states exactly if the calls that begin a window pass no bytes, and no window
holds 2³¹ bytes when it is closed. -/
theorem conserved_iff_lossless (hnonneg : ∀ c ∈ calls, 0 ≤ c.len)
    (hfit : (calls.map BandwidthCall.len).sum < 4294967296) :
    Along Conserved call init calls ↔ Meets Lossless call init calls := by
  refine along_conserved_iff rfl (Int.le_refl 0) hnonneg ?_
  rw [show init.passed = 0 from rfl, Int.zero_add]
  exact hfit

/-- Forty bytes are counted and reported, and the call that reports them
passes none itself. -/
theorem conserved_over_rollover :
    Along Conserved call init [⟨100, 0⟩, ⟨103, 40⟩, ⟨107, 0⟩] := by
  refine (conserved_iff_lossless (by simp) (by decide)).2 ?_
  unfold Lossless
  decide

/-- Sixty bytes come with the end of the window, and are neither in the report
nor in the next window. -/
theorem rollover_loses : ∃ calls : List BandwidthCall,
    (∀ c ∈ calls, 0 ≤ c.len ∧ 0 < c.tvSec) ∧ (calls.map BandwidthCall.tvSec).Pairwise (· ≤ ·) ∧
      (calls.map BandwidthCall.len).sum < 4294967296 ∧ ¬ Along Conserved call init calls := by
  refine ⟨[⟨100, 0⟩, ⟨103, 40⟩, ⟨107, 60⟩], by simp, by decide, by decide, ?_⟩
  intro h
  have hlast := h _ _ List.prefix_rfl (run_get (by decide))
  exact absurd hlast (by decide)

/-- Three thousand million bytes are reported as a negative number. -/
example : ¬ Along Conserved call init
    [⟨100, 0⟩, ⟨101, 2000000000⟩, ⟨102, 1000000000⟩, ⟨107, 0⟩] := by
  intro h
  have hlast := h _ _ List.prefix_rfl (run_get (by decide))
  exact absurd hlast (by decide)

end Account

end IotCamera
