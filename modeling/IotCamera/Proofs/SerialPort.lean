import IotCamera.Serial.Port

/-!
# What becomes of a request

Every group of settings is a field of its own, and the step for one group
leaves the fields of the others alone. So each field of the result is what
its own step makes of it: the one asked for if the step supports it, and
otherwise what was there before. The size is not, since it has been cleared
by then, which is five bits.

With odd and even parity both the check of the parity and the stripping of
the eighth bit are switched on. Without parity the check is switched off, and
the stripping is as it was. That makes a request without parity the one
supported request that the settings from before can be seen through.
-/

namespace IotCamera

open TtyFlag Flags

namespace PortSetup

variable {s : PortSetup} {f : BitVec 32} {r : PortRequest}

/-! ## A step keeps the fields of the others -/

theorem enable_keeps (h : (clocal ||| cread) &&& f = 0#32) (h' : csize &&& f = 0#32) :
    s.enable.opt.cflag &&& f = s.opt.cflag &&& f := by
  show ((s.opt.cflag ||| (clocal ||| cread)) &&& ~~~csize) &&& f = _
  rw [clear_other h', set_other h]

theorem speedArr_part (i : Nat) : speedArr.getD i 0 &&& cbaud = speedArr.getD i 0 := by
  have hmem : ∀ code ∈ speedArr, code &&& cbaud = code := by
    simp [speedArr, cbaud]
  rw [List.getD_eq_getElem?_getD]
  cases hcode : speedArr[i]? with
  | none => rfl
  | some code => exact hmem code (List.mem_of_getElem? hcode)

theorem trySpeed_keeps (h : cbaud &&& f = 0#32) (speed : Int) (i : Nat) :
    (s.trySpeed speed i).opt.cflag &&& f = s.opt.cflag &&& f := by
  have hcode := apart_of_part (speedArr_part i) h
  unfold trySpeed
  by_cases hspeed : speed = nameArr.getD i 0
  · rw [if_pos hspeed]
    split
    all_goals
      show ((((s.opt.cflag &&& ~~~cbaud) ||| speedArr.getD i 0) &&& ~~~cbaud) |||
        speedArr.getD i 0) &&& f = _
      rw [set_other hcode, clear_other h, set_other hcode, clear_other h]
  · rw [if_neg hspeed]
    split <;> rfl

/-- What every turn of the loop over the speeds keeps, the loop keeps. -/
theorem setSpeed_invariant {I : PortSetup → Prop} {speed : Int}
    (hturn : ∀ i s, i < speedArr.length → I s → I (s.trySpeed speed i)) (h : I s) :
    I (s.setSpeed speed) := by
  have hloop : ∀ l : List Nat, (∀ i ∈ l, i < speedArr.length) → ∀ s, I s →
      I (l.foldl (trySpeed speed) s) := by
    intro l
    induction l with
    | nil => exact fun _ s hs => hs
    | cons i l ih =>
        intro hl s hs
        exact ih (fun i hi => hl i (List.mem_cons_of_mem _ hi)) _
          (hturn i s (hl i List.mem_cons_self) hs)
  exact hloop _ (fun i hi => List.mem_range.1 hi) s h

theorem setSpeed_keeps (h : cbaud &&& f = 0#32) (speed : Int) :
    (s.setSpeed speed).opt.cflag &&& f = s.opt.cflag &&& f :=
  setSpeed_invariant (I := fun t => t.opt.cflag &&& f = s.opt.cflag &&& f)
    (fun i _ _ ht => (trySpeed_keeps h speed i).trans ht) rfl

theorem setDataBits_keeps (h : csize &&& f = 0#32) (dataBits : Int) :
    (s.setDataBits dataBits).opt.cflag &&& f = s.opt.cflag &&& f := by
  unfold setDataBits
  split
  · exact set_other (apart_of_part (by decide) h)
  split
  · exact set_other (apart_of_part (by decide) h)
  · rfl

theorem setParity_keeps (h : (parodd ||| parenb) &&& f = 0#32) (parity : Int) :
    (s.setParity parity).opt.cflag &&& f = s.opt.cflag &&& f := by
  have hodd : parodd &&& f = 0#32 := apart_of_part (by decide) h
  have henb : parenb &&& f = 0#32 := apart_of_part (by decide) h
  unfold setParity
  split
  · exact clear_other henb
  split
  · exact set_other h
  split
  · exact (clear_other hodd).trans (set_other henb)
  · rfl

theorem setStopBits_keeps (h : cstopb &&& f = 0#32) (stopBits : Int) :
    (s.setStopBits stopBits).opt.cflag &&& f = s.opt.cflag &&& f := by
  unfold setStopBits
  split
  · exact clear_other h
  split
  · exact set_other h
  · rfl

theorem setRaw_keeps (h : crtscts &&& f = 0#32) :
    s.setRaw.opt.cflag &&& f = s.opt.cflag &&& f := clear_other h

/-! ## A step sets its own field -/

theorem enable_size : s.enable.opt.cflag &&& csize = 0#32 := clear_all (by decide)

theorem trySpeed_other {speed : Int} {i : Nat} (hne : speed ≠ nameArr.getD i 0)
    (hi : i < speedArr.length) : s.trySpeed speed i = s := by
  unfold trySpeed
  rw [if_neg hne, if_neg (Nat.ne_of_lt hi)]

/-- A speed that is not in the array leaves the settings as they were, and no
message is printed. -/
theorem setSpeed_unsupported {speed : Int} (h : speed ∉ nameArr) : s.setSpeed speed = s := by
  refine setSpeed_invariant (I := fun t => t = s) (fun i t hi ht => ?_) rfl
  have hne : speed ≠ nameArr.getD i 0 := by
    intro heq
    have hi' : i < nameArr.length := hi
    rw [List.getD_eq_getElem?_getD, List.getElem?_eq_getElem hi'] at heq
    exact h (heq ▸ List.getElem_mem hi')
  exact (trySpeed_other hne hi).trans ht

theorem setSpeed_supported {speed : Int} (h : speed ∈ nameArr) :
    (s.setSpeed speed).opt.baudRate = some speed := by
  have hcode : ∀ code : BitVec 32, code &&& cbaud = code →
      ((((s.opt.cflag &&& ~~~cbaud) ||| code) &&& ~~~cbaud) ||| code) &&& cbaud = code :=
    fun code hpart => set_clear (clear_all (by decide)) hpart
  simp only [nameArr, List.mem_cons, List.not_mem_nil, or_false] at h
  rcases h with rfl | rfl | rfl | rfl | rfl
  · exact congrArg (fun v => baudRates.lookup v) (hcode 0x1002 (by decide))
  · exact congrArg (fun v => baudRates.lookup v) (hcode 0xd (by decide))
  · exact congrArg (fun v => baudRates.lookup v) (hcode 0xf (by decide))
  · exact congrArg (fun v => baudRates.lookup v) (hcode 0xe (by decide))
  · exact congrArg (fun v => baudRates.lookup v) (hcode 0xc (by decide))

theorem setDataBits_size (hclear : s.opt.cflag &&& csize = 0#32) (dataBits : Int) :
    (s.setDataBits dataBits).opt.charSize =
      some (if dataBits = 8 then 8 else if dataBits = 7 then 7 else 5) := by
  unfold setDataBits
  split
  · show charSizes.lookup ((s.opt.cflag ||| cs8) &&& csize) = _
    rw [set_clear hclear (by decide)]
    rfl
  split
  · show charSizes.lookup ((s.opt.cflag ||| cs7) &&& csize) = _
    rw [set_clear hclear (by decide)]
    rfl
  · show charSizes.lookup (s.opt.cflag &&& csize) = _
    rw [hclear]
    rfl

theorem setParity_supported {parity : Int} {p : Parity} (h : Parity.ofChar parity = some p) :
    (s.setParity parity).opt.parity = p := by
  unfold Parity.ofChar at h
  unfold setParity
  split at h
  · next hnone =>
      obtain rfl := Option.some.inj h
      rw [if_pos hnone]
      show (if (s.opt.cflag &&& ~~~parenb) &&& parenb = 0#32 then _ else _) = _
      rw [if_pos (clear_all (by decide))]
  · next hnone =>
      rw [if_neg hnone]
      split at h
      · next hodd =>
          obtain rfl := Option.some.inj h
          rw [if_pos hodd]
          show (if (s.opt.cflag ||| (parodd ||| parenb)) &&& parenb = 0#32 then _
            else if (s.opt.cflag ||| (parodd ||| parenb)) &&& parodd = 0#32 then _ else _) = _
          rw [set_all (by decide), set_all (by decide)]
          rfl
      · next hodd =>
          rw [if_neg hodd]
          split at h
          · next heven =>
              obtain rfl := Option.some.inj h
              rw [if_pos heven]
              show (if ((s.opt.cflag ||| parenb) &&& ~~~parodd) &&& parenb = 0#32 then _
                else if ((s.opt.cflag ||| parenb) &&& ~~~parodd) &&& parodd = 0#32 then _
                else _) = _
              rw [clear_other (by decide), set_all (by decide), clear_all (by decide)]
              rfl
          · simp at h

theorem setStopBits_one : (s.setStopBits 1).opt.stopBits = 1 := by
  show (if (s.opt.cflag &&& ~~~cstopb) &&& cstopb = 0#32 then _ else _) = _
  rw [if_pos (clear_all (by decide))]

theorem setStopBits_two : (s.setStopBits 2).opt.stopBits = 2 := by
  show (if (s.opt.cflag ||| cstopb) &&& cstopb = 0#32 then _ else _) = _
  rw [set_all (by decide)]
  rfl

/-! ## The input flags -/

theorem trySpeed_iflag (speed : Int) (i : Nat) :
    (s.trySpeed speed i).opt.iflag = s.opt.iflag := by
  unfold trySpeed
  split <;> split <;> rfl

theorem setSpeed_iflag (speed : Int) : (s.setSpeed speed).opt.iflag = s.opt.iflag :=
  setSpeed_invariant (I := fun t => t.opt.iflag = s.opt.iflag)
    (fun i _ _ ht => (trySpeed_iflag speed i).trans ht) rfl

theorem setDataBits_iflag (dataBits : Int) :
    (s.setDataBits dataBits).opt.iflag = s.opt.iflag := by
  unfold setDataBits
  split
  · rfl
  split <;> rfl

theorem setStopBits_iflag (stopBits : Int) :
    (s.setStopBits stopBits).opt.iflag = s.opt.iflag := by
  unfold setStopBits
  split
  · rfl
  split <;> rfl

theorem setRaw_checking : s.setRaw.opt.checking = s.opt.checking := by
  show ((s.opt.iflag &&& ~~~ixoff &&& ~~~ixon &&& ~~~(icrnl ||| igncr)) &&& inpck,
    (s.opt.iflag &&& ~~~ixoff &&& ~~~ixon &&& ~~~(icrnl ||| igncr)) &&& istrip) = _
  rw [clear_other (by decide), clear_other (by decide), clear_other (by decide),
    clear_other (by decide), clear_other (by decide), clear_other (by decide)]
  rfl

/-- Without parity the stripping is as it was. -/
theorem setParity_none {parity : Int} (h : Parity.ofChar parity = some .none) :
    (s.setParity parity).opt.checking = (0#32, s.opt.iflag &&& istrip) := by
  unfold Parity.ofChar at h
  unfold setParity
  split at h
  · next hnone =>
      rw [if_pos hnone]
      show ((s.opt.iflag &&& ~~~inpck) &&& inpck, (s.opt.iflag &&& ~~~inpck) &&& istrip) = _
      rw [clear_all (by decide), clear_other (by decide)]
  · split at h
    · simp at h
    · split at h <;> simp at h

/-- With parity both are on. -/
theorem setParity_parity {parity : Int} {p : Parity} (h : Parity.ofChar parity = some p)
    (hp : p ≠ .none) : (s.setParity parity).opt.checking = (inpck, istrip) := by
  have hset : ((s.opt.iflag ||| (inpck ||| istrip)) &&& inpck,
      (s.opt.iflag ||| (inpck ||| istrip)) &&& istrip) = (inpck, istrip) := by
    rw [set_all (by decide), set_all (by decide)]
  unfold Parity.ofChar at h
  unfold setParity
  split at h
  · exact absurd (Option.some.inj h).symm hp
  · next hnone =>
      rw [if_neg hnone]
      split at h
      · next hodd =>
          rw [if_pos hodd]
          exact hset
      · next hodd =>
          rw [if_neg hodd]
          split at h
          · next heven =>
              rw [if_pos heven]
              exact hset
          · simp at h

end PortSetup

/-! ## The whole of `setup_port` -/

namespace SetupPort

variable {port : PortAnswers} {r : PortRequest}

/-- What the groups begin with. -/
def start (port : PortAnswers) : PortSetup :=
  if port.tcgetattr < 0 then (⟨port.opt, []⟩ : PortSetup).say "Unable to get the attribute"
  else ⟨port.opt, []⟩

theorem start_opt : (start port).opt = port.opt := by
  unfold start
  split <;> rfl

/-- The steps up to the size of the characters, and the result after all of
them. -/
def sized (port : PortAnswers) (r : PortRequest) : PortSetup :=
  ((start port).enable.setSpeed r.speed).setDataBits r.dataBits

theorem setupPort_opt : (setupPort port r).opt =
    (((sized port r).setParity r.parity).setStopBits r.stopBits).setRaw.opt := rfl

theorem baudRate_eq (port : PortAnswers) (r : PortRequest) :
    (setupPort port r).opt.baudRate =
      if r.speed ∈ nameArr then some r.speed else port.opt.baudRate := by
  have hkeep : (setupPort port r).opt.cflag &&& cbaud =
      ((start port).enable.setSpeed r.speed).opt.cflag &&& cbaud := by
    rw [setupPort_opt, PortSetup.setRaw_keeps (by decide),
      PortSetup.setStopBits_keeps (by decide), PortSetup.setParity_keeps (by decide), sized,
      PortSetup.setDataBits_keeps (by decide)]
  unfold Termios.baudRate
  rw [hkeep]
  split
  · next h => exact PortSetup.setSpeed_supported h
  · next h =>
      rw [PortSetup.setSpeed_unsupported h, PortSetup.enable_keeps (by decide) (by decide),
        start_opt]

theorem charSize_eq (port : PortAnswers) (r : PortRequest) :
    (setupPort port r).opt.charSize =
      some (if r.dataBits = 8 then 8 else if r.dataBits = 7 then 7 else 5) := by
  have hclear : ((start port).enable.setSpeed r.speed).opt.cflag &&& csize = 0#32 := by
    rw [PortSetup.setSpeed_keeps (by decide), PortSetup.enable_size]
  have hkeep : (setupPort port r).opt.cflag &&& csize = (sized port r).opt.cflag &&& csize := by
    rw [setupPort_opt, PortSetup.setRaw_keeps (by decide),
      PortSetup.setStopBits_keeps (by decide), PortSetup.setParity_keeps (by decide)]
  unfold Termios.charSize
  rw [hkeep]
  exact PortSetup.setDataBits_size hclear r.dataBits

theorem parity_eq {p : Parity} (h : Parity.ofChar r.parity = some p) :
    (setupPort port r).opt.parity = p := by
  unfold Termios.parity
  rw [setupPort_opt, PortSetup.setRaw_keeps (by decide), PortSetup.setStopBits_keeps (by decide),
    PortSetup.setRaw_keeps (by decide), PortSetup.setStopBits_keeps (by decide)]
  exact PortSetup.setParity_supported h

theorem stopBits_eq : (setupPort port r).opt.stopBits = r.stopBits ↔
    r.stopBits = 1 ∨ r.stopBits = 2 := by
  have hkeep : (setupPort port r).opt.stopBits =
      (((sized port r).setParity r.parity).setStopBits r.stopBits).opt.stopBits := by
    unfold Termios.stopBits
    rw [setupPort_opt, PortSetup.setRaw_keeps (by decide)]
  rw [hkeep]
  constructor
  · intro h
    rw [← h]
    unfold Termios.stopBits
    split
    · exact Or.inl rfl
    · exact Or.inr rfl
  · intro h
    rcases h with h | h
    · rw [h]
      exact PortSetup.setStopBits_one
    · rw [h]
      exact PortSetup.setStopBits_two

theorem sized_iflag : (sized port r).opt.iflag = port.opt.iflag := by
  rw [sized, PortSetup.setDataBits_iflag, PortSetup.setSpeed_iflag]
  show (start port).opt.iflag = _
  rw [start_opt]

theorem checking_eq : (setupPort port r).opt.checking =
    ((sized port r).setParity r.parity).opt.checking := by
  rw [setupPort_opt, PortSetup.setRaw_checking]
  unfold Termios.checking
  rw [PortSetup.setStopBits_iflag]

/-- The settings are the ones asked for. -/
structure Applied (r : PortRequest) (opt : Termios) : Prop where
  speed : opt.baudRate = some r.speed
  dataBits : opt.charSize = some r.dataBits
  parity : Parity.ofChar r.parity = some opt.parity
  stopBits : opt.stopBits = r.stopBits

/-- If 0 is returned, the settings that go to the port are the ones asked for,
and whether parity is checked and stripped does not depend on what the port
had. -/
def Succeeds (port : PortAnswers) (r : PortRequest) : Prop :=
  (setupPort port r).ret = 0 → Applied r (setupPort port r).opt ∧
    ∀ prior, (setupPort { port with opt := prior } r).opt.checking =
      (setupPort port r).opt.checking

/-- What `setup_port` can do. Five bits it can by accident. -/
structure Supported (port : PortAnswers) (r : PortRequest) : Prop where
  speed : r.speed ∈ nameArr ∨ port.opt.baudRate = some r.speed
  dataBits : r.dataBits = 5 ∨ r.dataBits = 7 ∨ r.dataBits = 8
  parity : Parity.ofChar r.parity = some .odd ∨ Parity.ofChar r.parity = some .even
  stopBits : r.stopBits = 1 ∨ r.stopBits = 2

theorem speed_iff : (setupPort port r).opt.baudRate = some r.speed ↔
    r.speed ∈ nameArr ∨ port.opt.baudRate = some r.speed := by
  rw [baudRate_eq]
  split
  · next h => simp [h]
  · next h => simp [h]

theorem dataBits_iff : (setupPort port r).opt.charSize = some r.dataBits ↔
    r.dataBits = 5 ∨ r.dataBits = 7 ∨ r.dataBits = 8 := by
  rw [charSize_eq, Option.some.injEq]
  split
  · omega
  split <;> omega

/-- With other settings before, a request without parity strips differently. -/
theorem stripping_differs (port : PortAnswers) (h : Parity.ofChar r.parity = some .none) :
    ∃ prior, (setupPort { port with opt := prior } r).opt.checking ≠
      (setupPort port r).opt.checking := by
  refine ⟨{ port.opt with iflag := ~~~port.opt.iflag }, ?_⟩
  rw [checking_eq, checking_eq, PortSetup.setParity_none h, PortSetup.setParity_none h,
    sized_iflag, sized_iflag]
  intro heq
  have hbit := congrArg (fun v : BitVec 32 => v.getLsbD 5) (Prod.mk.inj heq).2
  simp [istrip] at hbit

/-- For every request and all settings before, the success of `setup_port`
means what it says exactly if the request is a supported one with parity. -/
theorem succeeds_iff : Succeeds port r ↔ Supported port r := by
  constructor
  · intro h
    obtain ⟨happlied, hchecking⟩ := h rfl
    refine ⟨speed_iff.1 happlied.speed, dataBits_iff.1 happlied.dataBits, ?_,
      stopBits_eq.1 happlied.stopBits⟩
    have hparity := happlied.parity
    cases hp : (setupPort port r).opt.parity with
    | none =>
        rw [hp] at hparity
        obtain ⟨prior, hprior⟩ := stripping_differs port hparity
        exact absurd (hchecking prior) hprior
    | odd => exact Or.inl (hp ▸ hparity)
    | even => exact Or.inr (hp ▸ hparity)
  · intro h _
    obtain ⟨p, hp, hne⟩ : ∃ p, Parity.ofChar r.parity = some p ∧ p ≠ .none := by
      rcases h.parity with hodd | heven
      · exact ⟨_, hodd, by decide⟩
      · exact ⟨_, heven, by decide⟩
    refine ⟨⟨speed_iff.2 h.speed, dataBits_iff.2 h.dataBits, ?_, stopBits_eq.2 h.stopBits⟩, ?_⟩
    · rw [parity_eq hp, hp]
    · intro prior
      rw [checking_eq, checking_eq, PortSetup.setParity_parity hp hne,
        PortSetup.setParity_parity hp hne]

/-- The constructor of `SerialPortU2` asks for a parity there is not, and is
told that the port is set up. -/
theorem constructor_not_applied : ∃ port, 0 ≤ port.tcgetattr ∧ 0 ≤ port.tcsetattr ∧
    ¬ Succeeds port serialPortU2Request := by
  refine ⟨⟨0, ⟨0x520, 0x5, 0xcbd, 0x8a3b, fun _ => 0⟩, 0⟩, Int.le_refl 0, Int.le_refl 0, ?_⟩
  intro h
  have hparity := (succeeds_iff.1 h).parity
  exact absurd hparity (by decide)

end SetupPort

end IotCamera
