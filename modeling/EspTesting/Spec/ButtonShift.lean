import EspTesting.ForStd.UInt
import EspTesting.Spec.ButtonPress

/-!
# The buttons and the wrap of the clock

The milliseconds are counted in 32 bits, so a clock that started at another value shows times
that all differ by a constant modulo `2 ^ 32`. The reader of the buttons takes differences of
times modulo `2 ^ 32` as well, but the time from which on a button is looked at is compared as
a plain number. That comparison comes out the same exactly if the constant makes the time of
the poll and the time stored for the button wrap both, or none of them.

## Key results

- `getInpState_shift_iff`: a button behaves the same exactly if the two times wrap together
- `deviceReadButHandler_shift`: a poll commutes with a shift of the clock
- `button_states_shift_iff`: the same along a run, for what is seen of every button
- `button_reports_shift`
-/

namespace EspTesting.Button

/-! ## A shift of the clock -/

/-- The button, with the time stored for it read from a clock that is `c` ahead. -/
def GpioCtx.shift (c : UInt32) (conf : GpioCtx) : GpioCtx :=
  { conf with startActiveTime := conf.startActiveTime + c }

/-- All buttons, with the times stored for them read from a clock that is `c` ahead. -/
def shift (c : UInt32) (butList : ButList) : ButList := butList.map (GpioCtx.shift c)

/-- The loop over the buttons, with a clock that is `c` ahead. -/
def Scan.shift (c : UInt32) (s : Scan) : Scan := { s with butList := Button.shift c s.butList }

/-- The poll, at a clock that is `c` ahead. -/
def Poll.shift (c : UInt32) (p : Poll) : Poll := { p with ms := p.ms + c }

/-- A clock that is `c` ahead wraps for both times, or for none of them. -/
def WrapsTogether (c start ms : UInt32) : Prop :=
  2 ^ 32 ≤ start.toNat + c.toNat ↔ 2 ^ 32 ≤ ms.toNat + c.toNat

instance (c start ms : UInt32) : Decidable (WrapsTogether c start ms) :=
  inferInstanceAs (Decidable (_ ↔ _))

variable {c ms : UInt32} {level : Nat → Bool} {conf : GpioCtx} {butList : ButList}
  {i : Fin butCount} {p : Poll}

/-- Nothing is lost by the shift. -/
theorem GpioCtx.shift_injective (c : UInt32) : Function.Injective (GpioCtx.shift c) := by
  intro conf conf' h
  obtain ⟨pin, active, start⟩ := conf
  obtain ⟨pin', active', start'⟩ := conf'
  simp only [GpioCtx.shift, GpioCtx.mk.injEq] at h
  rw [h.1, h.2.1, (UInt32.add_left_inj c).mp h.2.2]

/-- The buttons are shifted one by one. -/
@[simp] theorem shift_get (c : UInt32) (butList : ButList) (i : Fin butCount) :
    (shift c butList).get i = (butList.get i).shift c :=
  SlotTable.get_map _ butList i

/-- A press that begins now wraps with the clock. -/
theorem wrapsTogether_self (c ms : UInt32) : WrapsTogether c ms ms := Iff.rfl

/-- To wrap together is to compare alike. -/
theorem wrapsTogether_iff : WrapsTogether c conf.startActiveTime ms ↔
    ((conf.shift c).startActiveTime > ms + c ↔ conf.startActiveTime > ms) :=
  (Iff.comm.trans (UInt32.add_lt_add_right_iff_iff ms conf.startActiveTime c).symm)

/-! ## A button -/

/-- A button is left alone exactly if it is not looked at yet, or became idle just now. -/
theorem getInpState_eq_inactive_iff : getInpState conf level ms = (.inactive, conf) ↔
    conf.startActiveTime > ms ∨
      conf.startActiveTime = ms ∧ level conf.pinNum ≠ conf.activeLevel := by
  obtain ⟨pin, active, start⟩ := conf
  unfold getInpState
  by_cases hstart : start > ms
  · simp [hstart]
  · by_cases hactive : level pin = active
    · -- the pin is at its active level
      by_cases hheld : ms - start > heldTime
      · simp [hstart, hactive, hheld]
      · simp [hstart, hactive, hheld]
    · by_cases hlate : ms - start > debounceTime
      · have hne : start ≠ ms := by
          intro heq
          rw [heq, UInt32.sub_self] at hlate
          exact absurd hlate (by decide)
        simp [hstart, hactive, hlate, hne]
      · simp [hstart, hactive, hlate, eq_comm]

/-- A button that a shift of the clock makes no difference to in the comparison. -/
theorem getInpState_shift (h : WrapsTogether c conf.startActiveTime ms) :
    getInpState (conf.shift c) level (ms + c) =
      ((getInpState conf level ms).1, (getInpState conf level ms).2.shift c) := by
  rw [wrapsTogether_iff] at h
  unfold getInpState
  -- differences do not see the shift
  have hsub : ms + c - (conf.shift c).startActiveTime = ms - conf.startActiveTime :=
    UInt32.add_sub_add_right ms conf.startActiveTime c
  have hpin : (conf.shift c).pinNum = conf.pinNum := rfl
  have hactive : (conf.shift c).activeLevel = conf.activeLevel := rfl
  simp only [h, hsub, hpin, hactive]
  split
  · rfl
  · split
    · rfl
    · split
      · rfl
      · rfl

/-- A shift of the clock makes no difference to a button exactly if the two times wrap
    together. -/
theorem getInpState_shift_iff : WrapsTogether c conf.startActiveTime ms ↔
    getInpState (conf.shift c) level (ms + c) =
      ((getInpState conf level ms).1, (getInpState conf level ms).2.shift c) := by
  refine ⟨getInpState_shift, fun heq => ?_⟩
  -- the button is left alone under both clocks or under none
  have halone : getInpState (conf.shift c) level (ms + c) = (.inactive, conf.shift c) ↔
      getInpState conf level ms = (.inactive, conf) := by
    rw [heq, Prod.mk.injEq, (GpioCtx.shift_injective c).eq_iff]
    exact Prod.mk.injEq .. ▸ Iff.rfl
  have hsame : (conf.shift c).startActiveTime = ms + c ↔ conf.startActiveTime = ms :=
    UInt32.add_left_inj c
  rw [getInpState_eq_inactive_iff, getInpState_eq_inactive_iff, hsame] at halone
  rw [wrapsTogether_iff]
  by_cases hms : conf.startActiveTime = ms
  · have hms' := hsame.mpr hms
    simp [hms, hms']
  · simpa [hms] using halone

/-! ## The loop over the buttons -/

/-- The times of all buttons wrap together with the time of the poll. -/
def AllWrap (c : UInt32) (butList : ButList) (p : Poll) : Prop :=
  ∀ i, WrapsTogether c (butList.get i).startActiveTime p.ms

instance (c : UInt32) (butList : ButList) (p : Poll) : Decidable (AllWrap c butList p) :=
  inferInstanceAs (Decidable (∀ _, _))

/-- Shifting and replacing a button go together. -/
theorem shift_set (c : UInt32) (butList : ButList) (i : Fin butCount) (conf : GpioCtx) :
    (shift c butList).set i (conf.shift c) i.isLt = shift c (butList.set i conf i.isLt) := by
  unfold shift
  rw [Vector.map_set]

/-- A pass of the loop commutes with a shift of the clock. -/
theorem scanButton_shift {s : Scan}
    (h : WrapsTogether c (s.butList.get i).startActiveTime ms) :
    scanButton (ms + c) level (s.shift c) i = (scanButton ms level s i).shift c := by
  have hget : (s.shift c).butList.get i = (s.butList.get i).shift c := shift_get c s.butList i
  have hinp : getInpState ((s.butList.get i).shift c) level (ms + c) = _ := getInpState_shift h
  -- the button is in the same state on both clocks
  have hstate : stateOf (s.shift c).butList (ms + c) level i = stateOf s.butList ms level i := by
    unfold stateOf
    rw [hget, hinp]
  rw [scanButton_eq, scanButton_eq, hstate, hget, hinp]
  unfold Scan.shift
  simp only [shift_set]
  rfl

/-- A button keeps the time stored for it, or gets the time of the poll. -/
theorem wrapsTogether_getInpState (h : WrapsTogether c conf.startActiveTime ms) :
    WrapsTogether c (getInpState conf level ms).2.startActiveTime ms := by
  unfold getInpState
  by_cases hstart : conf.startActiveTime > ms
  · simpa [hstart] using h
  · by_cases hactive : level conf.pinNum = conf.activeLevel
    · simpa [hstart, hactive] using h
    · by_cases hlate : ms - conf.startActiveTime > debounceTime
      · simpa [hstart, hactive, hlate] using h
      · simpa [hstart, hactive, hlate] using wrapsTogether_self c ms

/-- The turn of a button leaves the condition for the others. -/
theorem AllWrap.scanButton {s : Scan} (h : AllWrap c s.butList p) (i : Fin butCount) :
    AllWrap c (scanButton p.ms p.level s i).butList p := by
  intro j
  rw [scanButton_eq]
  dsimp only
  rw [SlotTable.get_set]
  split
  · exact wrapsTogether_getInpState (h i)
  · exact h j

/-- The loop over the buttons commutes with a shift of the clock. -/
theorem scanButtons_shift (h : AllWrap c butList p) :
    scanButtons (shift c butList) (p.ms + c) p.level =
      (scanButtons butList p.ms p.level).shift c := by
  unfold scanButtons
  -- the times stored on the way wrap together with the time of the poll as well
  have hfold := List.foldl_rel (r := fun s s' => s' = Scan.shift c s ∧ AllWrap c s.butList p)
    (l := List.finRange butCount) (f := scanButton p.ms p.level)
    (g := scanButton (p.ms + c) p.level) (a := ⟨butList, 0, 0, 0⟩)
    (b := Scan.shift c ⟨butList, 0, 0, 0⟩) ⟨rfl, h⟩
  apply (hfold _).1
  intro i _ s s' hs
  rw [hs.1]
  exact ⟨scanButton_shift (hs.2 i), hs.2.scanButton i⟩

/-! ## A poll -/

/-- What a poll leaves in the buttons. -/
def pollStep (butList : ButList) (p : Poll) : ButList :=
  (deviceReadButHandler butList p.ms p.level).2

/-- What a poll reports. -/
def report (butList : ButList) (p : Poll) : Option EventBits :=
  (deviceReadButHandler butList p.ms p.level).1

/-- A poll commutes with a shift of the clock. -/
theorem deviceReadButHandler_shift (h : AllWrap c butList p) :
    deviceReadButHandler (shift c butList) (p.ms + c) p.level =
      (report butList p, shift c (pollStep butList p)) := by
  unfold report pollStep deviceReadButHandler
  rw [scanButtons_shift h]
  generalize scanButtons butList p.ms p.level = s
  have hbits : (s.shift c).bits = s.bits := rfl
  have hheld : (s.shift c).held = s.held := rfl
  have hclick : (s.shift c).click = s.click := rfl
  simp only [hbits, hheld, hclick]
  split
  · -- the time stored for all buttons is shifted like that of the poll
    have htimes (d : UInt32) : (shift c s.butList).map
        (fun conf => { conf with startActiveTime := p.ms + c + d }) =
        shift c (s.butList.map fun conf => { conf with startActiveTime := p.ms + d }) := by
      unfold shift
      rw [Vector.map_map, Vector.map_map]
      congr 1
      funext conf
      simp only [Function.comp_apply, GpioCtx.shift, UInt32.add_assoc, UInt32.add_comm c d]
    exact Prod.ext rfl (htimes _)
  · rfl

/-- A poll of the shifted buttons is the shifted poll. -/
theorem pollStep_shift (h : AllWrap c butList p) :
    pollStep (shift c butList) (p.shift c) = shift c (pollStep butList p) := by
  show (deviceReadButHandler (shift c butList) (p.ms + c) p.level).2 = _
  rw [deviceReadButHandler_shift h]

/-- The report does not see the shift. -/
theorem report_shift (h : AllWrap c butList p) :
    report (shift c butList) (p.shift c) = report butList p := by
  show (deviceReadButHandler (shift c butList) (p.ms + c) p.level).1 = _
  rw [deviceReadButHandler_shift h]

/-! ## Runs -/

/-- The reports of the polls, one after another. -/
def reports (butList : ButList) (polls : List Poll) : List (Option EventBits) :=
  Machine.outputs pollStep report butList polls

/-- What is seen of each button at each poll is the same under both clocks exactly if at every
    poll the time of the poll and the time stored for each button wrap together. -/
theorem button_states_shift_iff (c : UInt32) (butList : ButList) (polls : List Poll) :
    (∀ past p rest, polls = past ++ p :: rest → ∀ i,
      getInpState ((Machine.run pollStep (shift c butList) (past.map (Poll.shift c))).get i)
        p.level (p.ms + c) =
      ((getInpState ((Machine.run pollStep butList past).get i) p.level p.ms).1,
        (getInpState ((Machine.run pollStep butList past).get i) p.level p.ms).2.shift c)) ↔
      Machine.Meets pollStep (AllWrap c) butList polls := by
  constructor
  · intro h
    induction polls generalizing butList with
    | nil => trivial
    | cons p polls ih =>
      -- no step before: the first poll decides for its buttons
      have hp : AllWrap c butList p := by
        intro i
        have hi := h [] p polls rfl i
        rw [List.map_nil, Machine.run_nil, Machine.run_nil, shift_get] at hi
        exact getInpState_shift_iff.mpr hi
      refine ⟨hp, ih (pollStep butList p) fun past q rest heq i => ?_⟩
      have hi := h (p :: past) q rest (by rw [heq]; rfl) i
      rw [List.map_cons, Machine.run_cons, Machine.run_cons, pollStep_shift hp] at hi
      exact hi
  · intro h past p rest heq i
    rw [heq, Machine.meets_append] at h
    rw [h.1.run_map (f := shift c) (g := Poll.shift c) fun _ _ => pollStep_shift, shift_get]
    exact getInpState_shift (h.2.1 i)

/-- The run whose polls and stored times are read from a clock that is `c` ahead has the same
    reports, if at every poll the time of the poll and the time stored for each button wrap
    together. -/
theorem button_reports_shift (c : UInt32) (butList : ButList) (polls : List Poll)
    (h : Machine.Meets pollStep (AllWrap c) butList polls) :
    reports (shift c butList) (polls.map (Poll.shift c)) = reports butList polls := by
  exact h.outputs_map (f := shift c) (g := Poll.shift c) (fun _ _ => pollStep_shift)
    fun _ _ => report_shift

/-- The left button is pressed, with the other two idle. -/
def leftPressed (pin : Nat) : Bool := pin != 40

/-- A hold of the left button, with all polls behind the wrap. -/
theorem button_reports_shift_hold :
    Machine.Meets pollStep (AllWrap 0xFFFFFF00) butListInit
      [⟨1000, fun _ => true⟩, ⟨1075, leftPressed⟩, ⟨1900, leftPressed⟩] ∧
    reports (shift 0xFFFFFF00 butListInit)
      ([⟨1000, fun _ => true⟩, ⟨1075, leftPressed⟩, ⟨1900, leftPressed⟩].map
        (Poll.shift 0xFFFFFF00)) =
    reports butListInit
      [⟨1000, fun _ => true⟩, ⟨1075, leftPressed⟩, ⟨1900, leftPressed⟩] :=
  ⟨by decide +kernel, button_reports_shift _ _ _ (by decide +kernel)⟩

/-- The same hold, with the wrap between the first and the second poll: nothing is reported. -/
theorem button_reports_shift_wrap :
    reports (shift 0xFFFFFBE6 butListInit)
      ([⟨1000, fun _ => true⟩, ⟨1075, leftPressed⟩, ⟨1900, leftPressed⟩].map
        (Poll.shift 0xFFFFFBE6)) = [none, none, none] ∧
    reports butListInit
      [⟨1000, fun _ => true⟩, ⟨1075, leftPressed⟩, ⟨1900, leftPressed⟩] ≠ [none, none, none] :=
  ⟨by decide +kernel, by decide +kernel⟩

end EspTesting.Button
