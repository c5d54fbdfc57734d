import EspTesting.ForStd.Machine
import EspTesting.Native.Device

/-!
# The indexes of the settings

Every setter tests its argument against the length of a list. The three timers are tested with
`<=`, so they also take the index one behind the end of their list.

## Key results

- `setIndex_lt`, `setIndex_le_iff`: an index behind each of the two tests
- `staysInLists_iff`: a call
- `device_indexes_iff`
-/

namespace EspTesting.Device

variable {val : Int32} {list : List UInt8} {old : UInt8}

/-! ## An index -/

/-- The argument is an index into the list. -/
def IsIndex (val : Int32) (list : List UInt8) : Prop :=
  0 ≤ val.toInt ∧ val.toInt < list.length

instance (val : Int32) (list : List UInt8) : Decidable (IsIndex val list) :=
  inferInstanceAs (Decidable (_ ∧ _))

/-- What a setter makes of an index whose test came out as `test`. -/
def setIndex (test : Bool) (old : UInt8) (val : Int32) : UInt8 := if test then toUint8 val else old

/-- A number that is not negative is the same without a sign. -/
theorem toNat_toUInt32_of_nonneg (h : 0 ≤ val.toInt) : (val.toUInt32.toNat : Int) = val.toInt := by
  have hle : 0 ≤ val := Int32.le_iff_toInt_le.mpr h
  rw [Int32.toNat_toUInt32_of_le hle]
  exact Int.toNat_of_nonneg h

/-- The length of a short list is not cut. -/
theorem toNat_arrLen (hlist : list.length < 256) : (arrLen list).toNat = list.length := by
  unfold arrLen
  rw [UInt32.toNat_ofNat']
  omega

/-- The test of `set_speed` and `set_humidity`. -/
theorem ltArrLen_iff (hlist : list.length < 256) : ltArrLen val list = true ↔ IsIndex val list := by
  unfold ltArrLen IsIndex
  rw [Bool.and_eq_true, decide_eq_true_eq, decide_eq_true_eq, ge_iff_le, Int32.le_iff_toInt_le,
    UInt32.lt_iff_toNat_lt, toNat_arrLen hlist]
  apply and_congr_right
  intro h
  have hval := toNat_toUInt32_of_nonneg h
  omega

/-- The test of `set_inter_timer` and `set_timer`. -/
theorem leArrLen_iff (hlist : list.length < 256) :
    leArrLen val list = true ↔ IsIndex val list ∨ val.toInt = list.length := by
  unfold leArrLen IsIndex
  rw [Bool.and_eq_true, decide_eq_true_eq, decide_eq_true_eq, ge_iff_le, Int32.le_iff_toInt_le,
    UInt32.le_iff_toNat_le, toNat_arrLen hlist]
  constructor
  · -- the comparison is without a sign, which is the same from 0 on
    rintro ⟨h, hle⟩
    have hval := toNat_toUInt32_of_nonneg h
    have h' : 0 ≤ val.toInt := h
    omega
  · intro h
    have h' : 0 ≤ val.toInt := by omega
    have hval := toNat_toUInt32_of_nonneg h'
    exact ⟨h', by omega⟩

/-- A number in the range of a byte is not cut. -/
theorem toNat_toUint8 (hlo : 0 ≤ val.toInt) (hhi : val.toInt < 256) :
    ((toUint8 val).toNat : Int) = val.toInt := by
  have hval := toNat_toUInt32_of_nonneg hlo
  unfold toUint8
  rw [UInt32.toNat_toUInt8]
  omega

/-- An index that is tested with `<`. -/
theorem setIndex_lt (hlist : list.length < 256) (hold : old.toNat < list.length) :
    (setIndex (ltArrLen val list) old val).toNat < list.length := by
  unfold setIndex
  split
  · rename_i htest
    obtain ⟨hlo, hhi⟩ := (ltArrLen_iff hlist).mp htest
    have hval := toNat_toUint8 hlo (by omega)
    omega
  · exact hold

/-- The strict test refuses what is no index. -/
theorem setIndex_lt_of_not_isIndex (hlist : list.length < 256) (hval : ¬IsIndex val list) :
    setIndex (ltArrLen val list) old val = old :=
  if_neg fun htest => hval ((ltArrLen_iff hlist).mp htest)

/-- An index that is tested with `<=`. -/
theorem setIndex_le_iff (hlist : list.length < 256) (hold : old.toNat < list.length) :
    (setIndex (leArrLen val list) old val).toNat < list.length ↔ val.toInt ≠ list.length := by
  unfold setIndex
  by_cases htest : leArrLen val list = true
  · rw [if_pos htest]
    -- the test also lets the length through
    have hval := (leArrLen_iff hlist).mp htest
    unfold IsIndex at hval
    have hstored := toNat_toUint8 (show 0 ≤ val.toInt by omega) (by omega)
    omega
  · rw [if_neg htest]
    have hne : val.toInt ≠ list.length := fun heq => htest ((leArrLen_iff hlist).mpr (Or.inr heq))
    exact iff_of_true hold hne

/-- The other test refuses it too, but for the length. -/
theorem setIndex_le_of_not_isIndex (hlist : list.length < 256) (hval : ¬IsIndex val list)
    (hend : val.toInt ≠ list.length) : setIndex (leArrLen val list) old val = old := by
  apply if_neg
  intro htest
  obtain h | h := (leArrLen_iff hlist).mp htest
  · exact hval h
  · exact hend h

/-! ## A call -/

variable {conf : DeviceConf} {call : SettingCall}

/-- Setting the speeds sets two indexes. -/
theorem setSpeed_eq (conf : DeviceConf) (speed1 speed2 : Int32) :
    setSpeed conf speed1 speed2 = { conf with
      speed1 := setIndex (ltArrLen speed1 valListSpeed1) conf.speed1 speed1
      speed2 := setIndex (ltArrLen speed2 valListSpeed2) conf.speed2 speed2 } := by
  unfold setSpeed setIndex
  split <;> split <;> rfl

/-- Setting the humidity sets one index. -/
theorem setHumidity_eq (conf : DeviceConf) (val : Int32) :
    setHumidity conf val = { conf with
      humidity := setIndex (ltArrLen val valListRhThreshold) conf.humidity val } := by
  unfold setHumidity setIndex
  split <;> rfl

/-- Setting the interval sets one index. -/
theorem setInterTimer_eq (conf : DeviceConf) (val : Int32) :
    setInterTimer conf val = { conf with
      interTimer := setIndex (leArrLen val valListIntervalTim) conf.interTimer val } := by
  unfold setInterTimer setIndex
  split <;> rfl

/-- Setting the times sets two indexes. -/
theorem setTimer_eq (conf : DeviceConf) (onTimer offTimer : Int32) :
    setTimer conf onTimer offTimer = { conf with
      onTimer := setIndex (leArrLen onTimer valListOnTimer) conf.onTimer onTimer
      offTimer := setIndex (leArrLen offTimer valListOffTimer) conf.offTimer offTimer } := by
  unfold setTimer setIndex
  split <;> split <;> rfl

/-- Every index names an element of its list. -/
structure InLists (conf : DeviceConf) : Prop where
  speed1 : conf.speed1.toNat < valListSpeed1.length
  speed2 : conf.speed2.toNat < valListSpeed2.length
  humidity : conf.humidity.toNat < valListRhThreshold.length
  interTimer : conf.interTimer.toNat < valListIntervalTim.length
  onTimer : conf.onTimer.toNat < valListOnTimer.length
  offTimer : conf.offTimer.toNat < valListOffTimer.length

/-- The field of an argument that is no index into its list stays as it is. -/
def LeavesOutOfRange (conf : DeviceConf) : SettingCall → Prop
  | .setSpeed speed1 speed2 =>
    (¬IsIndex speed1 valListSpeed1 → (setSpeed conf speed1 speed2).speed1 = conf.speed1) ∧
      (¬IsIndex speed2 valListSpeed2 → (setSpeed conf speed1 speed2).speed2 = conf.speed2)
  | .setHumidity val =>
    ¬IsIndex val valListRhThreshold → (setHumidity conf val).humidity = conf.humidity
  | .setInterTimer val =>
    ¬IsIndex val valListIntervalTim → (setInterTimer conf val).interTimer = conf.interTimer
  | .setTimer onTimer offTimer =>
    (¬IsIndex onTimer valListOnTimer → (setTimer conf onTimer offTimer).onTimer = conf.onTimer) ∧
      (¬IsIndex offTimer valListOffTimer →
        (setTimer conf onTimer offTimer).offTimer = conf.offTimer)

/-- After the call every index names an element, and what was out of range changed nothing. -/
def StaysInLists (conf : DeviceConf) (call : SettingCall) : Prop :=
  InLists (conf.step call) ∧ LeavesOutOfRange conf call

/-- No timer of the call is the length of its list. -/
def SettingCall.NoTimerAtEnd : SettingCall → Prop
  | .setInterTimer val => val.toInt ≠ valListIntervalTim.length
  | .setTimer onTimer offTimer =>
    onTimer.toInt ≠ valListOnTimer.length ∧ offTimer.toInt ≠ valListOffTimer.length
  | _ => True

/-- The zeroed settings are in the lists. -/
theorem inLists_zero : InLists .zero :=
  ⟨by decide, by decide, by decide, by decide, by decide, by decide⟩

/-- A call keeps every index in its list exactly if none of its timers is the length of the
    list. -/
theorem inLists_step_iff (h : InLists conf) : InLists (conf.step call) ↔ call.NoTimerAtEnd := by
  cases call with
  | setSpeed speed1 speed2 =>
    apply iff_of_true _ trivial
    show InLists (setSpeed conf speed1 speed2)
    rw [setSpeed_eq]
    exact ⟨setIndex_lt (by decide) h.speed1, setIndex_lt (by decide) h.speed2, h.humidity,
      h.interTimer, h.onTimer, h.offTimer⟩
  | setHumidity val =>
    apply iff_of_true _ trivial
    show InLists (setHumidity conf val)
    rw [setHumidity_eq]
    exact ⟨h.speed1, h.speed2, setIndex_lt (by decide) h.humidity, h.interTimer, h.onTimer,
      h.offTimer⟩
  -- the timers go through the test with the slip
  | setInterTimer val =>
    show InLists (setInterTimer conf val) ↔ val.toInt ≠ valListIntervalTim.length
    rw [setInterTimer_eq, ← setIndex_le_iff (by decide) h.interTimer]
    exact ⟨fun h' => h'.interTimer, fun h' =>
      ⟨h.speed1, h.speed2, h.humidity, h', h.onTimer, h.offTimer⟩⟩
  | setTimer onTimer offTimer =>
    show InLists (setTimer conf onTimer offTimer) ↔
      onTimer.toInt ≠ valListOnTimer.length ∧ offTimer.toInt ≠ valListOffTimer.length
    rw [setTimer_eq, ← setIndex_le_iff (by decide) h.onTimer,
      ← setIndex_le_iff (by decide) h.offTimer]
    exact ⟨fun h' => ⟨h'.onTimer, h'.offTimer⟩, fun h' =>
      ⟨h.speed1, h.speed2, h.humidity, h.interTimer, h'.1, h'.2⟩⟩

/-- An argument out of range is ignored, except for a timer that is the length of its list. -/
theorem leavesOutOfRange_of_noTimerAtEnd (h : call.NoTimerAtEnd) : LeavesOutOfRange conf call := by
  cases call with
  | setSpeed speed1 speed2 =>
    simp only [LeavesOutOfRange, setSpeed_eq]
    exact ⟨setIndex_lt_of_not_isIndex (by decide), setIndex_lt_of_not_isIndex (by decide)⟩
  | setHumidity val =>
    simp only [LeavesOutOfRange, setHumidity_eq]
    exact setIndex_lt_of_not_isIndex (by decide)
  -- what is left for the timers is not the length
  | setInterTimer val =>
    simp only [LeavesOutOfRange, setInterTimer_eq]
    exact fun hval => setIndex_le_of_not_isIndex (by decide) hval h
  | setTimer onTimer offTimer =>
    simp only [LeavesOutOfRange, setTimer_eq]
    exact ⟨fun hval => setIndex_le_of_not_isIndex (by decide) hval h.1,
      fun hval => setIndex_le_of_not_isIndex (by decide) hval h.2⟩

/-- Both parts of the rule hold exactly if no timer is set to the length. -/
theorem staysInLists_iff (h : InLists conf) : StaysInLists conf call ↔ call.NoTimerAtEnd := by
  unfold StaysInLists
  rw [inLists_step_iff h]
  exact and_iff_left_of_imp leavesOutOfRange_of_noTimerAtEnd

/-! ## Every sequence of calls -/

/-- From the zeroed configuration on, the indexes stay in their lists exactly as long as no timer
    is set to the length of its list. -/
theorem device_indexes_iff (calls : List SettingCall) :
    Machine.Meets DeviceConf.step StaysInLists .zero calls ↔
      ∀ call ∈ calls, call.NoTimerAtEnd := by
  have hkeep (conf : DeviceConf) (call : SettingCall) (_ : InLists conf)
      (h : StaysInLists conf call) : InLists (conf.step call) := h.1
  have hiff (conf : DeviceConf) (call : SettingCall) (h : InLists conf) :
      StaysInLists conf call ↔ call.NoTimerAtEnd := staysInLists_iff h
  exact (Machine.meets_iff_of_kept hkeep hiff inLists_zero calls).trans Machine.meets_const

/-- The number 4 for each of the timers, whose lists have 4 elements. -/
theorem device_indexes_timer_fails :
    ¬Machine.Meets DeviceConf.step StaysInLists .zero [.setInterTimer 4] ∧
    ¬Machine.Meets DeviceConf.step StaysInLists .zero [.setTimer 4 0] ∧
    ¬Machine.Meets DeviceConf.step StaysInLists .zero [.setTimer 0 4] := by
  refine ⟨fun h => ?_, fun h => ?_, fun h => ?_⟩
  · exact absurd h.1.1.interTimer (by decide)
  · exact absurd h.1.1.onTimer (by decide)
  · exact absurd h.1.1.offTimer (by decide)

end EspTesting.Device
