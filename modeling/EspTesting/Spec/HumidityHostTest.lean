import EspTesting.Native.HumidityAnalyzerTest
import EspTesting.Spec.HumidityBatch

/-!
# The analyzer of the host test and the shipped one

The copy in the host test takes a batch without a change of the mean for rising or falling
humidity, where the component wants a change in that direction. The two differ after a batch
whose mean is that of the batch before it, if the mean changed by the threshold or more before
that, and only in the short-term state, which the next sample sets anew.

## Key results

- `humidityAnalyze_eq_iff`: when the copy and the component agree, for any state
- `hostTest_eq_iff`
- `hostTestAfter_eq_iff`: the same for two programs that run side by side
-/

namespace EspTesting.Humidity

variable {ha : HumidityAnalyzer} {newRate newAccel : Int16}

/-! ## A step -/

/-- The copies of the short-term analysis differ only in its result. -/
theorem hostTest_analyzeAcc_eq (ha : HumidityAnalyzer) (newRate newAccel : Int16) :
    HostTest.analyzeAcc ha newRate newAccel = { ha.analyzeAcc newRate newAccel with
      accState := (HostTest.analyzeAcc ha newRate newAccel).accState } := by
  unfold HostTest.analyzeAcc HumidityAnalyzer.analyzeAcc
  split
  · rfl
  · -- each of them sets the state and nothing else
    repeat' split
    all_goals rfl

/-- The result is not the same after a change of the mean by the threshold or more that was
    followed by none. -/
theorem accState_eq_iff : (HostTest.analyzeAcc ha newRate newAccel).accState =
      (ha.analyzeAcc newRate newAccel).accState ↔
    ¬(ha.measureInit = true ∧ newRate.toInt = 0 ∧ 5 ≤ newAccel.toInt.natAbs) := by
  have hge : newAccel ≥ accelThreshold ↔ 5 ≤ newAccel.toInt := Int16.le_iff_toInt_le
  have hle : newAccel ≤ -accelThreshold ↔ newAccel.toInt ≤ -5 := Int16.le_iff_toInt_le
  have hpos : newRate > 0 ↔ 0 < newRate.toInt := Int16.lt_iff_toInt_lt
  have hneg : newRate < 0 ↔ newRate.toInt < 0 := Int16.lt_iff_toInt_lt
  have hnonneg : newRate ≥ 0 ↔ 0 ≤ newRate.toInt := Int16.le_iff_toInt_le
  have hnonpos : newRate ≤ 0 ↔ newRate.toInt ≤ 0 := Int16.le_iff_toInt_le
  unfold HostTest.analyzeAcc HumidityAnalyzer.analyzeAcc
  cases hinit : ha.measureInit with
  | false => simp
  | true =>
    simp only [hge, hle, hpos, hneg, hnonneg, hnonpos, Bool.true_eq_false, if_false, true_and]
    generalize newAccel.toInt = accel
    generalize newRate.toInt = rate
    by_cases hrate : rate = 0
    · subst hrate
      by_cases hrise : 5 ≤ accel
      · simp [hrise]
        omega
      · by_cases hfall : accel ≤ -5
        · simp [hrise, hfall]
          omega
        · simp [hrise, hfall]
          omega
    · have hnonneg' : 0 ≤ rate ↔ 0 < rate := by omega
      have hnonpos' : rate ≤ 0 ↔ rate < 0 := by omega
      simp [hrate, hnonneg', hnonpos']

/-- The long-term analysis leaves the short-term state alone. -/
theorem analyzeGrowth_accState (ha : HumidityAnalyzer) (accState : AccelerationState) :
    { ha with accState }.analyzeGrowth = { ha.analyzeGrowth with accState } := by
  unfold HumidityAnalyzer.analyzeGrowth
  dsimp only
  split <;> rfl

theorem accState_analyzeGrowth (ha : HumidityAnalyzer) :
    ha.analyzeGrowth.accState = ha.accState := by
  unfold HumidityAnalyzer.analyzeGrowth
  split <;> rfl

/-- Setting the short-term state is all in which two analyzers differ. -/
theorem set_accState_eq_iff {accState : AccelerationState} :
    { ha with accState } = ha ↔ accState = ha.accState := by
  constructor
  · intro h
    rw [← h]
  · intro h
    rw [h]

/-- The copy and the component differ at most in the short-term state. -/
theorem hostTest_humidityAnalyze_eq (ha : HumidityAnalyzer) (currentHumidity : Int16) :
    HostTest.humidityAnalyze ha currentHumidity = { ha.humidityAnalyze currentHumidity with
      accState := (HostTest.humidityAnalyze ha currentHumidity).accState } := by
  unfold HostTest.humidityAnalyze HumidityAnalyzer.humidityAnalyze
  dsimp only
  split
  · rfl
  · rw [hostTest_analyzeAcc_eq, analyzeGrowth_accState]

variable {currentHumidity : Int16}

/-- The copy and the component agree, unless the sample ends a batch without a change. -/
theorem humidityAnalyze_eq_iff :
    HostTest.humidityAnalyze ha currentHumidity = ha.humidityAnalyze currentHumidity ↔
      ¬(averageSamplingS ≤ (ha.addSample currentHumidity).humidityCount ∧
        ha.measureInit = true ∧ (ha.addSample currentHumidity).newRate.toInt = 0 ∧
        5 ≤ (ha.addSample currentHumidity).newAccel.toInt.natAbs) := by
  unfold HostTest.humidityAnalyze HumidityAnalyzer.humidityAnalyze
  dsimp only
  by_cases hopen : (ha.addSample currentHumidity).humidityCount < averageSamplingS
  · rw [if_pos hopen, if_pos hopen]
    exact iff_of_true rfl fun h => UInt16.not_le.mpr hopen h.1
  · rw [if_neg hopen, if_neg hopen, hostTest_analyzeAcc_eq, analyzeGrowth_accState,
      set_accState_eq_iff, accState_analyzeGrowth, accState_eq_iff,
      and_iff_right (UInt16.not_lt.mp hopen)]
    rfl

/-! ## From the zeroed analyzer on -/

/-- The sample ends a batch that is not the first one, the mean is that of the batch before, and
    with that batch it changed by the threshold or more. -/
def LevelsOff (ha : HumidityAnalyzer) (currentHumidity : Int16) : Prop :=
  30 ≤ ha.humidityCount.toNat + 1 ∧ ha.measureInit = true ∧
    (ha.humiditySum.toInt + currentHumidity.toInt) / 30 = ha.avgHumidity.toNat ∧
    5 ≤ ha.humidityRate.toInt.natAbs

instance (ha : HumidityAnalyzer) (currentHumidity : Int16) :
    Decidable (LevelsOff ha currentHumidity) := inferInstanceAs (Decidable (_ ∧ _))

variable {x : Nat → Int16}

/-- The condition, for the last sample of a block. -/
theorem levelsOff_iff_of_full (hx : OnScale x) {m : Nat} (h : Batched x m 29 ha) :
    (averageSamplingS ≤ (ha.addSample (x (30 * m + 29))).humidityCount ∧
      ha.measureInit = true ∧ (ha.addSample (x (30 * m + 29))).newRate.toInt = 0 ∧
      5 ≤ (ha.addSample (x (30 * m + 29))).newAccel.toInt.natAbs) ↔
    LevelsOff ha (x (30 * m + 29)) := by
  obtain ⟨_, hcount⟩ := addSample_exact hx (by omega) h
  have hfull : averageSamplingS ≤ (ha.addSample (x (30 * m + 29))).humidityCount :=
    UInt16.le_iff_toNat_le.mpr hcount.ge
  have hcount' : 30 ≤ ha.humidityCount.toNat + 1 := by
    have hopen := h.count
    omega
  have hmean : (ha.humiditySum.toInt + (x (30 * m + 29)).toInt) / 30 = blockAvg x (m + 1) := by
    rw [h.sum, ← blockSum_succ]
    unfold blockAvg
    rw [Nat.add_sub_cancel]
  have havg := h.avg
  have hrate := h.rate
  unfold LevelsOff
  rw [closing_rate hx h, closing_accel hx h, hmean, and_iff_right hfull, and_iff_right hcount']
  apply and_congr_right
  intro hinit
  have hm : m ≠ 0 := by
    have hinit' := h.init
    rw [hinit] at hinit'
    have hpos := of_decide_eq_true hinit'.symm
    omega
  rw [if_neg hm] at havg
  unfold closingRate
  rw [if_neg hm, havg, hrate]
  constructor <;> intro h' <;> omega

/-- In its place in a block, the sample makes a difference exactly if it levels off. -/
theorem humidityAnalyze_eq_iff_of_batched (hx : OnScale x) {m i : Nat} (hi : i < 30)
    (h : Batched x m i ha) :
    HostTest.humidityAnalyze ha (x (30 * m + i)) = ha.humidityAnalyze (x (30 * m + i)) ↔
      ¬LevelsOff ha (x (30 * m + i)) := by
  rw [humidityAnalyze_eq_iff]
  by_cases hlast : i = 29
  · subst hlast
    exact not_congr (levelsOff_iff_of_full hx h)
  · -- inside a block the count rules both conditions out
    obtain ⟨_, hcount⟩ := addSample_exact hx hi h
    apply iff_of_true
    · intro hfull
      have hle := UInt16.le_iff_toNat_le.mp hfull.1
      have h30 : averageSamplingS.toNat = 30 := rfl
      omega
    · intro hlevel
      have hle := hlevel.1
      rw [h.count] at hle
      omega

/-- After every sequence of samples on the scale, the copy and the component do the same with the
    next sample, unless it levels off. -/
theorem hostTest_eq_iff (x : Nat → Int16) (hx : OnScale x) (n : Nat) :
    HostTest.humidityAnalyze (analyzerAfter x n) (x n) =
        (analyzerAfter x n).humidityAnalyze (x n) ↔
      ¬LevelsOff (analyzerAfter x n) (x n) := by
  obtain ⟨h, _, _⟩ := batched_analyzerAfter hx n
  have hiff := humidityAnalyze_eq_iff_of_batched hx (Nat.mod_lt n (by decide)) h
  rw [Nat.div_add_mod] at hiff
  exact hiff

/-- The end of the second of two blocks with the same mean. -/
theorem hostTest_eq_level :
    HostTest.humidityAnalyze (analyzerAfter (fun _ => 500) 59) 500 =
      (analyzerAfter (fun _ => 500) 59).humidityAnalyze 500 := by
  have hx : OnScale fun _ => 500 := by
    intro _
    show 0 ≤ (500 : Int16).toInt ∧ (500 : Int16).toInt ≤ maxScaleVal
    decide
  exact (hostTest_eq_iff (fun _ => 500) hx 59).mpr (by decide +kernel)

/-- A block of samples, one that is lower by 5, and one like it. -/
theorem hostTest_fails :
    OnScale (fun i => if i < 30 then 500 else 495) ∧
    HostTest.humidityAnalyze (analyzerAfter (fun i => if i < 30 then 500 else 495) 89) 495 ≠
      (analyzerAfter (fun i => if i < 30 then 500 else 495) 89).humidityAnalyze 495 := by
  constructor
  · intro i
    by_cases h : i < 30
    · simp only [h, if_true]
      decide
    · simp only [h, if_false]
      decide
  · decide +kernel

/-! ## Two programs side by side -/

/-- The analyzer of the host test after the first `n` samples. -/
def hostTestAfter (x : Nat → Int16) : Nat → HumidityAnalyzer
  | 0 => .zero
  | n + 1 => HostTest.humidityAnalyze (hostTestAfter x n) (x n)

/-- The short-term state does not matter to the next sample. -/
theorem hostTestAfter_succ (x : Nat → Int16) (n : Nat) :
    hostTestAfter x (n + 1) = HostTest.humidityAnalyze (analyzerAfter x n) (x n) := by
  -- the two programs are in the same state but for the short-term state
  suffices hsame : hostTestAfter x n =
      { analyzerAfter x n with accState := (hostTestAfter x n).accState } by
    show HostTest.humidityAnalyze (hostTestAfter x n) (x n) = _
    rw [hsame]
    rfl
  induction n with
  | zero => rfl
  | succ n ih =>
    have hnext : hostTestAfter x (n + 1) = HostTest.humidityAnalyze (analyzerAfter x n) (x n) := by
      show HostTest.humidityAnalyze (hostTestAfter x n) (x n) = _
      rw [ih]
      rfl
    rw [hnext]
    exact hostTest_humidityAnalyze_eq (analyzerAfter x n) (x n)

/-- The two programs, fed with the same samples, are in the same state after every sample but the
    ones that level off. -/
theorem hostTestAfter_eq_iff (hx : OnScale x) (n : Nat) :
    hostTestAfter x (n + 1) = analyzerAfter x (n + 1) ↔ ¬LevelsOff (analyzerAfter x n) (x n) := by
  obtain ⟨h, _, _⟩ := batched_analyzerAfter hx n
  have hiff := humidityAnalyze_eq_iff_of_batched hx (Nat.mod_lt n (by decide)) h
  rw [Nat.div_add_mod] at hiff
  rw [hostTestAfter_succ]
  exact hiff

end EspTesting.Humidity
