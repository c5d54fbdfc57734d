import EspTesting.ForStd.SInt
import EspTesting.Native.HumidityAnalyzer
import Mathlib.Algebra.BigOperators.Group.Finset.Basic
import Mathlib.Algebra.Order.BigOperators.Group.Finset
import Mathlib.Tactic.Ring

/-!
# The humidity analyzer by batches

What the analyzer computes, as a function of the samples: the mean of each block of 30
samples, the change of the mean from block to block, and the change over a window of 20
blocks. The three counters of `humidity_analyze` place the last sample in its block and its
block in its window.

## Key results

- `batched_step`, `batched_close`: a sample inside a block, and the last one of a block
- `humidity_exact`: the states after every sample, without overflow
-/

namespace EspTesting.Humidity

variable (x : Nat → Int16)

/-! ## Batches -/

/-- The sum of the first `i` samples of the block `m + 1`. -/
def blockSum (m i : Nat) : Int := ∑ j ∈ Finset.range i, (x (30 * m + j)).toInt

/-- The mean of the `m`-th block, rounded down. -/
def blockAvg (m : Nat) : Int := blockSum x (m - 1) 30 / 30

/-- The change of the mean to the `m`-th block. -/
def blockRate (m : Nat) : Int := if m ≤ 1 then 0 else blockAvg x m - blockAvg x (m - 1)

/-- The short-term state, from a change and the change before it. -/
def accStateOf (rate prevRate : Int) : AccelerationState :=
  if rate - prevRate ≥ 5 ∧ rate > 0 then .rising
  else if rate - prevRate ≤ -5 ∧ rate < 0 then .falling
  else .stable

/-- The long-term state, from a change over a window. -/
def growthStateOf (change : Int) : GrowthState :=
  if change > 80 then .rising else if change < -80 then .falling else .stable

/-- The short-term state after `n` samples. -/
def accStateAfter (n : Nat) : AccelerationState :=
  if n % 30 = 0 ∧ 2 ≤ n / 30 then accStateOf (blockRate x (n / 30)) (blockRate x (n / 30 - 1))
  else .measuring

/-- The long-term state after `n` samples. -/
def growthStateAfter (n : Nat) : GrowthState :=
  if n % 30 = 0 ∧ 21 ≤ n / 30 ∧ (n / 30) % 20 = 1 then
    growthStateOf (blockAvg x (n / 30) - blockAvg x (n / 30 - 20))
  else .measuring

/-- Every sample lies on the scale. -/
def OnScale : Prop := ∀ i, 0 ≤ (x i).toInt ∧ (x i).toInt ≤ maxScaleVal

variable {x}

/-- One sample more. -/
theorem blockSum_succ (m i : Nat) :
    blockSum x m (i + 1) = blockSum x m i + (x (30 * m + i)).toInt :=
  Finset.sum_range_succ ..

/-- The sum of samples on the scale. -/
theorem blockSum_bounds (hx : OnScale x) (m i : Nat) :
    0 ≤ blockSum x m i ∧ blockSum x m i ≤ 1000 * i := by
  induction i with
  | zero => exact ⟨Int.le_refl 0, Int.le_refl 0⟩
  | succ i ih =>
    obtain ⟨hlo, hhi⟩ := hx (30 * m + i)
    unfold maxScaleVal at hhi
    rw [blockSum_succ]
    omega

/-- The average of samples on the scale is on the scale. -/
theorem blockAvg_bounds (hx : OnScale x) (m : Nat) : 0 ≤ blockAvg x m ∧ blockAvg x m ≤ 1000 := by
  have hsum := blockSum_bounds hx (m - 1) 30
  unfold blockAvg
  omega

/-- The change of averages on the scale. -/
theorem blockRate_bounds (hx : OnScale x) (m : Nat) :
    -1000 ≤ blockRate x m ∧ blockRate x m ≤ 1000 := by
  have hm := blockAvg_bounds hx m
  have hprev := blockAvg_bounds hx (m - 1)
  unfold blockRate
  split <;> omega

/-! ## Steps without overflow -/

/-- Every operation at the end of a batch has its exact result. -/
structure BatchExact (ha : HumidityAnalyzer) : Prop where
  avg : ha.newAvg.toInt = ha.humiditySum.toInt / ha.humidityCount.toNat
  storedAvg : (ha.newAvg.toUInt16.toNat : Int) = ha.newAvg.toInt
  rate : ha.newRate.toInt = ha.newAvg.toInt - ha.avgHumidity.toNat
  accel : ha.newAccel.toInt = ha.newRate.toInt - ha.humidityRate.toInt
  longTerm : (ha.longTermRate + ha.newRate.toInt32).toInt =
    ha.longTermRate.toInt + ha.newRate.toInt
  rateCount : (ha.rateCount + 1).toNat = ha.rateCount.toNat + 1

/-- Every operation of a call has its exact result. -/
structure NoOverflow (ha : HumidityAnalyzer) (currentHumidity : Int16) : Prop where
  sum : (ha.humiditySum + currentHumidity.toInt32).toInt =
    ha.humiditySum.toInt + currentHumidity.toInt
  count : (ha.humidityCount + 1).toNat = ha.humidityCount.toNat + 1
  batch : averageSamplingS ≤ (ha.addSample currentHumidity).humidityCount →
    BatchExact (ha.addSample currentHumidity)

/-! ## The state between two samples -/

variable (x) in
/-- The analyzer after `m` blocks and `i` samples of the next one. -/
structure Batched (m i : Nat) (ha : HumidityAnalyzer) : Prop where
  sum : ha.humiditySum.toInt = blockSum x m i
  count : ha.humidityCount.toNat = i
  avg : (ha.avgHumidity.toNat : Int) = if m = 0 then 0 else blockAvg x m
  rate : ha.humidityRate.toInt = blockRate x m
  longTerm : ha.longTermRate.toInt =
    if m = 0 then 0 else blockAvg x m - blockAvg x (20 * ((m - 1) / 20) + 1)
  rateCount : ha.rateCount.toNat = (m - 1) % 20
  init : ha.measureInit = decide (1 ≤ m)

/-- No sample yet. -/
theorem batched_zero : Batched x 0 0 HumidityAnalyzer.zero := by
  refine ⟨rfl, rfl, rfl, ?_, rfl, rfl, rfl⟩
  exact (if_pos (Nat.zero_le 1)).symm

/-- A sample is added without an overflow. -/
theorem addSample_exact (hx : OnScale x) {m i : Nat} (hi : i < 30) {ha : HumidityAnalyzer}
    (h : Batched x m i ha) :
    (ha.addSample (x (30 * m + i))).humiditySum.toInt = blockSum x m (i + 1) ∧
    (ha.addSample (x (30 * m + i))).humidityCount.toNat = i + 1 := by
  have hbound := blockSum_bounds hx m (i + 1)
  rw [blockSum_succ] at hbound ⊢
  have hsum : (ha.humiditySum + (x (30 * m + i)).toInt32).toInt =
      blockSum x m i + (x (30 * m + i)).toInt := by
    rw [Int32.toInt_add_of_bounds] <;> rw [Int16.toInt_toInt32, h.sum] <;> omega
  -- the count stays below 30
  have hcount : (ha.humidityCount + 1).toNat = i + 1 := by
    rw [UInt16.toNat_add, h.count]
    show (i + 1) % 65536 = i + 1
    omega
  exact ⟨hsum, hcount⟩

/-- A sample inside a block. -/
theorem batched_step (hx : OnScale x) {m i : Nat} (hi : i + 1 < 30) {ha : HumidityAnalyzer}
    (h : Batched x m i ha) :
    Batched x m (i + 1) (ha.humidityAnalyze (x (30 * m + i))) ∧
    (ha.humidityAnalyze (x (30 * m + i))).accState = .measuring ∧
    (ha.humidityAnalyze (x (30 * m + i))).growthState = .measuring := by
  obtain ⟨hsum, hcount⟩ := addSample_exact hx (by omega) h
  have hopen : (ha.addSample (x (30 * m + i))).humidityCount < averageSamplingS := by
    have h30 : averageSamplingS.toNat = 30 := rfl
    rw [UInt16.lt_iff_toNat_lt, hcount, h30]
    exact hi
  unfold HumidityAnalyzer.humidityAnalyze
  simp only [if_pos hopen]
  exact ⟨⟨hsum, hcount, h.avg, h.rate, h.longTerm, h.rateCount, h.init⟩, rfl, rfl⟩

/-! ## The last sample of a block -/

variable (x) in
/-- The change `new_rate` at the end of the block `m + 1`; the mean in front of the first block
    counts as 0. -/
def closingRate (m : Nat) : Int := blockAvg x (m + 1) - if m = 0 then 0 else blockAvg x m

/-- Behind the first block the rate is that of the blocks. -/
theorem closingRate_eq {m : Nat} (hm : m ≠ 0) : closingRate x m = blockRate x (m + 1) := by
  unfold closingRate blockRate
  rw [if_neg hm, if_neg (by omega)]
  rfl

/-- The rate is no more than the scale. -/
theorem closingRate_bounds (hx : OnScale x) (m : Nat) :
    -1000 ≤ closingRate x m ∧ closingRate x m ≤ 1000 := by
  have hm := blockAvg_bounds hx m
  have hnext := blockAvg_bounds hx (m + 1)
  unfold closingRate
  split <;> omega

/-- The average of a full batch. -/
theorem closing_avg (hx : OnScale x) {m : Nat} {ha : HumidityAnalyzer} (h : Batched x m 29 ha) :
    (ha.addSample (x (30 * m + 29))).newAvg.toInt = blockAvg x (m + 1) := by
  obtain ⟨hsum, hcount⟩ := addSample_exact hx (by omega) h
  have hsumBound := blockSum_bounds hx m 30
  have havgBound := blockAvg_bounds hx (m + 1)
  -- the batch is full, so the divisor is 30
  have hint : (HumidityAnalyzer.ofUint16
      (ha.addSample (x (30 * m + 29))).humidityCount).toInt = 30 := by
    unfold HumidityAnalyzer.ofUint16
    rw [UInt16.toInt_toInt32, hcount]
    rfl
  have hdiv : ((ha.addSample (x (30 * m + 29))).humiditySum / HumidityAnalyzer.ofUint16
      (ha.addSample (x (30 * m + 29))).humidityCount).toInt = blockAvg x (m + 1) := by
    rw [Int32.toInt_div_of_nonneg (by rw [hsum]; exact hsumBound.1) (by rw [hint]; decide), hsum,
      hint]
    rfl
  unfold HumidityAnalyzer.newAvg
  rw [Int32.toInt_toInt16_of_bounds] <;> rw [hdiv] <;> omega

/-- The rate of a full batch: the difference to the average before, which fits 16 bits on the
    scale. -/
theorem closing_rate (hx : OnScale x) {m : Nat} {ha : HumidityAnalyzer} (h : Batched x m 29 ha) :
    (ha.addSample (x (30 * m + 29))).newRate.toInt = closingRate x m := by
  have havg := closing_avg hx h
  have hrateBound := closingRate_bounds hx m
  have hold : (HumidityAnalyzer.ofUint16 (ha.addSample (x (30 * m + 29))).avgHumidity).toInt =
      if m = 0 then 0 else blockAvg x m :=
    (UInt16.toInt_toInt32 ha.avgHumidity).trans h.avg
  -- the difference fits 16 bits
  have hsub : ((ha.addSample (x (30 * m + 29))).newAvg.toInt32 -
      HumidityAnalyzer.ofUint16 (ha.addSample (x (30 * m + 29))).avgHumidity).toInt =
      closingRate x m := by
    rw [Int32.toInt_sub_of_bounds] <;> rw [Int16.toInt_toInt32, havg, hold]
    · rfl
    · exact Int.le_trans (by decide) hrateBound.1
    · exact Int.lt_of_le_of_lt hrateBound.2 (by decide)
  unfold HumidityAnalyzer.newRate
  rw [Int32.toInt_toInt16_of_bounds] <;> rw [hsub] <;> omega

/-- The acceleration of a full batch: the difference of two rates, which fits as well. -/
theorem closing_accel (hx : OnScale x) {m : Nat} {ha : HumidityAnalyzer} (h : Batched x m 29 ha) :
    (ha.addSample (x (30 * m + 29))).newAccel.toInt = closingRate x m - blockRate x m := by
  have hrate := closing_rate hx h
  have hrateBound := closingRate_bounds hx m
  have hprevBound := blockRate_bounds hx m
  have hprev : (ha.addSample (x (30 * m + 29))).humidityRate.toInt = blockRate x m := h.rate
  -- the difference of two rates fits 16 bits
  have hsub : ((ha.addSample (x (30 * m + 29))).newRate.toInt32 -
      (ha.addSample (x (30 * m + 29))).humidityRate.toInt32).toInt =
      closingRate x m - blockRate x m := by
    rw [Int32.toInt_sub_of_bounds] <;> rw [Int16.toInt_toInt32, Int16.toInt_toInt32, hrate, hprev]
      <;> omega
  unfold HumidityAnalyzer.newAccel
  rw [Int32.toInt_toInt16_of_bounds] <;> rw [hsub] <;> omega

/-- The long-term sum at the end of a block. -/
theorem closing_longTerm (hx : OnScale x) {m : Nat} {ha : HumidityAnalyzer}
    (h : Batched x m 29 ha) :
    (ha.longTermRate + (ha.addSample (x (30 * m + 29))).newRate.toInt32).toInt =
      ha.longTermRate.toInt + closingRate x m := by
  have hrate := closing_rate hx h
  have hrateBound := closingRate_bounds hx m
  have havgBound := blockAvg_bounds hx m
  have hbaseBound := blockAvg_bounds hx (20 * ((m - 1) / 20) + 1)
  have hlong := h.longTerm
  rw [Int32.toInt_add_of_bounds] <;> rw [Int16.toInt_toInt32, hrate]
  · split at hlong <;> omega
  · split at hlong <;> omega

/-- The count of rates in the window. -/
theorem closing_rateCount {m i : Nat} {ha : HumidityAnalyzer} (h : Batched x m i ha) :
    (ha.rateCount + 1).toNat = (m - 1) % 20 + 1 := by
  rw [UInt16.toNat_add, h.rateCount]
  show ((m - 1) % 20 + 1) % 65536 = (m - 1) % 20 + 1
  omega

/-- Nothing overflows at the end of a block. -/
theorem batchExact_of_full (hx : OnScale x) {m : Nat} {ha : HumidityAnalyzer}
    (h : Batched x m 29 ha) : BatchExact (ha.addSample (x (30 * m + 29))) := by
  obtain ⟨hsum, hcount⟩ := addSample_exact hx (by omega) h
  have havg := closing_avg hx h
  have hrate := closing_rate hx h
  have haccel := closing_accel hx h
  have havgBound := blockAvg_bounds hx (m + 1)
  refine ⟨?_, ?_, ?_, ?_, ?_, ?_⟩
  · rw [havg, hsum, hcount]
    rfl
  · exact Int16.toNat_toUInt16_of_nonneg (by rw [havg]; exact havgBound.1)
  · rw [havg, hrate]
    show _ = _ - (ha.avgHumidity.toNat : Int)
    rw [h.avg]
    rfl
  · rw [haccel, hrate]
    show _ = _ - ha.humidityRate.toInt
    rw [h.rate]
  · -- the long-term rate
    have hlong := closing_longTerm hx h
    rw [← hrate] at hlong
    exact hlong
  · exact (closing_rateCount h).trans (congrArg (· + 1) h.rateCount.symm)

/-- The short-term analysis behind the first block. -/
theorem analyzeAcc_of_init {ha : HumidityAnalyzer} (hinit : ha.measureInit = true)
    {newRate newAccel : Int16} {rate prevRate : Int} (hrate : newRate.toInt = rate)
    (haccel : newAccel.toInt = rate - prevRate) :
    ha.analyzeAcc newRate newAccel = { ha with accState := accStateOf rate prevRate } := by
  -- the four comparisons on the numbers
  have hge : newAccel ≥ accelThreshold ↔ rate - prevRate ≥ 5 := by
    rw [ge_iff_le, Int16.le_iff_toInt_le, haccel]
    rfl
  have hle : newAccel ≤ -accelThreshold ↔ rate - prevRate ≤ -5 := by
    rw [Int16.le_iff_toInt_le, haccel]
    rfl
  have hpos : newRate > 0 ↔ rate > 0 := by
    rw [gt_iff_lt, Int16.lt_iff_toInt_lt, hrate]
    rfl
  have hneg : newRate < 0 ↔ rate < 0 := by
    rw [Int16.lt_iff_toInt_lt, hrate]
    rfl
  unfold HumidityAnalyzer.analyzeAcc accStateOf
  rw [if_neg (by rw [hinit]; exact Bool.noConfusion)]
  simp only [hge, hle, hpos, hneg]
  split
  · rfl
  · split <;> rfl

/-- The long-term analysis inside a window. -/
theorem analyzeGrowth_of_lt {ha : HumidityAnalyzer} (h : ha.rateCount.toNat < 20) :
    ha.analyzeGrowth = ha :=
  if_pos (UInt16.lt_iff_toNat_lt.mpr h)

/-- The long-term analysis at the end of a window. -/
theorem analyzeGrowth_of_ge {ha : HumidityAnalyzer} (h : 20 ≤ ha.rateCount.toNat) :
    ha.analyzeGrowth = { ha with
      growthState := growthStateOf ha.longTermRate.toInt
      longTermRate := 0
      rateCount := 0 } := by
  have hfull : ¬ ha.rateCount < maxHumRateCount := fun hlt =>
    Nat.not_lt.mpr h (UInt16.lt_iff_toNat_lt.mp hlt)
  -- the two comparisons on the numbers
  have hrise : ha.longTermRate > riseThreshold ↔ ha.longTermRate.toInt > 80 := by
    rw [gt_iff_lt, Int32.lt_iff_toInt_lt]
    rfl
  have hfall : ha.longTermRate < -riseThreshold ↔ ha.longTermRate.toInt < -80 := by
    rw [Int32.lt_iff_toInt_lt]
    rfl
  unfold HumidityAnalyzer.analyzeGrowth growthStateOf
  rw [if_neg hfull]
  simp only [hrise, hfall]

/-- The end of a block, with the values it is analysed with. -/
theorem humidityAnalyze_of_full (hx : OnScale x) {m : Nat} {ha : HumidityAnalyzer}
    (h : Batched x m 29 ha) : ha.humidityAnalyze (x (30 * m + 29)) =
      ((ha.addSample (x (30 * m + 29))).closeBatch.analyzeAcc
        (ha.addSample (x (30 * m + 29))).newRate
        (ha.addSample (x (30 * m + 29))).newAccel).analyzeGrowth := by
  obtain ⟨_, hcount⟩ := addSample_exact hx (by omega) h
  refine if_neg fun hopen => ?_
  have hlt := UInt16.lt_iff_toNat_lt.mp hopen
  have h30 : averageSamplingS.toNat = 30 := rfl
  omega

/-- The last sample of the first block, which only sets the mean. -/
theorem batched_close_first (hx : OnScale x) {ha : HumidityAnalyzer} (h : Batched x 0 29 ha) :
    Batched x 1 0 (ha.humidityAnalyze (x 29)) ∧
    (ha.humidityAnalyze (x 29)).accState = .measuring ∧
    (ha.humidityAnalyze (x 29)).growthState = .measuring := by
  have havg := closing_avg hx h
  have hstored := (batchExact_of_full hx h).storedAvg
  have hfull := humidityAnalyze_of_full hx h
  have hinit : (ha.addSample (x 29)).closeBatch.measureInit = false := h.init
  rw [Nat.mul_zero, Nat.zero_add] at havg hstored hfull
  rw [hfull]
  -- the first average is only stored
  unfold HumidityAnalyzer.analyzeAcc
  rw [if_pos hinit, analyzeGrowth_of_lt (show (0 : UInt16).toNat < 20 by decide)]
  refine ⟨⟨rfl, rfl, ?_, ?_, ?_, rfl, rfl⟩, rfl, rfl⟩
  · exact hstored.trans havg
  · exact (if_pos (Nat.le_refl 1)).symm
  · exact (Int.sub_self _).symm

/-- The last sample of a later block. -/
theorem batched_close (hx : OnScale x) {m : Nat} (hm : m ≠ 0) {ha : HumidityAnalyzer}
    (h : Batched x m 29 ha) :
    Batched x (m + 1) 0 (ha.humidityAnalyze (x (30 * m + 29))) ∧
    (ha.humidityAnalyze (x (30 * m + 29))).accState =
      accStateOf (blockRate x (m + 1)) (blockRate x m) ∧
    (ha.humidityAnalyze (x (30 * m + 29))).growthState =
      if m % 20 = 0 then growthStateOf (blockAvg x (m + 1) - blockAvg x (m + 1 - 20))
      else .measuring := by
  have havg := closing_avg hx h
  have hrate := closing_rate hx h
  have haccel := closing_accel hx h
  have hstored := (batchExact_of_full hx h).storedAvg
  have hlong := closing_longTerm hx h
  have hrateCount := closing_rateCount h
  have hinit : (ha.addSample (x (30 * m + 29))).closeBatch.measureInit = true :=
    h.init.trans (decide_eq_true (Nat.one_le_iff_ne_zero.mpr hm))
  have hbase := h.longTerm
  have hclosing := closingRate_eq (x := x) hm
  rw [if_neg hm] at hbase
  rw [hbase] at hlong
  rw [hclosing] at hrate haccel hlong
  have hchange : blockRate x (m + 1) = blockAvg x (m + 1) - blockAvg x m := if_neg (by omega)
  have hsum : (ha.addSample (x (30 * m + 29))).closeBatch.longTermRate.toInt =
      blockAvg x (m + 1) - blockAvg x (20 * ((m - 1) / 20) + 1) := by
    refine hlong.trans ?_
    rw [hchange]
    omega
  have hinit' : true = decide (1 ≤ m + 1) := (decide_eq_true (Nat.succ_pos m)).symm
  -- the acceleration is analysed, and then the growth
  rw [humidityAnalyze_of_full hx h, analyzeAcc_of_init hinit hrate haccel]
  by_cases hwindow : m % 20 = 0
  · -- the window ends with this block, and the next one begins with it
    have hcount : (ha.rateCount + 1).toNat = 20 := by omega
    have hfirst : 20 * ((m - 1) / 20) + 1 = m + 1 - 20 := by omega
    have hnext : 20 * ((m + 1 - 1) / 20) + 1 = m + 1 := by omega
    rw [analyzeGrowth_of_ge hcount.ge, if_pos hwindow]
    refine ⟨⟨rfl, rfl, ?_, hrate, ?_, ?_, hinit.trans hinit'⟩, rfl, ?_⟩
    · exact hstored.trans havg
    · rw [if_neg (Nat.succ_ne_zero m), hnext]
      exact (Int.sub_self _).symm
    · exact hwindow.symm
    · rw [← hfirst, ← hsum]
  · -- the window goes on
    have hcount : (ha.rateCount + 1).toNat = m % 20 := by omega
    have hsame : 20 * ((m + 1 - 1) / 20) + 1 = 20 * ((m - 1) / 20) + 1 := by omega
    rw [analyzeGrowth_of_lt (hcount.trans_lt (Nat.mod_lt m (by decide))), if_neg hwindow]
    refine ⟨⟨rfl, rfl, ?_, hrate, ?_, ?_, hinit.trans hinit'⟩, rfl, rfl⟩
    · exact hstored.trans havg
    · rw [if_neg (Nat.succ_ne_zero m), hsame]
      exact hsum
    · exact hcount

/-! ## Every sequence of samples -/

/-- The analyzer after the first `n` samples. -/
def analyzerAfter (x : Nat → Int16) : Nat → HumidityAnalyzer
  | 0 => .zero
  | n + 1 => (analyzerAfter x n).humidityAnalyze (x n)

/-- After every sample the analyzer is in its place in the block, in the states that belong to
    it. -/
theorem batched_analyzerAfter (hx : OnScale x) (n : Nat) :
    Batched x (n / 30) (n % 30) (analyzerAfter x n) ∧
    (analyzerAfter x n).accState = accStateAfter x n ∧
    (analyzerAfter x n).growthState = growthStateAfter x n := by
  induction n with
  | zero => exact ⟨batched_zero, rfl, rfl⟩
  | succ n ih =>
    obtain ⟨h, _, _⟩ := ih
    -- sample `n` is number `n % 30` of batch `n / 30`
    have hplace : 30 * (n / 30) + n % 30 = n := Nat.div_add_mod n 30
    unfold analyzerAfter accStateAfter growthStateAfter
    generalize n / 30 = m at h hplace
    by_cases hlast : n % 30 = 29
    · -- the last sample of a batch closes it, the first batch without a rate
      have hdiv : (n + 1) / 30 = m + 1 := by omega
      have hmod : (n + 1) % 30 = 0 := by omega
      rw [hlast] at h hplace
      rw [hdiv, hmod]
      by_cases hm : m = 0
      · subst hm
        obtain ⟨hnext, hacc, hgrowth⟩ := batched_close_first hx h
        rw [show (29 : Nat) = n from hplace] at hnext hacc hgrowth
        rw [if_neg (by omega), if_neg (by omega)]
        exact ⟨hnext, hacc, hgrowth⟩
      · obtain ⟨hnext, hacc, hgrowth⟩ := batched_close hx hm h
        have hwindow : m % 20 = 0 ↔ 0 = 0 ∧ 21 ≤ m + 1 ∧ (m + 1) % 20 = 1 := by omega
        rw [hplace] at hnext hacc hgrowth
        rw [if_pos ⟨rfl, by omega⟩, ← if_congr hwindow rfl rfl]
        exact ⟨hnext, hacc, hgrowth⟩
    · -- any other sample stays in its batch
      have hdiv : (n + 1) / 30 = m := by omega
      have hmod : (n + 1) % 30 = n % 30 + 1 := by omega
      obtain ⟨hnext, hacc, hgrowth⟩ := batched_step hx (by omega) h
      rw [hplace] at hnext hacc hgrowth
      rw [hdiv, hmod, if_neg (by omega), if_neg (by omega)]
      exact ⟨hnext, hacc, hgrowth⟩

/-- No call overflows. -/
theorem noOverflow_of_batched (hx : OnScale x) {m i : Nat} (hi : i < 30) {ha : HumidityAnalyzer}
    (h : Batched x m i ha) : NoOverflow ha (x (30 * m + i)) := by
  obtain ⟨hsum, hcount⟩ := addSample_exact hx hi h
  refine ⟨?_, ?_, fun hfull => ?_⟩
  · rw [h.sum, ← blockSum_succ]
    exact hsum
  · rw [h.count]
    exact hcount
  · have hle := UInt16.le_iff_toNat_le.mp hfull
    have h30 : averageSamplingS.toNat = 30 := rfl
    have hi' : i = 29 := by omega
    subst hi'
    exact batchExact_of_full hx h

/-- For every sequence of samples on the scale, the states after each sample are those of the
    batch definition, and no call overflows. -/
theorem humidity_exact (x : Nat → Int16) (hx : OnScale x) (n : Nat) :
    (analyzerAfter x n).accState = accStateAfter x n ∧
    (analyzerAfter x n).growthState = growthStateAfter x n ∧
    NoOverflow (analyzerAfter x n) (x n) := by
  obtain ⟨h, hacc, hgrowth⟩ := batched_analyzerAfter hx n
  have hnext := noOverflow_of_batched hx (Nat.mod_lt n (by decide)) h
  rw [Nat.div_add_mod] at hnext
  exact ⟨hacc, hgrowth, hnext⟩

/-- A rise by 10 from the first block to the second. -/
theorem humidity_exact_rising :
    (analyzerAfter (fun i => if i < 30 then 500 else 510) 60).accState = .rising :=
  (humidity_exact (fun i => if i < 30 then 500 else 510)
    (fun i => by by_cases h : i < 30 <;> simp only [h, if_true, if_false] <;> decide) 60).1.trans
    (by decide +kernel)

end EspTesting.Humidity
