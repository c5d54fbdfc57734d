/-!
# Humidity analyzer

`humidity_analyze` (`humidity_analizer.c`). The fields have the widths of the source; `int` is
`Int32`.
-/

namespace EspTesting.Humidity

/-- `MAX_SCALE_VAL` -/
abbrev maxScaleVal : Int := 1000
/-- `AVERAGE_SAMPLING_S` -/
abbrev averageSamplingS : UInt16 := 30
/-- `MAX_HUM_RATE_COUNT` -/
abbrev maxHumRateCount : UInt16 := 20
/-- `ACCEL_THRESHOLD` -/
abbrev accelThreshold : Int16 := 5
/-- `RISE_THRESHOLD` -/
abbrev riseThreshold : Int32 := 80

/-- `GrowthState` -/
inductive GrowthState where
  | measuring
  | stable
  | rising
  | falling
  deriving DecidableEq, Repr

/-- `AccelerationState` -/
inductive AccelerationState where
  | measuring
  | stable
  | rising
  | falling
  deriving DecidableEq, Repr

/-- `HumidityAnalyzer` -/
structure HumidityAnalyzer where
  humiditySum : Int32
  humidityCount : UInt16
  avgHumidity : UInt16
  humidityRate : Int16
  acceleration : Int16
  longTermRate : Int32
  rateCount : UInt16
  accState : AccelerationState
  growthState : GrowthState
  measureInit : Bool
  deriving DecidableEq, Repr

namespace HumidityAnalyzer

/-- The zeroed analyzer. -/
def zero : HumidityAnalyzer := ⟨0, 0, 0, 0, 0, 0, 0, .measuring, .measuring, false⟩

/-- A `uint16_t` as an `int`. -/
def ofUint16 (n : UInt16) : Int32 := n.toUInt32.toInt32

/-- The first part of `humidity_analyze`, which adds the sample. -/
def addSample (ha : HumidityAnalyzer) (currentHumidity : Int16) : HumidityAnalyzer :=
  { ha with
    growthState := .measuring
    accState := .measuring
    humiditySum := ha.humiditySum + currentHumidity.toInt32
    humidityCount := ha.humidityCount + 1 }

/-- `new_avg` -/
def newAvg (ha : HumidityAnalyzer) : Int16 :=
  (ha.humiditySum / ofUint16 ha.humidityCount).toInt16

/-- `new_rate` -/
def newRate (ha : HumidityAnalyzer) : Int16 :=
  (ha.newAvg.toInt32 - ofUint16 ha.avgHumidity).toInt16

/-- `new_accel` -/
def newAccel (ha : HumidityAnalyzer) : Int16 :=
  (ha.newRate.toInt32 - ha.humidityRate.toInt32).toInt16

/-- The update of the averages and rates from the samples of a batch. -/
def closeBatch (ha : HumidityAnalyzer) : HumidityAnalyzer :=
  { ha with
    humiditySum := 0
    humidityCount := 0
    avgHumidity := ha.newAvg.toUInt16
    humidityRate := ha.newRate
    acceleration := ha.newAccel
    longTermRate := ha.longTermRate + ha.newRate.toInt32
    rateCount := ha.rateCount + 1 }

/-- The short-term analysis of a batch. -/
def analyzeAcc (ha : HumidityAnalyzer) (newRate newAccel : Int16) : HumidityAnalyzer :=
  if ha.measureInit = false then
    -- the first batch has no earlier one to compare with
    { ha with measureInit := true, rateCount := 0, longTermRate := 0, humidityRate := 0 }
  else if newAccel ≥ accelThreshold ∧ newRate > 0 then { ha with accState := .rising }
  else if newAccel ≤ -accelThreshold ∧ newRate < 0 then { ha with accState := .falling }
  else { ha with accState := .stable }

/-- The long-term analysis. -/
def analyzeGrowth (ha : HumidityAnalyzer) : HumidityAnalyzer :=
  if ha.rateCount < maxHumRateCount then ha
  else
    { ha with
      growthState :=
        if ha.longTermRate > riseThreshold then .rising
        else if ha.longTermRate < -riseThreshold then .falling
        else .stable
      longTermRate := 0
      rateCount := 0 }

/-- `humidity_analyze` -/
def humidityAnalyze (ha : HumidityAnalyzer) (currentHumidity : Int16) : HumidityAnalyzer :=
  let ha := ha.addSample currentHumidity
  -- the batch is not complete
  if ha.humidityCount < averageSamplingS then ha
  else (ha.closeBatch.analyzeAcc ha.newRate ha.newAccel).analyzeGrowth

end HumidityAnalyzer

end EspTesting.Humidity
