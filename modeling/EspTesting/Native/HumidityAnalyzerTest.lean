import EspTesting.Native.HumidityAnalyzer

/-!
# The humidity analyzer of the host test

The copy of `humidity_analyze` in the test that runs on the host (`humidity_analyzer_test.c`).
What stands there word for word as in the component is taken from there; the short-term
analysis of a batch does not.
-/

namespace EspTesting.Humidity.HostTest

open HumidityAnalyzer

/-- The short-term analysis of a batch, in the copy. -/
def analyzeAcc (ha : HumidityAnalyzer) (newRate newAccel : Int16) : HumidityAnalyzer :=
  if ha.measureInit = false then
    { ha with measureInit := true, rateCount := 0, longTermRate := 0, humidityRate := 0 }
  else if newAccel ≥ accelThreshold ∧ newRate ≥ 0 then { ha with accState := .rising }
  else if newAccel ≤ -accelThreshold ∧ newRate ≤ 0 then { ha with accState := .falling }
  else { ha with accState := .stable }

/-- `humidity_analyze` of the host test -/
def humidityAnalyze (ha : HumidityAnalyzer) (currentHumidity : Int16) : HumidityAnalyzer :=
  let ha := ha.addSample currentHumidity
  if ha.humidityCount < averageSamplingS then ha
  else (analyzeAcc ha.closeBatch ha.newRate ha.newAccel).analyzeGrowth

end EspTesting.Humidity.HostTest
