import EspTesting.Native.HumidityAnalyzer

/-!
# Fan controller

`fan_controller_update` (`fan_fsm.c`), which is called once a second with the analyzer's state.
-/

namespace EspTesting.Humidity

/-- `FAN_MIN_RUNTIME_S` -/
abbrev fanMinRuntimeS : UInt32 := 30
/-- `FAN_MAX_RUNTIME_S` -/
abbrev fanMaxRuntimeS : UInt32 := 3600

/-- `FanState` -/
inductive FanState where
  | off
  | v1
  | v2
  | minTime
  | maxTime
  deriving DecidableEq, Repr

/-- `FanController` -/
structure FanController where
  runtimeSeconds : UInt32
  stopTime : UInt32
  fanState : FanState
  deriving DecidableEq, Repr

/-- `humidity_rise` -/
def humidityRise (ha : HumidityAnalyzer) : Bool :=
  ha.growthState = .rising || ha.accState = .rising

/-- `fan_controller_update` -/
def fanControllerUpdate (fc : FanController) (ha : HumidityAnalyzer) : FanController :=
  match fc.fanState with
  | .off => fc
  | .v1 =>
    if humidityRise ha then { fc with fanState := .v2, runtimeSeconds := 0 } else fc
  | .v2 =>
    let fc := { fc with runtimeSeconds := fc.runtimeSeconds + 1 }
    if fc.runtimeSeconds ≥ fanMaxRuntimeS then { fc with fanState := .maxTime }
    else if ha.growthState = .falling ∧ ha.accState ≠ .rising then
      { fc with fanState := .minTime, stopTime := fc.runtimeSeconds + fanMinRuntimeS }
    else fc
  | .minTime =>
    let fc := { fc with runtimeSeconds := fc.runtimeSeconds + 1 }
    if humidityRise ha then { fc with fanState := .v2 }
    else if fc.runtimeSeconds ≥ fc.stopTime then { fc with fanState := .off }
    else fc
  -- `FAN_MAX_TIME` falls through to `default`
  | .maxTime => { runtimeSeconds := 0, stopTime := 0, fanState := .off }

end EspTesting.Humidity
