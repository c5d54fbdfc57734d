import EspTesting.Native.WifiMode

/-!
# Settings of the device

The setters of the settings (`device.c`): the credentials of the station, and the indexes into
the lists of values. An `int` is an `Int32`; `ARR_LEN` is unsigned, so an index is compared as
an unsigned number.
-/

namespace EspTesting.Device

open EspTesting.Wifi

/-! ## The credentials of the station -/

/-- `MAX_SSID_LEN` -/
abbrev maxSsidLen : Nat := 32
/-- `MAX_PWD_LEN` -/
abbrev maxPwdLen : Nat := 64

/-- The body of `set_sta_pwd` and of `set_sta_ssid`: the first `strnlen(str, max)` bytes go to
    the begin of the buffer, with a zero behind them. -/
def storeStr (buf str : List UInt8) (max : Nat) : List UInt8 :=
  let str := (str.take max).takeWhile (· != 0)
  str ++ 0 :: buf.drop (str.length + 1)

/-- `set_sta_pwd` -/
def setStaPwd (conf : DevWifiConfig) (str : List UInt8) : DevWifiConfig :=
  { conf with sta.password := storeStr conf.sta.password str maxPwdLen }

/-- `set_sta_ssid` -/
def setStaSsid (conf : DevWifiConfig) (str : List UInt8) : DevWifiConfig :=
  { conf with sta.ssid := storeStr conf.sta.ssid str maxSsidLen }

/-! ## The indexes -/

/-- `val_list_speed1` -/
def valListSpeed1 : List UInt8 := [0, 15, 20, 30, 40, 60]
/-- `val_list_speed2` -/
def valListSpeed2 : List UInt8 := [15, 20, 30, 40, 60, 100]
/-- `val_list_rh_threshold` -/
def valListRhThreshold : List UInt8 := [0, 40, 50, 60, 70, 80, 90]
/-- `val_list_interval_tim` -/
def valListIntervalTim : List UInt8 := [0, 3, 6, 12]
/-- `val_list_on_timer` -/
def valListOnTimer : List UInt8 := [0, 1, 2, 5]
/-- `val_list_off_timer` -/
def valListOffTimer : List UInt8 := [0, 5, 15, 30]

/-- `device_conf_t`, the indexes -/
structure DeviceConf where
  speed1 : UInt8
  speed2 : UInt8
  offTimer : UInt8
  onTimer : UInt8
  interTimer : UInt8
  humidity : UInt8
  deriving DecidableEq, Repr

/-- The zeroed configuration. -/
def DeviceConf.zero : DeviceConf := ⟨0, 0, 0, 0, 0, 0⟩

/-- `ARR_LEN` -/
def arrLen (list : List UInt8) : UInt32 := UInt32.ofNat list.length

/-- `val >= 0 && val < ARR_LEN(list)` -/
def ltArrLen (val : Int32) (list : List UInt8) : Bool := val ≥ 0 && val.toUInt32 < arrLen list

/-- `val >= 0 && val <= ARR_LEN(list)` -/
def leArrLen (val : Int32) (list : List UInt8) : Bool := val ≥ 0 && val.toUInt32 ≤ arrLen list

/-- An `int`, stored in an `uint8_t`. -/
def toUint8 (val : Int32) : UInt8 := val.toUInt32.toUInt8

/-- `set_speed` -/
def setSpeed (conf : DeviceConf) (speed1 speed2 : Int32) : DeviceConf :=
  let conf :=
    if ltArrLen speed1 valListSpeed1 then { conf with speed1 := toUint8 speed1 } else conf
  if ltArrLen speed2 valListSpeed2 then { conf with speed2 := toUint8 speed2 } else conf

/-- `set_humidity` -/
def setHumidity (conf : DeviceConf) (val : Int32) : DeviceConf :=
  if ltArrLen val valListRhThreshold then { conf with humidity := toUint8 val } else conf

/-- `set_inter_timer` -/
def setInterTimer (conf : DeviceConf) (val : Int32) : DeviceConf :=
  if leArrLen val valListIntervalTim then { conf with interTimer := toUint8 val } else conf

/-- `set_timer` -/
def setTimer (conf : DeviceConf) (onTimer offTimer : Int32) : DeviceConf :=
  let conf :=
    if leArrLen onTimer valListOnTimer then { conf with onTimer := toUint8 onTimer } else conf
  if leArrLen offTimer valListOffTimer then { conf with offTimer := toUint8 offTimer } else conf

/-- A call of a setter. -/
inductive SettingCall where
  | setSpeed (speed1 speed2 : Int32)
  | setHumidity (val : Int32)
  | setInterTimer (val : Int32)
  | setTimer (onTimer offTimer : Int32)
  deriving DecidableEq, Repr

/-- The configuration after a call. -/
def DeviceConf.step (conf : DeviceConf) : SettingCall → DeviceConf
  | .setSpeed speed1 speed2 => setSpeed conf speed1 speed2
  | .setHumidity val => setHumidity conf val
  | .setInterTimer val => setInterTimer conf val
  | .setTimer onTimer offTimer => setTimer conf onTimer offTimer

end EspTesting.Device
