import EspTesting.Native.I2cAsync

/-!
# The sensor of humidity and temperature

`hdc1080.c`: the request that is sent at every `EVN_HDC1080_POLLING`. The pointer `req.ops` is
an index into the array `ops`. The event is registered with the request as its context; the
conversion of the measured values is not modelled.
-/

namespace EspTesting.I2c

/-- `HDC1080_ADDR` -/
abbrev hdc1080Addr : UInt8 := 0x40
/-- `HDC1080_REG_TEMP` -/
abbrev hdc1080RegTemp : UInt16 := 0x00
/-- `HDC1080_REG_HUMID` -/
abbrev hdc1080RegHumid : UInt16 := 0x01
/-- `HDC1080_REG_CONFIG` -/
abbrev hdc1080RegConfig : UInt16 := 0x02
/-- `I2C_MASTER_NUM` -/
abbrev i2cMasterNum : Int := 0

/-- `hum_cplt_callback` -/
abbrev humCpltCallback : CpltCallback := .other 0
/-- `temp_cplt_callback` -/
abbrev tempCpltCallback : CpltCallback := .other 1

/-- A part of the array `ops`: the pointer `req.ops`, as an index, and `req.op_count`. -/
structure OpRange where
  ops : Nat
  opCount : Nat
  deriving DecidableEq, Repr

/-- The variables of `hdc1080.c`. Of `req`, `ops` and `op_count` are the `range`, which is
    missing while `req.ops` is `NULL`. -/
structure Hdc1080 where
  ops : Vector I2cOp 3
  port : Int
  deviceAddr : UInt8
  regAddr16b : Bool
  range : Option OpRange
  isInit : Bool

namespace Hdc1080

/-- An operation after `memset`. -/
def zeroOp : I2cOp where
  regAddr := 0

/-- The variables before `hdc1080_init`. -/
def boot : Hdc1080 := ⟨#v[zeroOp, zeroOp, zeroOp], 0, 0, false, none, false⟩

/-- `hdc1080_init`; `configData` is the address of the array of this name. -/
def init (s : Hdc1080) (configData : Nat) (hum temp : Option Nat) : Hdc1080 where
  ops := #v[
    { zeroOp with
      postDelay := 150
      writeData := some configData
      writeSize := 2
      regAddr := hdc1080RegConfig },
    { zeroOp with
      userCtx := hum
      opCpltCallback := some humCpltCallback
      postDelay := 50
      readSize := 2
      regAddr := hdc1080RegHumid },
    { zeroOp with
      userCtx := temp
      opCpltCallback := some tempCpltCallback
      postDelay := 25
      readSize := 2
      regAddr := hdc1080RegTemp }]
  port := i2cMasterNum
  deviceAddr := hdc1080Addr
  regAddr16b := false
  range := some ⟨0, 1⟩
  -- not touched
  isInit := s.isInit

/-- The request, as `i2c_send_async` takes it. -/
def request (s : Hdc1080) (range : OpRange) : I2cRequest where
  port := s.port
  deviceAddr := s.deviceAddr
  regAddr16b := s.regAddr16b
  trCpltCallback := none
  ops := (s.ops.toList.drop range.ops).take range.opCount

/-- `hdc1080_polling_handler`, with the range that is passed to `i2c_send_async` and the state
    of the bus behind it -/
def pollingHandler (s : Hdc1080) (w : I2cWorld) : Option OpRange × Hdc1080 × I2cWorld :=
  match s.range with
  | none => (none, s, w)
  | some range =>
    let (isInit, range) :=
      if s.isInit then (true, { ops := range.ops + 1, opCount := 2 }) else (s.isInit, range)
    (some range, { s with isInit, range := some range }, (i2cSendAsync (s.request range) w).2)

end Hdc1080

end EspTesting.I2c
