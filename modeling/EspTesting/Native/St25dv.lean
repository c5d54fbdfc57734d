import EspTesting.Native.I2cAsync

/-!
# Access to the tag

The functions of `st25dv.c` that load and store a byte of the tag. Local variables whose
address is passed on live in memory, at an address the caller of the function supplies.
-/

namespace EspTesting.I2c

/-- The static `req` after `st25dv_init_bus`, with the device and the operation set. -/
def st25dvReq (port : Int) (st25Address : UInt8) (op : I2cOp) : I2cRequest where
  port := port
  deviceAddr := st25Address
  regAddr16b := true
  trCpltCallback := some .copyCallback
  ops := [op]

/-- The operation of `st25dv_write_byte`; the argument `byte` stands at `src`. -/
def st25dvWriteByteOp (address : UInt16) (src : Nat) : I2cOp where
  regAddr := address
  writeData := some src
  writeSize := 1

/-- `st25dv_write_byte`; `src` is where the argument `byte` is put. -/
def st25dvWriteByte (env : I2cEnv) (sched : Schedule) (port : Int) (st25Address : UInt8)
    (address : UInt16) (byte : UInt8) (src : Nat) (w : I2cWorld) : EspErr × I2cWorld :=
  i2cSendSync env sched (st25dvReq port st25Address (st25dvWriteByteOp address src))
    { w with mem := w.mem.store src [byte] }

/-- The operation of `st25dv_read_byte`, which fills `*byte`. -/
def st25dvReadByteOp (address : UInt16) (byte : Nat) : I2cOp where
  regAddr := address
  userCtx := some byte
  readSize := 1

/-- `st25dv_read_byte` -/
def st25dvReadByte (env : I2cEnv) (sched : Schedule) (port : Int) (st25Address : UInt8)
    (address : UInt16) (byte : Nat) (w : I2cWorld) : EspErr × I2cWorld :=
  i2cSendSync env sched (st25dvReq port st25Address (st25dvReadByteOp address byte)) w

/-- The byte with the bits of the mask set or cleared. -/
def applyBit (bitMask : UInt8) (bit : Bool) (byte : UInt8) : UInt8 :=
  if bit then byte ||| bitMask else byte &&& ~~~ bitMask

/-- `st25dv_write_bit`; `byte` is where its local variable stands, `src` where the argument
    of `st25dv_write_byte` is put. -/
def st25dvWriteBit (env : I2cEnv) (readSched writeSched : Schedule) (port : Int)
    (st25Address : UInt8) (address : UInt16) (bitMask : UInt8) (bit : Bool) (byte src : Nat)
    (w : I2cWorld) : EspErr × I2cWorld :=
  let (ret, w) := st25dvReadByte env readSched port st25Address address byte
    { w with mem := w.mem.store byte [0] }
  if ret ≠ espOk then (ret, w)
  else
    st25dvWriteByte env writeSched port st25Address address
      (applyBit bitMask bit (w.mem byte)) src w

end EspTesting.I2c
