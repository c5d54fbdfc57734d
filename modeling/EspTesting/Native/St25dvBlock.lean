import EspTesting.Native.St25dv

/-!
# Blocks of the tag

The functions of `st25dv.c` that load and store several bytes, and those about the security
session. Buffers live in memory; the caller of the model says where.
-/

namespace EspTesting.I2c

/-- `ST25DV_USER_ADDRESS` -/
abbrev st25dvUserAddress : UInt8 := 0x53
/-- `REG_I2C_PASSWD_BASE` -/
abbrev regI2cPasswdBase : UInt16 := 0x0900
/-- `REG_I2C_SSO_DYN` -/
abbrev regI2cSsoDyn : UInt16 := 0x2004
/-- `BIT_I2C_SSO_DYN_I2C_SSO` -/
abbrev bitI2cSsoDynI2cSso : UInt8 := (1 : UInt8) <<< 0

/-! ## Blocks -/

/-- The operation of `st25dv_write`; the bytes stand at `data`. -/
def st25dvWriteOp (regAddr : UInt16) (data size : Nat) : I2cOp where
  regAddr := regAddr
  writeData := some data
  writeSize := size

/-- `st25dv_write` -/
def st25dvWrite (env : I2cEnv) (sched : Schedule) (port : Int) (st25Address : UInt8)
    (regAddr : UInt16) (data size : Nat) (w : I2cWorld) : EspErr × I2cWorld :=
  i2cSendSync env sched (st25dvReq port st25Address (st25dvWriteOp regAddr data size)) w

/-- The operation of `st25dv_read`, which fills the buffer at `data`. -/
def st25dvReadOp (address : UInt16) (data size : Nat) : I2cOp where
  regAddr := address
  readSize := size
  userCtx := some data

/-- `st25dv_read` -/
def st25dvRead (env : I2cEnv) (sched : Schedule) (port : Int) (st25Address : UInt8)
    (address : UInt16) (data size : Nat) (w : I2cWorld) : EspErr × I2cWorld :=
  i2cSendSync env sched (st25dvReq port st25Address (st25dvReadOp address data size)) w

/-! ## The security session -/

/-- `st25dv_read_bit`; `byte` is where its local variable stands. The second value is what is put
    into `*bit`, if anything is. -/
def st25dvReadBit (env : I2cEnv) (sched : Schedule) (port : Int) (st25Address : UInt8)
    (address : UInt16) (bitMask : UInt8) (byte : Nat) (w : I2cWorld) :
    EspErr × Option Bool × I2cWorld :=
  let (ret, w) := st25dvReadByte env sched port st25Address address byte
    { w with mem := w.mem.store byte [0] }
  if ret ≠ espOk then (ret, none, w) else (espOk, some (w.mem byte &&& bitMask != 0), w)

/-- `st25dv_is_session_opened` -/
def st25dvIsSessionOpened (env : I2cEnv) (sched : Schedule) (port : Int) (st25Address : UInt8)
    (byte : Nat) (w : I2cWorld) : EspErr × Option Bool × I2cWorld :=
  st25dvReadBit env sched port st25Address regI2cSsoDyn bitI2cSsoDynI2cSso byte w

/-- The `buffer` of `st25dv_open_session`: the password, the command that presents it, and the
    password again. -/
def sessionBuffer (password : UInt64) : List UInt8 :=
  Mem.leBytes 8 password.toNat ++ [0x09] ++ Mem.leBytes 8 password.toNat

/-- `st25dv_open_session`; `buffer` is where its local buffer stands. -/
def st25dvOpenSession (env : I2cEnv) (sched : Schedule) (port : Int) (st25Address : UInt8)
    (password : UInt64) (buffer : Nat) (w : I2cWorld) : EspErr × I2cWorld :=
  st25dvWrite env sched port st25Address regI2cPasswdBase buffer 17
    { w with mem := w.mem.store buffer (sessionBuffer password) }

end EspTesting.I2c
