import EspTesting.ForStd.Loop
import EspTesting.ForStd.Memory
import EspTesting.Native.EspErr

/-!
# Asynchronous I2C

The worker task `i2c_task`, which takes requests from a queue, and the functions that send
it requests (`i2c_async.c`). FreeRTOS, the I2C driver and callbacks other than
`copy_callback` are code outside the component: the queue and the two event bits are part of
the state, and `I2cEnv` says how the bus answers each transaction and what a foreign
callback does.

`i2cTaskStep` is one step of the task: taking a request, one turn of the loop over its
operations, or the test for an empty queue with what follows. A client that waits lets the
task make steps.
-/

namespace EspTesting.I2c

/-- `MAX_RETRY` -/
abbrev maxRetry : Nat := 3
/-- `I2C_BUF_SIZE` -/
abbrev i2cBufSize : Nat := 512
/-- `I2C_QUEUE_LEN` -/
abbrev i2cQueueLen : Nat := 5

/-! ## Requests -/

/-- What a `cplt_callback_t` may point to. -/
inductive CpltCallback where
  | copyCallback
  | other (f : Nat)
  deriving DecidableEq, Repr

/-- `i2c_op_t`; `none` is a `NULL` pointer. -/
structure I2cOp where
  writeData : Option Nat := none
  writeSize : Nat := 0
  regAddr : UInt16
  readSize : Nat := 0
  postDelay : Nat := 0
  opCpltCallback : Option CpltCallback := none
  userCtx : Option Nat := none
  deriving DecidableEq, Repr

/-- `i2c_request_t`; `ops` holds the `op_count` operations the pointer leads to. -/
structure I2cRequest where
  port : Int
  deviceAddr : UInt8
  regAddr16b : Bool
  trCpltCallback : Option CpltCallback
  ops : List I2cOp
  deriving DecidableEq, Repr

/-- A transaction on the bus. -/
inductive I2cTransaction where
  | write (port : Int) (deviceAddr : UInt8) (regAddr : UInt16) (regAddr16b : Bool)
      (data : List UInt8)
  | read (port : Int) (deviceAddr : UInt8) (regAddr : UInt16) (regAddr16b twoStepReading : Bool)
      (readSize : Nat)
  deriving DecidableEq, Repr

/-- The answer to a transaction: what the driver returns and, for a read, the bytes that
    then stand in the buffer. -/
structure BusAnswer where
  err : EspErr
  data : Nat → UInt8

/-- The code outside the component: the answer to the `n`-th transaction, and the effect on
    memory of a foreign callback. -/
structure I2cEnv where
  bus : Nat → BusAnswer
  callback : Nat → EspErr → Option Nat → (Nat → UInt8) → Nat → Mem → Mem

/-! ## State -/

/-- Where `i2c_task` stands, with its local variables; `ops` are the operations from `op`
    to `end`. A request is held with the number under which it was sent. -/
inductive I2cTask where
  | receive
  | loop (ticket : Nat) (req : I2cRequest) (ops : List I2cOp) (failCount : Nat)
      (result : EspErr)
  | testQueue
  | setBits
  deriving DecidableEq, Repr

/-- A call of `notification_callback`: the operation, the result passed to the callback, and
    the number of transactions made before. -/
structure I2cReport where
  op : I2cOp
  res : EspErr
  time : Nat
  deriving DecidableEq, Repr

/-- The state of the component. `transactions`, `sent` and `notified` record what happened:
    the transactions made, the number of requests sent, and the reports on each of these. -/
structure I2cWorld where
  i2cQueue : List (Nat × I2cRequest)
  task : I2cTask
  bitI2cOperCplt : Bool
  bitI2cOperErr : Bool
  i2cBuf : Nat → UInt8
  mem : Mem
  transactions : List I2cTransaction
  sent : Nat
  notified : Nat → List I2cReport

/-- The state after `i2c_init`. -/
def I2cWorld.boot (mem : Mem) : I2cWorld where
  i2cQueue := []
  task := .receive
  bitI2cOperCplt := false
  bitI2cOperErr := false
  i2cBuf := fun _ => 0
  mem := mem
  transactions := []
  sent := 0
  notified := fun _ => []

/-! ## The task -/

/-- `copy_callback` -/
def copyCallback (res : EspErr) (userCtx : Option Nat) (data : Nat → UInt8) (size : Nat)
    (mem : Mem) : Mem :=
  match userCtx with
  | some dest => if res = espOk then mem.store dest ((List.range size).map data) else mem
  | none => mem

/-- The call of a callback. -/
def CpltCallback.call (env : I2cEnv) (callback : CpltCallback) (res : EspErr)
    (userCtx : Option Nat) (data : Nat → UInt8) (size : Nat) (mem : Mem) : Mem :=
  match callback with
  | .copyCallback => I2c.copyCallback res userCtx data size mem
  | .other f => env.callback f res userCtx data size mem

/-- `notification_callback` -/
def notificationCallback (env : I2cEnv) (res : EspErr) (ticket : Nat) (req : I2cRequest)
    (op : I2cOp) (w : I2cWorld) : I2cWorld :=
  let len := if res = espOk then op.readSize else 0
  let mem :=
    match op.opCpltCallback with
    | some f => f.call env res op.userCtx w.i2cBuf len w.mem
    | none =>
      match req.trCpltCallback with
      | some f => f.call env res op.userCtx w.i2cBuf len w.mem
      | none => w.mem
  { w with
    mem
    notified := fun n =>
      if n = ticket then w.notified n ++ [⟨op, res, w.transactions.length⟩] else w.notified n }

/-- `device_i2c_master_write_to_device` -/
def deviceI2cMasterWriteToDevice (env : I2cEnv) (req : I2cRequest) (op : I2cOp)
    (w : I2cWorld) : EspErr × I2cWorld :=
  let data :=
    match op.writeData with
    | some src => w.mem.load src op.writeSize
    | none => []
  ((env.bus w.transactions.length).err,
    { w with transactions := w.transactions ++
        [.write req.port req.deviceAddr op.regAddr req.regAddr16b data] })

/-- `device_i2c_master_read_from_device` into `i2c_buf`. -/
def deviceI2cMasterReadFromDevice (env : I2cEnv) (req : I2cRequest) (op : I2cOp)
    (twoStepReading : Bool) (w : I2cWorld) : EspErr × I2cWorld :=
  let answer := env.bus w.transactions.length
  (answer.err,
    { w with
      i2cBuf := fun i => if i < op.readSize then answer.data i else w.i2cBuf i
      transactions := w.transactions ++
        [.read req.port req.deviceAddr op.regAddr req.regAddr16b twoStepReading op.readSize] })

/-- The argument check of the loop. -/
def I2cOp.Valid (op : I2cOp) : Prop :=
  ¬ (op.readSize > i2cBufSize ∨ (op.writeSize ≠ 0 ∧ op.writeData = none))

instance (op : I2cOp) : Decidable op.Valid := inferInstanceAs (Decidable (¬ _))

/-- `two_step_reading` -/
def I2cOp.twoStepReading (op : I2cOp) : Bool := op.postDelay > 0 && op.readSize != 0

/-- The transactions of one attempt at an operation; `result` is as before if there are
    none. -/
def i2cAttempt (env : I2cEnv) (req : I2cRequest) (op : I2cOp) (result : EspErr)
    (w : I2cWorld) : EspErr × I2cWorld :=
  let (result, w) :=
    if op.twoStepReading || op.writeSize != 0 then deviceI2cMasterWriteToDevice env req op w
    else (result, w)
  if op.readSize != 0 then
    deviceI2cMasterReadFromDevice env req op op.twoStepReading w
  else (result, w)

/-- One turn of the loop over the operations. -/
def i2cTaskLoop (env : I2cEnv) (ticket : Nat) (req : I2cRequest) (op : I2cOp)
    (ops : List I2cOp) (failCount : Nat) (result : EspErr) (w : I2cWorld) : I2cWorld :=
  if ¬ op.Valid then
    { notificationCallback env espErrInvalidArg ticket req op w with
      -- a refused operation is skipped, and `result` stays
      bitI2cOperErr := true
      task := .loop ticket req ops failCount result }
  else
    let (result, w) := i2cAttempt env req op result w
    let w :=
      -- an attempt that will be repeated is not reported
      if result = espOk || failCount ≥ maxRetry then
        notificationCallback env result ticket req op w
      else w
    -- the next operation, the same one again, or the end of the request
    if result = espOk then { w with task := .loop ticket req ops 0 result }
    else if failCount < maxRetry then
      { w with task := .loop ticket req (op :: ops) (failCount + 1) result }
    else { w with task := .testQueue }

/-- One step of `i2c_task`; waiting for a request is a step that changes nothing. -/
def i2cTaskStep (env : I2cEnv) (w : I2cWorld) : I2cWorld :=
  match w.task with
  | .receive =>
    match w.i2cQueue with
    | [] => w
    | (ticket, req) :: i2cQueue => { w with i2cQueue, task := .loop ticket req req.ops 0 espOk }
  | .loop _ _ [] _ _ => { w with task := .testQueue }
  | .loop ticket req (op :: ops) failCount result =>
    i2cTaskLoop env ticket req op ops failCount result w
  | .testQueue => { w with task := if w.i2cQueue.isEmpty then .setBits else .receive }
  | .setBits => { w with bitI2cOperCplt := true, task := .receive }

/-- The task is not waiting for a request. -/
def I2cWorld.running (w : I2cWorld) : Bool := !(w.task = .receive && w.i2cQueue.isEmpty)

/-- `n` steps of the task, or fewer if it comes to wait for a request. -/
def i2cTaskRun (env : I2cEnv) (n : Nat) (w : I2cWorld) : I2cWorld :=
  Loop.iterate I2cWorld.running (i2cTaskStep env) n w

/-! ## Sending -/

/-- `i2c_send_async`; the queue takes the request by value. -/
def i2cSendAsync (req : I2cRequest) (w : I2cWorld) : EspErr × I2cWorld :=
  if req.ops = [] then (espErrInvalidArg, w)
  else if w.i2cQueue.length ≥ i2cQueueLen then (espFail, w)
  else
    (espOk, { w with
      i2cQueue := w.i2cQueue ++ [(w.sent, req)]
      sent := w.sent + 1
      notified := fun n => if n = w.sent then [] else w.notified n })

/-- `device_clear_bits(BIT_I2C_OPER_CPLT|BIT_I2C_OPER_ERR)` -/
def I2cWorld.clearBits (w : I2cWorld) : I2cWorld :=
  { w with bitI2cOperCplt := false, bitI2cOperErr := false }

/-- The interleaving of a call with the task: the steps the task makes between clearing the
    bits and sending, and those it makes before the call stops waiting. -/
structure Schedule where
  gap : Nat
  wait : Nat
  deriving DecidableEq, Repr

/-- `i2c_send_sync` -/
def i2cSendSync (env : I2cEnv) (sched : Schedule) (req : I2cRequest) (w : I2cWorld) :
    EspErr × I2cWorld :=
  let (e, w) := i2cSendAsync req (i2cTaskRun env sched.gap w.clearBits)
  if e = espOk then
    let w := i2cTaskRun env sched.wait w
    -- the bit says that a request was worked off, not which
    if w.bitI2cOperCplt then (espOk, w) else (espErrTimeout, w)
  else (e, w)

end EspTesting.I2c
