import EspTesting.ForStd.Machine
import EspTesting.Native.I2cAsync

/-!
# Tasks that share the I2C worker

Any number of tasks that call `i2c_send_sync` and `i2c_send_async` (`i2c_async.c`), beside
`i2c_task`. Every access to the event bits and to the queue is one step, and the steps of all
tasks interleave freely. A task blocked in `device_wait_bits` is woken by the step that sets
the bit, and returns some time later; that another task clears the bit in the meantime does
not change what it returns.
-/

namespace EspTesting.I2c

/-- Where a task stands in a call of `i2c_send_sync`. A request that was sent is known by the
    number under which the queue took it. -/
inductive I2cClient where
  /-- in no call so far -/
  | idle
  /-- behind `device_clear_bits` -/
  | cleared (req : I2cRequest)
  /-- behind `i2c_send_async` -/
  | sent (ticket : Nat)
  /-- blocked in `device_wait_bits` -/
  | waiting (ticket : Nat)
  /-- released from `device_wait_bits`, with the bit in the value it returns -/
  | woken (ticket : Nat)
  /-- behind the call, which returned `e`; no ticket if nothing was sent -/
  | returned (ticket : Option Nat) (e : EspErr)
  deriving DecidableEq, Repr

/-- The task may begin a call. -/
def I2cClient.outside : I2cClient → Bool
  | idle | returned .. => true
  | _ => false

/-- The worker and the tasks that use it. -/
structure I2cSystem where
  world : I2cWorld
  clients : Nat → I2cClient

/-- The state after `i2c_init`. -/
def I2cSystem.boot (mem : Mem) : I2cSystem := ⟨.boot mem, fun _ => .idle⟩

/-- A step of the worker or of the task `c`. -/
inductive I2cAction where
  /-- a step of `i2c_task` -/
  | task
  /-- `i2c_send_sync`: `device_clear_bits` -/
  | clear (c : Nat) (req : I2cRequest)
  /-- `i2c_send_sync`: `i2c_send_async` -/
  | enqueue (c : Nat)
  /-- `i2c_send_sync`: the test of the bit in `device_wait_bits` -/
  | wait (c : Nat)
  /-- `i2c_send_sync`: the end of the waiting time -/
  | timeout (c : Nat)
  /-- `i2c_send_sync`: the return of a released task -/
  | done (c : Nat)
  /-- `i2c_send_async`, called by the application -/
  | async (c : Nat) (req : I2cRequest)
  deriving DecidableEq, Repr

namespace I2cSystem

/-- The task `c` goes on to `client`. -/
def setClient (s : I2cSystem) (c : Nat) (client : I2cClient) : I2cSystem :=
  { s with clients := fun c' => if c' = c then client else s.clients c' }

/-- What setting `BIT_I2C_OPER_CPLT` does to a task. -/
def wake : I2cClient → I2cClient
  | .waiting ticket => .woken ticket
  | client => client

/-- A step of `i2c_task`; setting the completion bit releases all tasks that wait for it. -/
def taskStep (env : I2cEnv) (s : I2cSystem) : I2cSystem :=
  { world := i2cTaskStep env s.world
    clients := fun c =>
      -- a task that has not yet come to wait is not woken
      if s.world.task = .setBits then wake (s.clients c) else s.clients c }

/-- `device_clear_bits` at the begin of a call. -/
def clear (c : Nat) (req : I2cRequest) (s : I2cSystem) : I2cSystem :=
  if (s.clients c).outside then
    { s with world := s.world.clearBits }.setClient c (.cleared req)
  else s

/-- `i2c_send_async` in a call; a request that is not taken ends the call. -/
def enqueue (c : Nat) (s : I2cSystem) : I2cSystem :=
  match s.clients c with
  | .cleared req =>
    let (e, world) := i2cSendAsync req s.world
    if e = espOk then { s with world }.setClient c (.sent s.world.sent)
    -- the queue was full, or the request empty
    else s.setClient c (.returned none e)
  | _ => s

/-- `device_wait_bits` in a call. -/
def wait (c : Nat) (s : I2cSystem) : I2cSystem :=
  match s.clients c with
  | .sent ticket =>
    s.setClient c (if s.world.bitI2cOperCplt then .woken ticket else .waiting ticket)
  | _ => s

/-- The waiting time of a call is over. -/
def timeout (c : Nat) (s : I2cSystem) : I2cSystem :=
  match s.clients c with
  | .waiting ticket => s.setClient c (.returned (some ticket) espErrTimeout)
  | _ => s

/-- A call returns with the completion bit in the value of `device_wait_bits`. -/
def done (c : Nat) (s : I2cSystem) : I2cSystem :=
  match s.clients c with
  | .woken ticket => s.setClient c (.returned (some ticket) espOk)
  | _ => s

/-- A call of `i2c_send_async`. -/
def async (c : Nat) (req : I2cRequest) (s : I2cSystem) : I2cSystem :=
  if (s.clients c).outside then { s with world := (i2cSendAsync req s.world).2 } else s

/-- One step; an action that is not possible in the state changes nothing. -/
def step (env : I2cEnv) (s : I2cSystem) : I2cAction → I2cSystem
  | .task => s.taskStep env
  | .clear c req => s.clear c req
  | .enqueue c => s.enqueue c
  | .wait c => s.wait c
  | .timeout c => s.timeout c
  | .done c => s.done c
  | .async c req => s.async c req

end I2cSystem

end EspTesting.I2c
