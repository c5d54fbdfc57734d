import EspTesting.Native.St25dvBlock
import EspTesting.Native.St25dvNdefWrite
import EspTesting.Spec.I2cSerial
import EspTesting.Spec.St25dvByte

/-!
# The tag behind a bus that loses transactions

Tasks send requests for the tag while others send requests for devices with 8-bit registers, and
the bus fails now and then, before or after the tag has done what it was told. The tag still
behaves like an array of bytes: its requests are performed one after the other, in the order in
which the queue took them; one that is reported with `ESP_OK` is performed, and one that is given
up changes no buffer.

## Key results

- `tagServed_serveAlone`: what becomes of one request
- `tag_serves`: what becomes of all requests, in any interleaving
-/

namespace EspTesting.I2c

open St25dv (UserMem)

/-! ## The devices -/

/-- The memories of the devices with 16-bit registers, by port and address. -/
abbrev Devices := Int → UInt8 → UserMem

/-- The bytes are stored in one of the devices. -/
def Devices.store (devs : Devices) (port : Int) (deviceAddr : UInt8) (address : UInt16)
    (bytes : List UInt8) : Devices := fun p d =>
  if p = port ∧ d = deviceAddr then (devs p d).store address bytes else devs p d

/-- What a transaction that reaches its device does there. -/
def Devices.perform (t : I2cTransaction) (devs : Devices) : Devices :=
  match t with
  | .write port deviceAddr regAddr true data => devs.store port deviceAddr regAddr data
  | _ => devs

/-- The devices after the transactions, the first of them with the number `n`; `landed` tells
    which reach their device. -/
def devicesFrom (landed : Nat → Bool) : Nat → List I2cTransaction → Devices → Devices
  | _, [], devs => devs
  | n, t :: log, devs =>
    devicesFrom landed (n + 1) log (if landed n then devs.perform t else devs)

/-- The devices after the transactions. -/
def devicesAfter (landed : Nat → Bool) (devs : Devices) (log : List I2cTransaction) : Devices :=
  devicesFrom landed 0 log devs

/-- Transactions one behind the other. -/
theorem devicesFrom_append (landed : Nat → Bool) (n : Nat) (log more : List I2cTransaction)
    (devs : Devices) : devicesFrom landed n (log ++ more) devs =
      devicesFrom landed (n + log.length) more (devicesFrom landed n log devs) := by
  induction log generalizing n devs with
  | nil => rfl
  | cons t log ih =>
    rw [List.cons_append, devicesFrom, ih, List.length_cons, devicesFrom]
    congr 1
    omega

/-- The devices behind two stretches of the bus. -/
theorem devicesAfter_append (landed : Nat → Bool) (devs : Devices)
    (log more : List I2cTransaction) : devicesAfter landed devs (log ++ more) =
      devicesFrom landed log.length more (devicesAfter landed devs log) := by
  rw [devicesAfter, devicesFrom_append, Nat.zero_add]
  rfl

/-- The last transaction is performed if it landed. -/
theorem devicesAfter_concat (landed : Nat → Bool) (devs : Devices) (log : List I2cTransaction)
    (t : I2cTransaction) : devicesAfter landed devs (log ++ [t]) =
      if landed log.length then (devicesAfter landed devs log).perform t
      else devicesAfter landed devs log := by
  rw [devicesAfter_append]
  rfl

/-- Bytes stored twice are stored. -/
theorem store_store (devs : Devices) (port : Int) (deviceAddr : UInt8) (address : UInt16)
    (bytes : List UInt8) :
    (devs.store port deviceAddr address bytes).store port deviceAddr address bytes =
      devs.store port deviceAddr address bytes := by
  funext p d
  unfold Devices.store
  split
  · funext x
    simp only [UserMem.store]
    cases bytes[(x - address).toNat]? <;> rfl
  · rfl

/-- A transaction that is performed twice is performed once. -/
theorem perform_perform (t : I2cTransaction) (devs : Devices) :
    (devs.perform t).perform t = devs.perform t := by
  cases t with
  | read => rfl
  | write port deviceAddr regAddr regAddr16b data =>
    cases regAddr16b with
    | false => rfl
    | true => exact store_store ..

/-- A transaction that is tried again. -/
theorem devicesAfter_replicate (landed : Nat → Bool) (devs : Devices) (log : List I2cTransaction)
    (t : I2cTransaction) (n : Nat) :
    (devicesAfter landed devs (log ++ List.replicate n t) = devicesAfter landed devs log ∨
      devicesAfter landed devs (log ++ List.replicate n t) =
        (devicesAfter landed devs log).perform t) ∧
    (0 < n → landed (log.length + n - 1) = true →
      devicesAfter landed devs (log ++ List.replicate n t) =
        (devicesAfter landed devs log).perform t) := by
  induction n with
  | zero => simp
  | succ n ih =>
    have hlength : (log ++ List.replicate n t).length = log.length + (n + 1) - 1 := by
      rw [List.length_append, List.length_replicate]
      omega
    rw [List.replicate_succ', ← List.append_assoc, devicesAfter_concat, hlength]
    obtain ⟨hsame | hdone, -⟩ := ih
    · -- no attempt landed so far
      rw [hsame]
      cases landed (log.length + (n + 1) - 1) <;> simp
    · -- one did, and one more does nothing new
      rw [hdone, perform_perform]
      simp

/-! ## The bus -/

/-- What reaches the tag, and what the bus answers for it. A transaction answered with `ESP_OK`
    has reached its device, and if it reads, the bytes are those that stand there. -/
structure Honest (env : I2cEnv) (landed : Nat → Bool) (devs : Devices)
    (log : List I2cTransaction) : Prop where
  lands : ∀ n, (env.bus n).err = espOk → landed n = true
  reads : ∀ n port deviceAddr regAddr size,
    log[n]? = some (.read port deviceAddr regAddr true false size) →
    (env.bus n).err = espOk → ∀ i < size, (env.bus n).data i =
      devicesAfter landed devs (log.take n) port deviceAddr (regAddr + UInt16.ofNat i)

/-- A bus that is honest about a log is honest about its beginning. -/
theorem Honest.of_prefix {env : I2cEnv} {landed : Nat → Bool} {devs : Devices}
    {log log' : List I2cTransaction} (h : Honest env landed devs log') (hlog : log <+: log') :
    Honest env landed devs log := by
  obtain ⟨more, rfl⟩ := hlog
  refine ⟨h.lands, fun n port deviceAddr regAddr size hn => ?_⟩
  have hlt := (List.getElem?_eq_some_iff.mp hn).1
  have hread := h.reads n port deviceAddr regAddr size
  rwa [List.getElem?_append_left hlt, List.take_append_of_le_length (Nat.le_of_lt hlt),
    forall_prop_of_true hn] at hread

/-! ## Requests for the tag -/

/-- A call of `st25dv_write` or `st25dv_read`; the functions for one byte make the same requests. -/
inductive TagRequest where
  | write (port : Int) (st25Address : UInt8) (regAddr : UInt16) (data size : Nat)
  | read (port : Int) (st25Address : UInt8) (address : UInt16) (data size : Nat)
  deriving DecidableEq, Repr

namespace TagRequest

/-- The operation of the request. -/
def op : TagRequest → I2cOp
  | write _ _ regAddr data size => st25dvWriteOp regAddr data size
  | read _ _ address data size => st25dvReadOp address data size

/-- The request that is sent. -/
def request : TagRequest → I2cRequest
  | write port st25Address regAddr data size =>
    st25dvReq port st25Address (st25dvWriteOp regAddr data size)
  | read port st25Address address data size =>
    st25dvReq port st25Address (st25dvReadOp address data size)

/-- The number of bytes. -/
def size : TagRequest → Nat
  | write _ _ _ _ size => size
  | read _ _ _ _ size => size

/-- The transaction of an attempt, if it is one about at least one byte. -/
def transaction (mem : Mem) : TagRequest → I2cTransaction
  | write port st25Address regAddr data size =>
    .write port st25Address regAddr true (mem.load data size)
  | read port st25Address address _ size => .read port st25Address address true false size

/-- What the callback does to the memory, with the buffer of the task. -/
def callback (i2cBuf : Nat → UInt8) (mem : Mem) : TagRequest → Mem
  | write .. => mem
  | read _ _ _ data size => mem.store data ((List.range size).map i2cBuf)

/-- What the request is for: bytes of the memory go to the device, or the other way. -/
def perform (s : Mem × Devices) : TagRequest → Mem × Devices
  | write port st25Address regAddr data size =>
    (s.1, s.2.store port st25Address regAddr (s.1.load data size))
  | read port st25Address address data size =>
    (s.1.store data (St25dv.st25dvRead (s.2 port st25Address) address size), s.2)

/-- The number of transactions of an attempt. -/
abbrev count (t : TagRequest) : Nat := if t.size = 0 then 0 else 1

variable (t : TagRequest)

/-- The request on the tag has its one operation. -/
theorem request_ops : t.request.ops = [t.op] := by cases t <;> rfl

/-- The request on the tag is not empty. -/
theorem ops_ne_nil : t.request.ops ≠ [] := by
  rw [request_ops]
  exact List.cons_ne_nil _ _

/-- An attempt is one transaction, or none if there is nothing to be done. -/
theorem i2cAttempt_eq (env : I2cEnv) (result : EspErr) (w : I2cWorld) :
    ∃ i2cBuf, (t.size ≠ 0 → ∀ mem,
        t.callback i2cBuf mem = t.callback (env.bus w.transactions.length).data mem) ∧
      i2cAttempt env t.request t.op result w =
        (if t.size = 0 then result else (env.bus w.transactions.length).err,
          { w with
            i2cBuf
            transactions := w.transactions ++
              List.replicate t.count (t.transaction w.mem) }) := by
  cases t with
  | write port st25Address regAddr data size =>
    refine ⟨w.i2cBuf, fun _ _ => rfl, ?_⟩
    cases size with
    -- a size of 0 puts nothing on the bus
    | zero =>
      show (result, w) = (result, { w with transactions := w.transactions ++ [] })
      rw [List.append_nil]
    | succ size => rfl
  | read port st25Address address data size =>
    cases size with
    | zero =>
      refine ⟨w.i2cBuf, fun h => absurd rfl h, ?_⟩
      show (result, w) = (result, { w with transactions := w.transactions ++ [] })
      rw [List.append_nil]
    | succ size =>
      refine ⟨_, fun _ mem => ?_, rfl⟩
      -- the callback takes the bytes that were just read
      simp only [callback]
      congr 1
      apply List.map_congr_left
      intro i hi
      exact if_pos (List.mem_range.mp hi)

/-- A report changes the memory only if it is one of success. -/
theorem mem_notificationCallback (env : I2cEnv) (result : EspErr) (ticket : Nat) (w : I2cWorld) :
    (notificationCallback env result ticket t.request t.op w).mem =
      if result = espOk then t.callback w.i2cBuf w.mem else w.mem := by
  cases t with
  | write port st25Address regAddr data size => exact (ite_self w.mem).symm
  | read port st25Address address data size =>
    show (if result = espOk then
      w.mem.store data ((List.range (if result = espOk then size else 0)).map w.i2cBuf)
        else w.mem) = _
    by_cases hok : result = espOk
    · -- the callback of a read stores what was read
      simp only [hok, if_true, callback]
    · simp only [hok, if_false]

/-- A read of no byte stores nothing. -/
theorem callback_of_size_eq_zero (h : t.size = 0) (i2cBuf : Nat → UInt8) (mem : Mem) :
    t.callback i2cBuf mem = mem := by
  cases t with
  | write => rfl
  | read port st25Address address data size =>
    obtain rfl : size = 0 := h
    exact Mem.store_nil mem data

end TagRequest

/-! ## Serving a request for the tag -/

/-- The task works off what it holds. -/
def settle (env : I2cEnv) (w : I2cWorld) : I2cWorld := i2cTaskRun env w.weight w

variable {env : I2cEnv} {w : I2cWorld} {ticket : Nat} {t : TagRequest}

/-- A step of the worker is part of what it does until it rests. -/
theorem settle_step (env : I2cEnv) (h : w.running = true) :
    settle env (i2cTaskStep env w) = settle env w :=
  (Loop.run_step (decreases_weight env) h).symm

/-- A worker that is not waiting for a request is at work. -/
theorem running_of_task (h : w.task ≠ .receive) : w.running = true := by
  rw [running_eq_true_iff]
  exact fun hrest => h hrest.1

/-- With no request left the worker sets the bit and waits. -/
theorem settle_testQueue (env : I2cEnv) (hqueue : w.i2cQueue = []) (htask : w.task = .testQueue) :
    settle env w = { w with bitI2cOperCplt := true, task := .receive } := by
  have htest : i2cTaskStep env w = { w with task := .setBits } := by
    simp only [i2cTaskStep, htask, hqueue, List.isEmpty_nil, if_true]
  have hset : i2cTaskStep env { w with task := .setBits } =
      { w with bitI2cOperCplt := true, task := .receive } := rfl
  rw [← settle_step env (running_of_task (htask ▸ I2cTask.noConfusion)), htest,
    ← settle_step env (running_of_task I2cTask.noConfusion), hset]
  apply i2cTaskRun_of_atRest
  exact ⟨rfl, hqueue⟩

/-- With no operation left the worker sets the bit and waits. -/
theorem settle_done (env : I2cEnv) {req : I2cRequest} {failCount : Nat} {result : EspErr}
    (hqueue : w.i2cQueue = []) (htask : w.task = .loop ticket req [] failCount result) :
    settle env w = { w with bitI2cOperCplt := true, task := .receive } := by
  have hend : i2cTaskStep env w = { w with task := .testQueue } := by
    simp only [i2cTaskStep, htask]
  rw [← settle_step env (running_of_task (htask ▸ I2cTask.noConfusion)), hend]
  exact settle_testQueue env hqueue rfl

/-- The request is reported as `res` after `n` transactions. -/
structure TagServed (env : I2cEnv) (ticket : Nat) (t : TagRequest) (w : I2cWorld) (n : Nat)
    (res : EspErr) (w' : I2cWorld) : Prop where
  transactions : w'.transactions = w.transactions ++ List.replicate n (t.transaction w.mem)
  notified : w'.notified = fun m =>
    if m = ticket then w.notified m ++ [⟨t.op, res, w'.transactions.length⟩] else w.notified m
  mem : w'.mem = if res = espOk then
    t.callback (env.bus (w.transactions.length + n - 1)).data w.mem else w.mem
  last : res = espOk → t.size ≠ 0 →
    0 < n ∧ (env.bus (w.transactions.length + n - 1)).err = espOk
  bitI2cOperCplt : w'.bitI2cOperCplt = true

/-- The attempt that is reported. -/
theorem tagServed_last {res : EspErr} {i2cBuf : Nat → UInt8} (task : I2cTask)
    (hbuf : t.size ≠ 0 → ∀ mem,
      t.callback i2cBuf mem = t.callback (env.bus w.transactions.length).data mem)
    (hres : t.size ≠ 0 → res = (env.bus w.transactions.length).err) :
    TagServed env ticket t w t.count res
      { notificationCallback env res ticket t.request t.op
          { w with
            i2cBuf
            transactions := w.transactions ++ List.replicate t.count (t.transaction w.mem) } with
        bitI2cOperCplt := true
        task } := by
  constructor
  · rfl
  · rfl
  · -- the memory: the callback sees what the last transaction read
    show (notificationCallback env res ticket t.request t.op _).mem = _
    rw [t.mem_notificationCallback]
    by_cases hzero : t.size = 0
    · simp only [t.callback_of_size_eq_zero hzero]
    · simp only [hbuf hzero, TagRequest.count, if_neg hzero, Nat.add_sub_cancel]
  · intro hok hsize
    simp only [TagRequest.count, if_neg hsize, Nat.add_sub_cancel]
    exact ⟨Nat.one_pos, (hres hsize).symm.trans hok⟩
  · rfl

/-- A failed attempt in front. -/
theorem TagServed.cons {n : Nat} {res : EspErr} {i2cBuf : Nat → UInt8} {task : I2cTask}
    {w' : I2cWorld} (h : TagServed env ticket t
      { w with i2cBuf, task, transactions := w.transactions ++ [t.transaction w.mem] } n res w') :
    TagServed env ticket t w (n + 1) res w' := by
  -- one attempt in front of the others: the last one is where it was
  have hindex : (w.transactions ++ [t.transaction w.mem]).length + n - 1 =
      w.transactions.length + (n + 1) - 1 := by
    rw [List.length_append, List.length_singleton]
    omega
  constructor
  · rw [h.transactions, List.append_assoc, List.singleton_append, List.replicate_succ]
  · exact h.notified
  · rw [h.mem, hindex]
  · intro hok hsize
    obtain ⟨-, hlast⟩ := h.last hok hsize
    rw [hindex] at hlast
    exact ⟨Nat.succ_pos n, hlast⟩
  · exact h.bitI2cOperCplt

/-- A request with a valid operation, of which `failCount` attempts have failed. -/
theorem served_loop (env : I2cEnv) (ticket : Nat) (t : TagRequest) {w : I2cWorld}
    {failCount : Nat} {result : EspErr} (hqueue : w.i2cQueue = []) (hvalid : t.op.Valid)
    (htask : w.task = .loop ticket t.request [t.op] failCount result)
    (hcount : failCount ≤ maxRetry) (hresult : t.size = 0 → result = espOk) :
    ∃ n res, TagServed env ticket t w n res (settle env w) ∧
      (res ≠ espOk → ∀ i, failCount + i ≤ maxRetry →
        (env.bus (w.transactions.length + i)).err ≠ espOk) := by
  have hrunning : w.running = true := running_of_task (by rw [htask]; exact I2cTask.noConfusion)
  have hstep : i2cTaskStep env w =
      i2cTaskLoop env ticket t.request t.op [] failCount result w := by
    unfold i2cTaskStep
    rw [htask]
  rw [← settle_step env hrunning, hstep]
  obtain ⟨i2cBuf, hbuf, hattempt⟩ := t.i2cAttempt_eq env result w
  obtain ⟨hinvalid, -⟩ | ⟨-, res, w₁, hres, hcases⟩ :=
    i2cTaskLoop_cases env ticket t.request t.op [] failCount result w
  · exact absurd hvalid hinvalid
  rw [hattempt] at hres
  obtain ⟨hval, rfl⟩ := Prod.mk.inj hres
  have herr : t.size ≠ 0 → res = (env.bus w.transactions.length).err := by
    intro hsize
    rw [← hval, if_neg hsize]
  have hsize : res ≠ espOk → t.size ≠ 0 := by
    intro hfail hzero
    rw [if_pos hzero, hresult hzero] at hval
    exact hfail hval.symm
  obtain ⟨hok, heq⟩ | ⟨hfail, hretry, heq⟩ | ⟨hfail, hlast, heq⟩ := hcases <;> rw [heq]
  · -- done
    rw [settle_done env (by exact hqueue) (by rfl)]
    subst hok
    exact ⟨_, espOk, tagServed_last .receive hbuf herr, fun h => absurd rfl h⟩
  · -- once more
    have hone : List.replicate t.count (t.transaction w.mem) = [t.transaction w.mem] := by
      rw [TagRequest.count, if_neg (hsize hfail)]
      rfl
    obtain ⟨n, res', hserved, hfails⟩ := served_loop env ticket t
      (w := { w with
        i2cBuf
        transactions := w.transactions ++ List.replicate t.count (t.transaction w.mem)
        task := .loop ticket t.request [t.op] (failCount + 1) res })
      hqueue hvalid rfl hretry fun hzero => absurd hzero (hsize hfail)
    refine ⟨n + 1, res', ?_, ?_⟩
    · apply TagServed.cons
      rw [← hone]
      exact hserved
    · intro hfail' i hi
      cases i with
      | zero => exact herr (hsize hfail) ▸ hfail
      | succ i =>
        have hrest := hfails hfail' i (by omega)
        rw [hone, List.length_append, List.length_singleton] at hrest
        rwa [Nat.add_assoc, Nat.add_comm 1 i] at hrest
  · -- given up
    rw [settle_testQueue env (by exact hqueue) (by rfl)]
    refine ⟨_, res, tagServed_last .receive hbuf herr, ?_⟩
    intro _ i hi
    obtain rfl : i = 0 := by omega
    exact herr (hsize hfail) ▸ hfail
termination_by maxRetry - failCount

/-- A request that is served by itself is reported once, and given up only after as many failures
    as attempts. -/
theorem tagServed_serveAlone (env : I2cEnv) (t : TagRequest) (hrest : w.AtRest)
    (hnum : w.Numbered) : ∃ n res, TagServed env w.sent t w n res (serveAlone env w t.request) ∧
      (res ≠ espOk → t.op.Valid → ∀ i ≤ maxRetry,
        (env.bus (w.transactions.length + i)).err ≠ espOk) := by
  have hsent : (i2cSendAsync t.request w).2 =
      { w with i2cQueue := [(w.sent, t.request)], sent := w.sent + 1 } := by
    rw [i2cSendAsync_of_rest hrest t.ops_ne_nil, sentTo, hnum.notified_eq]
  -- the worker takes the request
  have htake : i2cTaskStep env { w with i2cQueue := [(w.sent, t.request)], sent := w.sent + 1 } =
      { w with
        i2cQueue := []
        sent := w.sent + 1
        task := .loop w.sent t.request [t.op] 0 espOk } := by
    simp only [i2cTaskStep, hrest.1, t.request_ops]
  have hserve : serveAlone env w t.request = settle env
      { w with
        i2cQueue := []
        sent := w.sent + 1
        task := .loop w.sent t.request [t.op] 0 espOk } := by
    unfold serveAlone
    rw [hsent, ← htake, settle_step]
    · rfl
    · rw [running_eq_true_iff]
      exact fun h => List.cons_ne_nil _ _ h.2
  rw [hserve]
  by_cases hvalid : t.op.Valid
  · -- and tries its operation
    obtain ⟨n, res, hserved, hfails⟩ := served_loop env w.sent t
      (w := { w with
        i2cQueue := []
        sent := w.sent + 1
        task := .loop w.sent t.request [t.op] 0 espOk })
      rfl hvalid rfl (Nat.zero_le _) fun _ => rfl
    refine ⟨n, res, ⟨hserved.1, hserved.2, hserved.3, hserved.4, hserved.5⟩, ?_⟩
    intro hfail _ i hi
    exact hfails hfail i (by rwa [Nat.zero_add])
  · -- a read that is too long
    refine ⟨0, espErrInvalidArg, ?_, fun _ h => absurd h hvalid⟩
    rw [← settle_step env (running_of_task I2cTask.noConfusion)]
    simp only [i2cTaskStep, i2cTaskLoop, if_pos hvalid]
    rw [settle_done env (by rfl) (by rfl)]
    constructor
    · exact (List.append_nil _).symm
    · rfl
    · exact t.mem_notificationCallback env espErrInvalidArg w.sent _
    · exact fun h => absurd h (by decide)
    · rfl

/-! ## What a request does -/

/-- The memory, and the devices. -/
def I2cWorld.view (landed : Nat → Bool) (devs : Devices) (w : I2cWorld) : Mem × Devices :=
  (w.mem, devicesAfter landed devs w.transactions)

/-- The transaction of a request does to the devices what the request says. -/
theorem perform_transaction (t : TagRequest) (mem : Mem) (devs : Devices) :
    devs.perform (t.transaction mem) = (t.perform (mem, devs)).2 := by
  cases t <;> rfl

/-- A request on no byte changes nothing. -/
theorem perform_of_size_eq_zero (h : t.size = 0) (s : Mem × Devices) : t.perform s = s := by
  cases t with
  | write port st25Address regAddr data size =>
    obtain rfl : size = 0 := h
    have hsame : s.2.store port st25Address regAddr [] = s.2 := by
      funext p d
      unfold Devices.store
      split
      · rfl
      · rfl
    exact congrArg (s.1, ·) hsame
  | read port st25Address address data size =>
    obtain rfl : size = 0 := h
    exact congrArg (·, s.2) (Mem.store_nil s.1 data)

variable {landed : Nat → Bool} {devs : Devices} {n : Nat} {res : EspErr} {w' : I2cWorld}

/-- The last transaction reads what stands on the device. -/
theorem TagServed.callback_eq (h : TagServed env ticket t w n espOk w') (hsize : t.size ≠ 0)
    (hhonest : Honest env landed devs w'.transactions) :
    t.callback (env.bus (w.transactions.length + n - 1)).data w.mem =
      (t.perform (w.view landed devs)).1 := by
  cases t with
  | write => rfl
  | read port st25Address address data size =>
    obtain ⟨hpos, hlast⟩ := h.last rfl hsize
    obtain ⟨k, rfl⟩ : ∃ k, n = k + 1 := ⟨n - 1, by omega⟩
    have hlog : w'.transactions = w.transactions ++
        List.replicate k (.read port st25Address address true false size) ++
          [.read port st25Address address true false size] := by
      rw [h.transactions, List.replicate_succ', ← List.append_assoc]
      rfl
    have hlength : (w.transactions ++ List.replicate k
        (I2cTransaction.read port st25Address address true false size)).length =
          w.transactions.length + (k + 1) - 1 := by
      rw [List.length_append, List.length_replicate]
      omega
    -- the last attempt is answered, so it read what the tag holds
    have hread := hhonest.reads _ port st25Address address size
      (by rw [hlog, ← hlength]; exact List.getElem?_concat_length) hlast
    rw [hlog, ← hlength, List.take_left] at hread
    -- the attempts in front only read
    have hdevs : devicesAfter landed devs (w.transactions ++ List.replicate k
        (.read port st25Address address true false size)) =
          devicesAfter landed devs w.transactions := by
      obtain ⟨hsame | hsame, -⟩ := devicesAfter_replicate landed devs w.transactions
        (.read port st25Address address true false size) k
      · exact hsame
      · exact hsame
    rw [hdevs] at hread
    simp only [TagRequest.callback, TagRequest.perform, I2cWorld.view, St25dv.st25dvRead,
      ← hlength]
    congr 1
    apply List.map_congr_left
    intro i hi
    exact hread i (List.mem_range.mp hi)

/-- What is reported with `ESP_OK` is performed; what is given up changes no memory. -/
theorem TagServed.view_eq (h : TagServed env ticket t w n res w')
    (hhonest : Honest env landed devs w'.transactions) :
    (res = espOk → w'.view landed devs = t.perform (w.view landed devs)) ∧
    (res ≠ espOk → w'.mem = w.mem ∧
      ((w'.view landed devs).2 = (w.view landed devs).2 ∨
        (w'.view landed devs).2 = (t.perform (w.view landed devs)).2)) := by
  obtain ⟨hmaybe, hdone⟩ := devicesAfter_replicate landed devs w.transactions
    (t.transaction w.mem) n
  rw [← h.transactions, perform_transaction] at hmaybe hdone
  constructor
  · intro hok
    subst hok
    have hmem := h.mem
    rw [if_pos rfl] at hmem
    by_cases hsize : t.size = 0
    · -- no byte: nothing is put on the bus
      rw [t.callback_of_size_eq_zero hsize] at hmem
      have hsame : devicesAfter landed devs w'.transactions =
          devicesAfter landed devs w.transactions := by
        rw [perform_of_size_eq_zero hsize, or_self] at hmaybe
        exact hmaybe
      rw [perform_of_size_eq_zero hsize, I2cWorld.view, hmem, hsame]
      rfl
    · -- the last attempt was answered
      obtain ⟨hpos, hlast⟩ := h.last rfl hsize
      rw [h.callback_eq hsize hhonest] at hmem
      exact Prod.ext hmem (hdone hpos (hhonest.lands _ hlast))
  · -- it was given up: whether an attempt landed is not known
    intro hfail
    have hmem := h.mem
    rw [if_neg hfail] at hmem
    exact ⟨hmem, hmaybe⟩

/-! ## Requests one after the other -/

/-- What the work on a request leaves alone: the reports on others, and the devices with 16-bit
    registers if its device has none. -/
structure Worked (ticket : Nat) (req : I2cRequest) (w w' : I2cWorld) : Prop where
  notified : ∀ m ≠ ticket, w'.notified m = w.notified m
  transactions : ∃ log, w'.transactions = w.transactions ++ log ∧
    (req.regAddr16b = false → ∀ t ∈ log, ∀ devs : Devices, devs.perform t = devs)

/-- A request with addresses of one byte is on none of the modelled devices. -/
theorem perform_of_mem_attempt {req : I2cRequest} (h : req.regAddr16b = false) (op : I2cOp)
    (data : List UInt8) : ∀ t ∈ op.attempt req data, ∀ devs : Devices, devs.perform t = devs := by
  intro t ht devs
  unfold I2cOp.attempt at ht
  rw [h] at ht
  obtain ht | ht := List.mem_append.mp ht
  · split at ht
    · rw [List.mem_singleton.mp ht]
      rfl
    · exact absurd ht List.not_mem_nil
  · split at ht
    · rw [List.mem_singleton.mp ht]
      rfl
    · exact absurd ht List.not_mem_nil

/-- A turn of the loop is work on the request. -/
theorem Worked.turn {w₀ : I2cWorld} {req : I2cRequest} (h : Worked ticket req w₀ w) (op : I2cOp)
    (ops : List I2cOp) (failCount : Nat) (result : EspErr) :
    Worked ticket req w₀ (i2cTaskLoop env ticket req op ops failCount result w) := by
  obtain ⟨hnotified, log, hlog, hforeign⟩ := h
  obtain ⟨-, heq⟩ | ⟨-, res, w₁, hattempt, hcases⟩ :=
    i2cTaskLoop_cases env ticket req op ops failCount result w
  · rw [heq]
    exact ⟨fun m hm => (if_neg hm).trans (hnotified m hm), log, hlog, hforeign⟩
  · -- what the attempt puts on the bus comes behind the rest
    obtain ⟨i2cBuf, data, hattempt'⟩ := I2c.i2cAttempt_eq env req op result w
    obtain ⟨-, rfl⟩ := Prod.mk.inj (hattempt'.symm.trans hattempt)
    have hmore : w.transactions ++ op.attempt req data =
        w₀.transactions ++ (log ++ op.attempt req data) := by
      rw [hlog, List.append_assoc]
    have hforeign' : req.regAddr16b = false →
        ∀ t ∈ log ++ op.attempt req data, ∀ devs : Devices, devs.perform t = devs := by
      intro h16 t ht
      obtain ht | ht := List.mem_append.mp ht
      · exact hforeign h16 t ht
      · exact perform_of_mem_attempt h16 op data t ht
    obtain ⟨_, heq⟩ | ⟨_, _, heq⟩ | ⟨_, _, heq⟩ := hcases <;> rw [heq]
    · exact ⟨fun m hm => (if_neg hm).trans (hnotified m hm), _, hmore, hforeign'⟩
    · exact ⟨hnotified, _, hmore, hforeign'⟩
    · exact ⟨fun m hm => (if_neg hm).trans (hnotified m hm), _, hmore, hforeign'⟩

/-- A request that is served alone is worked on and nothing else. -/
theorem worked_serveAlone (env : I2cEnv) {req : I2cRequest} (hops : req.ops ≠ [])
    (hrest : w.AtRest) (hnum : w.Numbered) : Worked w.sent req w (serveAlone env w req) := by
  unfold serveAlone
  rw [i2cSendAsync_of_rest hrest hops, sentTo, hnum.notified_eq]
  have honly : OnlyRequest w.sent req { w with
      i2cQueue := [(w.sent, req)]
      sent := w.sent + 1 } := .queued hrest.1 rfl
  -- it is the only request there is
  apply honly.invariant
  · intro w₁ w₂ hmem hlog hnotified h
    exact ⟨fun m hm => hnotified ▸ h.notified m hm, hlog ▸ h.transactions⟩
  · exact fun w₁ op ops failCount result _ h => h.turn op ops failCount result
  · exact ⟨fun m _ => rfl, [], (List.append_nil _).symm, fun _ t ht => absurd ht List.not_mem_nil⟩

/-- Transactions that do nothing to the devices. -/
theorem devicesFrom_of_perform {log : List I2cTransaction}
    (h : ∀ t ∈ log, ∀ devs : Devices, devs.perform t = devs) (landed : Nat → Bool) (n : Nat)
    (devs : Devices) : devicesFrom landed n log devs = devs := by
  induction log generalizing n devs with
  | nil => rfl
  | cons t log ih =>
    obtain ⟨ht, hlog⟩ := List.forall_mem_cons.mp h
    rw [devicesFrom, ht, ite_self]
    exact ih hlog (n + 1) devs

/-- A request was reported with `ESP_OK`. -/
def I2cWorld.Succeeded (w : I2cWorld) (ticket : Nat) : Prop :=
  ∃ r ∈ w.notified ticket, r.res = espOk

/-- The requests are served in their order: each request for the tag as a whole, if it is `ok`. Of
    one that is given up, the tag may have heard. -/
inductive Serves (ok : Nat → Prop) :
    Mem × Devices → List (Nat × I2cRequest) → Mem × Devices → Prop where
  | done {s : Mem × Devices} : Serves ok s [] s
  | performed {n : Nat} {t : TagRequest} {jobs : List (Nat × I2cRequest)} {s s' : Mem × Devices}
      (h : ok n) (rest : Serves ok (t.perform s) jobs s') :
      Serves ok s ((n, t.request) :: jobs) s'
  | givenUp {n : Nat} {t : TagRequest} {jobs : List (Nat × I2cRequest)} {s s' : Mem × Devices}
      {devs : Devices} (h : ¬ ok n) (hdevs : devs = s.2 ∨ devs = (t.perform s).2)
      (rest : Serves ok (s.1, devs) jobs s') : Serves ok s ((n, t.request) :: jobs) s'
  /-- A request for a device with 8-bit registers. -/
  | foreign {n : Nat} {req : I2cRequest} {jobs : List (Nat × I2cRequest)} {s s' : Mem × Devices}
      (mem : Mem) (h : req.regAddr16b = false) (rest : Serves ok (mem, s.2) jobs s') :
      Serves ok s ((n, req) :: jobs) s'

/-- What the requests behind leave alone. -/
theorem frame_foldl_serveAlone (env : I2cEnv) {reqs : List I2cRequest}
    (hops : ∀ req ∈ reqs, req.ops ≠ []) (hrest : w.AtRest) (hnum : w.Numbered) :
    (∀ m < w.sent, (reqs.foldl (serveAlone env) w).notified m = w.notified m) ∧
      w.transactions <+: (reqs.foldl (serveAlone env) w).transactions := by
  induction reqs generalizing w with
  | nil => exact ⟨fun m _ => rfl, List.prefix_rfl⟩
  | cons req reqs ih =>
    obtain ⟨hop, hops⟩ := List.forall_mem_cons.mp hops
    obtain ⟨hrest', hnum', hsent, -⟩ := serveAlone_spec env hop hnum hrest
    obtain ⟨hnotified, log, hlog, -⟩ := worked_serveAlone env hop hrest hnum
    obtain ⟨hframe, hprefix⟩ := ih hops hrest' hnum'
    constructor
    · -- a ticket of before is below the ticket of every request here
      intro m hm
      rw [List.foldl_cons, hframe m (by omega)]
      exact hnotified m (Nat.ne_of_lt hm)
    · rw [hlog] at hprefix
      exact (List.prefix_append ..).trans hprefix

/-- Requests that are served one by one are each performed or given up, in this order. -/
theorem serves_foldl_serveAlone {reqs : List I2cRequest} (hops : ∀ req ∈ reqs, req.ops ≠ [])
    (hreqs : ∀ req ∈ reqs, req.regAddr16b = true → ∃ t : TagRequest, req = t.request)
    (hrest : w.AtRest) (hnum : w.Numbered)
    (hhonest : Honest env landed devs (reqs.foldl (serveAlone env) w).transactions) :
    Serves (reqs.foldl (serveAlone env) w).Succeeded (w.view landed devs) (numbered w.sent reqs)
      ((reqs.foldl (serveAlone env) w).view landed devs) := by
  induction reqs generalizing w with
  | nil => exact .done
  | cons req reqs ih =>
    obtain ⟨hop, hops⟩ := List.forall_mem_cons.mp hops
    obtain ⟨hreq, hreqs⟩ := List.forall_mem_cons.mp hreqs
    obtain ⟨hrest', hnum', hsent, -⟩ := serveAlone_spec env hop hnum hrest
    obtain ⟨hframe, hprefix⟩ := frame_foldl_serveAlone env hops hrest' hnum'
    have hserves := ih hops hreqs hrest' hnum' hhonest
    rw [hsent] at hserves
    rw [List.foldl_cons] at hhonest ⊢
    cases h16 : req.regAddr16b with
    | false =>
      obtain ⟨-, log, hlog, hforeign⟩ := worked_serveAlone env hop hrest hnum
      apply Serves.foreign (serveAlone env w req).mem h16
      have hdevs : ((serveAlone env w req).view landed devs).2 = (w.view landed devs).2 := by
        show devicesAfter landed devs (serveAlone env w req).transactions = _
        rw [hlog, devicesAfter_append, devicesFrom_of_perform (hforeign h16)]
        rfl
      rw [← hdevs]
      exact hserves
    | true =>
      obtain ⟨t, rfl⟩ := hreq h16
      obtain ⟨n, res, hserved, -⟩ := tagServed_serveAlone env t hrest hnum
      obtain ⟨hdone, hfail⟩ := hserved.view_eq (hhonest.of_prefix hprefix)
      -- nothing else is reported on this request
      have hreport : (reqs.foldl (serveAlone env) (serveAlone env w t.request)).Succeeded w.sent ↔
          res = espOk := by
        unfold I2cWorld.Succeeded
        rw [hframe w.sent (by omega), hserved.notified]
        simp [hnum.unsent w.sent (Nat.le_refl _)]
      by_cases hok : res = espOk
      · apply Serves.performed (hreport.mpr hok)
        rw [← hdone hok]
        exact hserves
      · obtain ⟨hmem, hdevs⟩ := hfail hok
        apply Serves.givenUp (mt hreport.mp hok) hdevs
        rw [show (w.view landed devs).1 = (serveAlone env w t.request).mem from hmem.symm]
        exact hserves

/-- However the tasks interleave, and whatever the bus loses: of the requests that the queue takes,
    those for the tag are served as a whole, in their order and undisturbed by those for devices
    with 8-bit registers. A request reported with `ESP_OK` is performed; one that is not changes
    no memory. -/
theorem tag_serves (env : I2cEnv) (landed : Nat → Bool) (devs : Devices) (mem : Mem)
    (as : List I2cAction)
    (hreqs : ∀ req ∈ (I2cSystem.boot mem).accepted env as, req.regAddr16b = true →
      ∃ t : TagRequest, req = t.request)
    (hhonest : Honest env landed devs (settle env (worldAfter env mem as)).transactions) :
    Serves (settle env (worldAfter env mem as)).Succeeded (mem, devs)
      (numbered 0 ((I2cSystem.boot mem).accepted env as))
      ((settle env (worldAfter env mem as)).view landed devs) := by
  have hsame : SameWork (settle env (worldAfter env mem as))
    (oneByOne env mem ((I2cSystem.boot mem).accepted env as)) := sameWork_settled env mem as
  -- the reports are those of the serial service
  have hsucceeded : (settle env (worldAfter env mem as)).Succeeded =
      (oneByOne env mem ((I2cSystem.boot mem).accepted env as)).Succeeded := by
    funext n
    unfold I2cWorld.Succeeded
    rw [hsame.notified]
  rw [hsame.transactions] at hhonest
  rw [hsucceeded, I2cWorld.view, hsame.mem, hsame.transactions]
  exact serves_foldl_serveAlone ops_of_mem_accepted hreqs ⟨rfl, rfl⟩ (numbered_boot mem) hhonest

/-- A bus that loses the answer to the first transaction. -/
def deafOnce : I2cEnv :=
  ⟨fun n => ⟨if n = 0 then espFail else espOk, fun _ => 0x2A⟩, fun _ _ _ _ _ mem => mem⟩

/-- A task stores the byte at 64 in the tag, another one loads it to 80. -/
def storeAndLoad : List I2cAction :=
  [.clear 0 (TagRequest.write 0 st25dvUserAddress 0x10 64 1).request, .enqueue 0,
    .async 1 (TagRequest.read 0 st25dvUserAddress 0x10 80 1).request, .task, .task]

/-- The bus that misses one write tells no lie about it. -/
theorem honest_deafOnce (log : List I2cTransaction)
    (hlog : log = [.write 0 st25dvUserAddress 0x10 true [0x2A],
      .write 0 st25dvUserAddress 0x10 true [0x2A],
      .read 0 st25dvUserAddress 0x10 true false 1]) :
    Honest deafOnce (fun _ => true) (fun _ _ _ => 0) log := by
  subst hlog
  refine ⟨fun n _ => rfl, fun n port deviceAddr regAddr size hn _ i hi => ?_⟩
  match n with
  | 0 => cases hn
  | 1 => cases hn
  | 2 =>
    cases hn
    obtain rfl : i = 0 := by omega
    decide
  | n + 3 => cases hn

/-- The answer to the store is lost, and it is tried again. -/
theorem tag_serves_deafOnce :
    let mem : Mem := fun a => if a = 64 then 0x2A else 0
    let devs : Devices := fun _ _ _ => 0
    let w := settle deafOnce (worldAfter deafOnce mem storeAndLoad)
    Serves w.Succeeded (mem, devs)
      (numbered 0 [(TagRequest.write 0 st25dvUserAddress 0x10 64 1).request,
        (TagRequest.read 0 st25dvUserAddress 0x10 80 1).request]) (w.view (fun _ => true) devs) ∧
    w.transactions.length = 3 ∧ w.mem 80 = 0x2A := by
  intro mem devs w
  have haccepted : (I2cSystem.boot mem).accepted deafOnce storeAndLoad =
      [(TagRequest.write 0 st25dvUserAddress 0x10 64 1).request,
        (TagRequest.read 0 st25dvUserAddress 0x10 80 1).request] := by decide
  refine ⟨?_, by decide +kernel, by decide +kernel⟩
  rw [← haccepted]
  apply tag_serves
  · rw [haccepted]
    intro req hreq _
    obtain rfl | hreq := List.mem_cons.mp hreq
    · exact ⟨_, rfl⟩
    · exact ⟨_, List.mem_singleton.mp hreq⟩
  · exact honest_deafOnce _ (by decide +kernel)

end EspTesting.I2c
