import EspTesting.Spec.I2cTask

/-!
# Completion of the operations of a request

`i2c_task` works on the operations of a request with one loop that goes on, tries again, skips
and gives up. `Completes` says what this comes to: an operation with an invalid argument is
reported and skipped, a valid one is attempted until an attempt has the result `ESP_OK`, at
most `MAX_RETRY + 1` times, and one whose attempts all fail ends the request.

## Key results

- `attempts_i2cTask`: the attempts at one operation
- `completes_i2cTask`: the task completes every request it takes
- `calls_iterate`: the memory is what the callbacks of the reports make of it
-/

namespace EspTesting.I2c

variable {env : I2cEnv} {bus : Nat → BusAnswer} {w w' w'' : I2cWorld} {ticket : Nat}
  {req : I2cRequest} {op : I2cOp} {ops : List I2cOp} {failCount t : Nat} {result : EspErr}

/-! ## Attempts -/

/-- The result of an attempt at the operation that starts with the `t`-th transaction: what
    the last transaction returns. -/
def attemptResult (bus : Nat → BusAnswer) (op : I2cOp) (t : Nat) : EspErr :=
  if op.transactionCount = 0 then espOk else (bus (t + op.transactionCount - 1)).err

/-- Attempts put equally many transactions on the bus. -/
theorem length_flatMap_attempt (req : I2cRequest) (op : I2cOp) (datas : List (List UInt8)) :
    (datas.flatMap (op.attempt req)).length = datas.length * op.transactionCount := by
  induction datas with
  | nil => simp
  | cons data datas ih =>
    rw [List.flatMap_cons, List.length_append, length_attempt, ih, List.length_cons,
      Nat.add_one_mul, Nat.add_comm]

/-- An attempt makes its transactions, with the result they have. -/
theorem i2cAttempt_eq_attemptResult (env : I2cEnv) (req : I2cRequest) (w : I2cWorld)
    (hresult : op.transactionCount = 0 → result = espOk) :
    ∃ i2cBuf data, i2cAttempt env req op result w =
      (attemptResult env.bus op w.transactions.length,
        { w with i2cBuf, transactions := w.transactions ++ op.attempt req data }) := by
  obtain ⟨i2cBuf, data, heq⟩ := i2cAttempt_eq env req op result w
  refine ⟨i2cBuf, data, heq.trans ?_⟩
  unfold attemptResult
  by_cases hzero : op.transactionCount = 0
  · rw [if_pos hzero, if_pos hzero, hresult hzero]
  · rw [if_neg hzero, if_neg hzero]

/-- The first `n` attempts at the operation, starting with the `t`-th transaction, fail. -/
def FailsFor (bus : Nat → BusAnswer) (op : I2cOp) (t n : Nat) : Prop :=
  ∀ i < n, attemptResult bus op (t + i * op.transactionCount) ≠ espOk

/-- No attempt fails before the first one. -/
theorem failsFor_zero : FailsFor bus op t 0 := fun i hi => absurd hi (Nat.not_lt_zero i)

/-- A failed attempt in front of others. -/
theorem FailsFor.cons {n : Nat} (hfirst : attemptResult bus op t ≠ espOk)
    (h : FailsFor bus op (t + op.transactionCount) n) : FailsFor bus op t (n + 1) := by
  intro i hi
  cases i with
  | zero => rwa [Nat.zero_mul, Nat.add_zero]
  | succ i =>
    have hrest := h i (by omega)
    rwa [show t + (i + 1) * op.transactionCount =
      t + op.transactionCount + i * op.transactionCount by rw [Nat.add_one_mul]; omega]

/-- A failed attempt behind others. -/
theorem FailsFor.succ {n : Nat} (h : FailsFor bus op t n)
    (hlast : attemptResult bus op (t + n * op.transactionCount) ≠ espOk) :
    FailsFor bus op t (n + 1) := by
  intro i hi
  obtain hi | rfl := Nat.lt_succ_iff_lt_or_eq.mp hi
  · exact h i hi
  · exact hlast

/-! ## Completion -/

/-- The request for the operations `ops` is completed with the transactions `log` and the
    notifications `reports`, if `t` transactions were made before. -/
inductive Completes (bus : Nat → BusAnswer) (req : I2cRequest) :
    List I2cOp → Nat → List I2cTransaction → List I2cReport → Prop where
  | nil {t : Nat} : Completes bus req [] t [] []
  /-- An operation with an invalid argument is reported and skipped. -/
  | invalid {op : I2cOp} {ops : List I2cOp} {t : Nat} {log : List I2cTransaction}
      {reports : List I2cReport} (hinvalid : ¬ op.Valid)
      (rest : Completes bus req ops t log reports) :
      Completes bus req (op :: ops) t log (⟨op, espErrInvalidArg, t⟩ :: reports)
  /-- After `n` attempts that fail, one has the result `ESP_OK`. -/
  | ok {op : I2cOp} {ops : List I2cOp} {t n : Nat} {datas : List (List UInt8)}
      {log : List I2cTransaction} {reports : List I2cReport} (hvalid : op.Valid)
      (hcount : n ≤ maxRetry) (hfails : FailsFor bus op t n)
      (hok : attemptResult bus op (t + n * op.transactionCount) = espOk)
      (hdatas : datas.length = n + 1)
      (rest : Completes bus req ops (t + (n + 1) * op.transactionCount) log reports) :
      Completes bus req (op :: ops) t (datas.flatMap (op.attempt req) ++ log)
        (⟨op, espOk, t + (n + 1) * op.transactionCount⟩ :: reports)
  /-- All attempts fail; the last result is reported, and the request ends. -/
  | failed {op : I2cOp} {ops : List I2cOp} {t : Nat} {datas : List (List UInt8)}
      (hvalid : op.Valid) (hfails : FailsFor bus op t (maxRetry + 1))
      (hdatas : datas.length = maxRetry + 1) :
      Completes bus req (op :: ops) t (datas.flatMap (op.attempt req))
        [⟨op, attemptResult bus op (t + maxRetry * op.transactionCount),
          t + (maxRetry + 1) * op.transactionCount⟩]

/-! ## The work of the task -/

/-- The task is inside the loop over the operations of a request. -/
def I2cWorld.serving (w : I2cWorld) : Bool :=
  match w.task with
  | .loop .. => true
  | _ => false

/-- In the loop the worker is in a request. -/
theorem serving_of_task {rest : List I2cOp}
    (h : w.task = .loop ticket req rest failCount result) : w.serving = true := by
  unfold I2cWorld.serving
  rw [h]

/-- From `w` to `w'` the task has made the transactions `log` and, on the request `ticket` and
    no other, the notifications `reports`. -/
structure Work (ticket : Nat) (w w' : I2cWorld) (log : List I2cTransaction)
    (reports : List I2cReport) : Prop where
  i2cQueue : w'.i2cQueue = w.i2cQueue
  transactions : w'.transactions = w.transactions ++ log
  notified : ∀ n, w'.notified n = if n = ticket then w.notified n ++ reports else w.notified n

/-- Work one after the other. -/
theorem Work.trans {log log' : List I2cTransaction} {reports reports' : List I2cReport}
    (h : Work ticket w w' log reports) (h' : Work ticket w' w'' log' reports') :
    Work ticket w w'' (log ++ log') (reports ++ reports') := by
  refine ⟨h'.i2cQueue.trans h.i2cQueue, ?_, fun n => ?_⟩
  · rw [h'.transactions, h.transactions, List.append_assoc]
  · rw [h'.notified n, h.notified n]
    by_cases hn : n = ticket
    · simp only [hn, if_true, List.append_assoc]
    · simp only [hn, if_false]

/-- A notification behind the transactions `log`, with no other effect on the records. -/
theorem work_notificationCallback (env : I2cEnv) (w : I2cWorld) (ticket : Nat)
    (req : I2cRequest) (op : I2cOp) (res : EspErr) (i2cBuf : Nat → UInt8)
    (log : List I2cTransaction) (task : I2cTask) :
    Work ticket w
      { notificationCallback env res ticket req op
          { w with i2cBuf, transactions := w.transactions ++ log } with task }
      log [⟨op, res, (w.transactions ++ log).length⟩] :=
  ⟨rfl, rfl, fun n => by simp only [notificationCallback]⟩

/-- Of the attempts at a valid operation, the first `failCount` made before `w`, `n` more fail,
    and then one has the result `ESP_OK` or is the last; the task stands in `w'` behind them. -/
structure Attempted (env : I2cEnv) (ticket : Nat) (req : I2cRequest) (op : I2cOp)
    (ops : List I2cOp) (failCount : Nat) (w : I2cWorld) (n : Nat) (datas : List (List UInt8))
    (res : EspErr) (w' : I2cWorld) : Prop where
  count : failCount + n ≤ maxRetry
  fails : FailsFor env.bus op w.transactions.length n
  result : attemptResult env.bus op (w.transactions.length + n * op.transactionCount) = res
  length : datas.length = n + 1
  leadsTo : Loop.LeadsTo I2cWorld.serving (i2cTaskStep env) w w'
  work : Work ticket w w' (datas.flatMap (op.attempt req))
    [⟨op, res, w.transactions.length + (n + 1) * op.transactionCount⟩]
  task : res = espOk ∧ w'.task = .loop ticket req ops 0 espOk ∨
    res ≠ espOk ∧ failCount + n = maxRetry ∧ w'.task = .testQueue

/-- One more attempt in front, which failed. -/
theorem Attempted.cons {n : Nat} {data : List UInt8} {datas : List (List UInt8)}
    {res : EspErr} (hserving : w.serving = true)
    (hfail : attemptResult env.bus op w.transactions.length ≠ espOk)
    (hwork : Work ticket w (i2cTaskStep env w) (op.attempt req data) [])
    (h : Attempted env ticket req op ops (failCount + 1) (i2cTaskStep env w) n datas res w') :
    Attempted env ticket req op ops failCount w (n + 1) (data :: datas) res w' := by
  have hbegin : (i2cTaskStep env w).transactions.length =
      w.transactions.length + op.transactionCount := by
    rw [hwork.transactions, List.length_append, length_attempt]
  -- the attempts behind the first one are numbered from it
  have hshift : ∀ i, (i2cTaskStep env w).transactions.length + i * op.transactionCount =
      w.transactions.length + (i + 1) * op.transactionCount := by
    intro i
    rw [hbegin, Nat.add_one_mul]
    omega
  obtain ⟨hcount, hfails, hresult, hlength, hleads, hrest, htask⟩ := h
  rw [hbegin] at hfails
  rw [hshift] at hresult hrest
  refine ⟨by omega, hfails.cons hfail, hresult, by rw [List.length_cons, hlength],
    .step hserving hleads, hwork.trans hrest, ?_⟩
  rwa [← Nat.add_right_comm] at htask

/-- A valid operation is attempted until an attempt has the result `ESP_OK`, or no attempt is
    left. -/
theorem attempts_i2cTask (env : I2cEnv) {w : I2cWorld} {failCount : Nat} {result : EspErr}
    (hvalid : op.Valid) (htask : w.task = .loop ticket req (op :: ops) failCount result)
    (hcount : failCount ≤ maxRetry) (hresult : op.transactionCount = 0 → result = espOk) :
    ∃ n datas res w', Attempted env ticket req op ops failCount w n datas res w' := by
  have hserving := serving_of_task htask
  have hstep : i2cTaskStep env w = i2cTaskLoop env ticket req op ops failCount result w := by
    unfold i2cTaskStep
    rw [htask]
  obtain ⟨i2cBuf, data, hattempt⟩ := i2cAttempt_eq_attemptResult env req w hresult
  have hlog : [data].flatMap (op.attempt req) = op.attempt req data := by simp
  have htime : (w.transactions ++ op.attempt req data).length =
      w.transactions.length + (0 + 1) * op.transactionCount := by simp
  obtain ⟨hinvalid, _⟩ | ⟨_, res, w₁, hres, hcases⟩ :=
    i2cTaskLoop_cases env ticket req op ops failCount result w
  · exact absurd hvalid hinvalid
  rw [hattempt] at hres
  cases hres
  obtain ⟨hok, heq⟩ | ⟨hfail, hretry, heq⟩ | ⟨hfail, hlast, heq⟩ := hcases
  · -- this attempt is the one with the result `ESP_OK`
    refine ⟨0, [data], espOk, _, hcount, failsFor_zero, by simpa using hok, rfl,
      .step hserving .refl, ?_, Or.inl ⟨rfl, ?_⟩⟩
    · rw [hstep, heq, hlog, ← htime]
      apply work_notificationCallback
    · rw [hstep, heq]
  · obtain ⟨n, datas, res, w', h⟩ := attempts_i2cTask env hvalid
      (show (i2cTaskStep env w).task = _ by rw [hstep, heq]) hretry
      fun hzero => absurd (if_pos hzero) hfail
    refine ⟨n + 1, data :: datas, res, w', .cons hserving hfail ?_ h⟩
    rw [hstep, heq]
    exact ⟨rfl, rfl, fun n => by simp⟩
  · -- no attempt is left
    refine ⟨0, [data], _, _, hcount, failsFor_zero, by rw [Nat.zero_mul, Nat.add_zero], rfl,
      .step hserving .refl, ?_, Or.inr ⟨hfail, Nat.le_antisymm hcount hlast, ?_⟩⟩
    · rw [hstep, heq, hlog, ← htime]
      apply work_notificationCallback
    · rw [hstep, heq]
termination_by maxRetry - failCount

/-- An operation with an invalid argument is reported once, and skipped. -/
theorem skips_i2cTask (env : I2cEnv) (hinvalid : ¬ op.Valid)
    (htask : w.task = .loop ticket req (op :: ops) failCount result) :
    (i2cTaskStep env w).task = .loop ticket req ops failCount result ∧
      Work ticket w (i2cTaskStep env w) []
        [⟨op, espErrInvalidArg, w.transactions.length⟩] := by
  have hskip : i2cTaskStep env w =
      { notificationCallback env espErrInvalidArg ticket req op w with
        bitI2cOperErr := true
        task := .loop ticket req ops failCount result } := by
    unfold i2cTaskStep i2cTaskLoop
    rw [htask]
    exact if_pos hinvalid
  rw [hskip]
  exact ⟨rfl, rfl, (List.append_nil _).symm, fun n => by simp only [notificationCallback]⟩

/-! ## Every request -/

/-- From the first operation on, the task completes the rest of a request. -/
theorem completes_loop (env : I2cEnv) (htask : w.task = .loop ticket req ops 0 espOk) :
    ∃ w' log reports, Loop.LeadsTo I2cWorld.serving (i2cTaskStep env) w w' ∧
      w'.task = .testQueue ∧ Work ticket w w' log reports ∧
      Completes env.bus req ops w.transactions.length log reports := by
  induction ops generalizing w with
  | nil =>
    have hstep : i2cTaskStep env w = { w with task := .testQueue } := by
      unfold i2cTaskStep
      rw [htask]
    refine ⟨_, [], [], .step (serving_of_task htask) .refl, ?_, ?_, .nil⟩
    · rw [hstep]
    · rw [hstep]
      exact ⟨rfl, (List.append_nil _).symm, fun n => by simp⟩
  | cons op ops ih =>
    by_cases hvalid : op.Valid
    · obtain ⟨n, datas, res, w₁, hattempted⟩ := attempts_i2cTask env hvalid htask
        (Nat.zero_le maxRetry) fun _ => rfl
      obtain ⟨hcount, hfails, hresult, hlength, hleads, hwork, htask₁⟩ := hattempted
      rw [Nat.zero_add] at hcount
      obtain ⟨rfl, htask₁⟩ | ⟨hfail, hlast, htask₁⟩ := htask₁
      · -- the operation is done, and the rest follows
        obtain ⟨w', log, reports, hrest, htask', hwork', hcompletes⟩ := ih htask₁
        have hbegin : w₁.transactions.length =
            w.transactions.length + (n + 1) * op.transactionCount := by
          rw [hwork.transactions, List.length_append, length_flatMap_attempt, hlength]
        rw [hbegin] at hcompletes
        exact ⟨w', _, _, hleads.trans hrest, htask', hwork.trans hwork',
          .ok hvalid hcount hfails hresult hlength hcompletes⟩
      · -- the last attempt has failed, which ends the request
        rw [Nat.zero_add] at hlast
        subst hlast
        have hend : Completes env.bus req (op :: ops) w.transactions.length _ _ :=
          .failed hvalid (hfails.succ (hresult ▸ hfail)) hlength
        rw [hresult] at hend
        exact ⟨w₁, _, _, hleads, htask₁, hwork, hend⟩
    · obtain ⟨hnext, hreport⟩ := skips_i2cTask env hvalid htask
      obtain ⟨w', log, reports, hrest, htask', hwork', hcompletes⟩ := ih hnext
      rw [hreport.transactions, List.append_nil] at hcompletes
      exact ⟨w', _, _, .step (serving_of_task htask) hrest, htask', hreport.trans hwork',
        .invalid hvalid hcompletes⟩

/-- The task, when it takes a request from the queue, works on it for finitely many steps and
    completes it. -/
theorem completes_i2cTask (env : I2cEnv) {queue : List (Nat × I2cRequest)}
    (htask : w.task = .receive) (hqueue : w.i2cQueue = (ticket, req) :: queue) :
    ∃ n w' log reports,
      Loop.Exits I2cWorld.serving (i2cTaskStep env) n (i2cTaskStep env w) w' ∧
      w'.task = .testQueue ∧ Work ticket { w with i2cQueue := queue } w' log reports ∧
      Completes env.bus req req.ops w.transactions.length log reports := by
  have htake : i2cTaskStep env w =
      { w with i2cQueue := queue, task := .loop ticket req req.ops 0 espOk } := by
    unfold i2cTaskStep
    simp only [htask, hqueue]
  obtain ⟨w', log, reports, hleads, hend, hwork, hcompletes⟩ :=
    completes_loop env (w := i2cTaskStep env w) (by rw [htake])
  have hdone : w'.serving = false := by
    unfold I2cWorld.serving
    rw [hend]
  obtain ⟨n, hexit⟩ := hleads.exits hdone
  rw [htake] at hwork hcompletes
  exact ⟨n, w', log, reports, hexit, hend, ⟨hwork.i2cQueue, hwork.transactions, hwork.notified⟩,
    hcompletes⟩

/-- A read that is too long is skipped, and a write not acknowledged at first is tried again. -/
theorem completes_i2cTask_retried :
    let env : I2cEnv :=
      ⟨fun n => ⟨if n = 0 then espFail else espOk, fun _ => 0⟩, fun _ _ _ _ _ mem => mem⟩
    let read : I2cOp := { regAddr := 0, readSize := 513 }
    let write : I2cOp := { regAddr := 1, writeSize := 2, writeData := some 64 }
    let req : I2cRequest := ⟨0, 0x44, false, none, [read, write]⟩
    let w : I2cWorld := { I2cWorld.boot (fun _ => 0) with i2cQueue := [(0, req)] }
    (∃ n w' log reports,
      Loop.Exits I2cWorld.serving (i2cTaskStep env) n (i2cTaskStep env w) w' ∧
      w'.task = .testQueue ∧ Work 0 { w with i2cQueue := [] } w' log reports ∧
      Completes env.bus req [read, write] 0 log reports) ∧
    (Loop.iterate I2cWorld.serving (i2cTaskStep env) 4 (i2cTaskStep env w)).notified 0 =
      [⟨read, espErrInvalidArg, 0⟩, ⟨write, espOk, 2⟩] := by
  intro env read write req w
  exact ⟨completes_i2cTask env rfl rfl, by decide +kernel⟩

/-! ## The callbacks -/

/-- The callbacks of the reports on a request, called one after the other, lead from one memory
    to another. With a result `ESP_OK` a callback gets the bytes of the transaction before. -/
inductive Calls (env : I2cEnv) (req : I2cRequest) : List I2cReport → Mem → Mem → Prop where
  | nil {mem : Mem} : Calls env req [] mem mem
  | cons {r : I2cReport} {reports : List I2cReport} {mem mem' : Mem} (i2cBuf : Nat → UInt8)
      (hdata : r.res = espOk →
        ∀ i < r.op.readSize, i2cBuf i = (env.bus (r.time - 1)).data i)
      (rest : Calls env req reports (r.callback env req i2cBuf mem) mem') :
      Calls env req (r :: reports) mem mem'

/-- The callbacks of two stretches of reports. -/
theorem Calls.append {reports reports' : List I2cReport} {mem mem' mem'' : Mem}
    (h : Calls env req reports mem mem') (h' : Calls env req reports' mem' mem'') :
    Calls env req (reports ++ reports') mem mem'' := by
  induction h with
  | nil => exact h'
  | cons i2cBuf hdata _ ih => exact .cons i2cBuf hdata (ih h')

/-- Every report between the two states is on the request, and the memory is what the callbacks
    of these reports make of it. -/
def Called (env : I2cEnv) (ticket : Nat) (req : I2cRequest) (w w' : I2cWorld) : Prop :=
  ∃ reports, Calls env req reports w.mem w'.mem ∧
    ∀ n, w'.notified n = if n = ticket then w.notified n ++ reports else w.notified n

/-- Nothing is reported. -/
theorem Called.of_eq (hmem : w'.mem = w.mem) (hnotified : w'.notified = w.notified) :
    Called env ticket req w w' :=
  ⟨[], hmem ▸ .nil, fun n => by rw [hnotified, List.append_nil, ite_self]⟩

/-- Two stretches one after the other. -/
theorem Called.trans (h : Called env ticket req w w') (h' : Called env ticket req w' w'') :
    Called env ticket req w w'' := by
  obtain ⟨reports, hcalls, hnotified⟩ := h
  obtain ⟨reports', hcalls', hnotified'⟩ := h'
  refine ⟨reports ++ reports', hcalls.append hcalls', fun n => ?_⟩
  rw [hnotified' n, hnotified n]
  by_cases hn : n = ticket
  · simp only [hn, if_true, List.append_assoc]
  · simp only [hn, if_false]

/-- `notification_callback` makes one report, and calls the callback once. -/
theorem called_notificationCallback {res : EspErr} (hdata : res = espOk →
      ∀ i < op.readSize, w.i2cBuf i = (env.bus (w.transactions.length - 1)).data i) :
    Called env ticket req w (notificationCallback env res ticket req op w) := by
  refine ⟨[⟨op, res, w.transactions.length⟩], .cons w.i2cBuf hdata ?_, fun n => ?_⟩
  · rw [notificationCallback_mem]
    exact .nil
  · simp only [notificationCallback]

/-- A step inside the loop calls the callback of what it reports, and no other. -/
theorem called_i2cTaskStep (env : I2cEnv) {rest : List I2cOp}
    (htask : w.task = .loop ticket req rest failCount result) :
    Called env ticket req w (i2cTaskStep env w) := by
  unfold i2cTaskStep
  rw [htask]
  cases rest with
  | nil => exact .of_eq rfl rfl
  | cons op ops =>
    obtain ⟨_, heq⟩ | ⟨_, res, w₁, hattempt, hcases⟩ :=
      i2cTaskLoop_cases env ticket req op ops failCount result w
    · -- the report of an invalid argument passes no data
      simp only [heq]
      exact called_notificationCallback (w := w) fun h => absurd h (by decide)
    · -- the attempt itself calls nothing
      have hfirst : Called env ticket req w w₁ := by
        obtain ⟨i2cBuf, log, _, hw₁⟩ := i2cAttempt_snd env req op result w
        rw [hattempt] at hw₁
        subst hw₁
        exact .of_eq rfl rfl
      have hreport : ∀ res, Called env ticket req w₁
          (notificationCallback env res ticket req op w₁) := fun _ =>
        called_notificationCallback fun _ _ hi => i2cBuf_i2cAttempt hattempt hi
      obtain ⟨_, heq⟩ | ⟨_, _, heq⟩ | ⟨_, _, heq⟩ := hcases <;> simp only [heq]
      · exact hfirst.trans (hreport espOk)
      · exact hfirst
      · exact hfirst.trans (hreport res)

/-- However far the task is with a request, the memory is what the callbacks of its reports on the
    request have made of it. -/
theorem calls_iterate (env : I2cEnv) (n : Nat) {rest : List I2cOp}
    (htask : w.task = .loop ticket req rest failCount result) :
    Called env ticket req w (Loop.iterate I2cWorld.serving (i2cTaskStep env) n w) := by
  induction n generalizing w rest failCount result with
  | zero => exact .of_eq rfl rfl
  | succ n ih =>
    have hstep := called_i2cTaskStep env htask
    unfold Loop.iterate
    rw [if_pos (serving_of_task htask)]
    -- the loop goes on with the same request, or is left
    by_cases hserving : (i2cTaskStep env w).serving = true
    · obtain ⟨rest', failCount', result', hnext⟩ : ∃ rest failCount result,
          (i2cTaskStep env w).task = .loop ticket req rest failCount result := by
        cases rest with
        | nil =>
          simp [i2cTaskStep, htask, I2cWorld.serving] at hserving
        | cons op ops =>
          have hturn := turnOf_i2cTaskLoop env ticket req op ops failCount result w
          have hsame : i2cTaskStep env w =
              i2cTaskLoop env ticket req op ops failCount result w := by
            unfold i2cTaskStep
            rw [htask]
          rw [← hsame] at hturn
          obtain hend | ⟨rest', failCount', result', _, hnext⟩ := hturn.task
          · simp [I2cWorld.serving, hend] at hserving
          · exact ⟨rest', failCount', result', hnext⟩
      exact hstep.trans (ih hnext)
    · -- out of the loop nothing more is done
      have hdone : Loop.iterate I2cWorld.serving (i2cTaskStep env) n (i2cTaskStep env w) =
          i2cTaskStep env w := by
        cases n with
        | zero => rfl
        | succ n => exact if_neg hserving
      rw [hdone]
      exact hstep

end EspTesting.I2c
