import EspTesting.Native.I2cAsync

/-!
# Steps of the I2C task

What one step of `i2c_task` can do, and that the task, left alone, always comes to wait for a
request again, with `BIT_I2C_OPER_CPLT` set.

## Key results

- `i2cTaskLoop_cases`: the four ways a turn of the loop over the operations ends
- `turnOf_i2cTaskLoop`: what a turn leaves alone
- `i2cTaskRun_drains`: the task comes to rest
-/

namespace EspTesting.I2c

variable {env : I2cEnv} {w : I2cWorld} {ticket : Nat} {req : I2cRequest} {op : I2cOp}
  {ops : List I2cOp} {failCount : Nat} {result : EspErr}

/-! ## One attempt -/

/-- The number of transactions of an attempt at the operation. -/
def I2cOp.transactionCount (op : I2cOp) : Nat :=
  (if op.twoStepReading || op.writeSize != 0 then 1 else 0) + (if op.readSize != 0 then 1 else 0)

/-- An attempt at the operation that starts with the `t`-th transaction has the result `ESP_OK`.
    The last transaction decides, as a read overwrites the result of the write in front of it;
    an operation without any has this result. -/
def Answered (bus : Nat → BusAnswer) (op : I2cOp) (t : Nat) : Prop :=
  op.transactionCount = 0 ∨ (bus (t + op.transactionCount - 1)).err = espOk

/-- The bus answers every transaction of the attempt with `ESP_OK`. -/
def Succeeds (bus : Nat → BusAnswer) (op : I2cOp) (t : Nat) : Prop :=
  ∀ i < op.transactionCount, (bus (t + i)).err = espOk

instance (bus : Nat → BusAnswer) (op : I2cOp) (t : Nat) : Decidable (Succeeds bus op t) :=
  inferInstanceAs (Decidable (∀ i < op.transactionCount, (bus (t + i)).err = espOk))

/-- An attempt that succeeds is answered. -/
theorem Succeeds.answered {bus : Nat → BusAnswer} {op : I2cOp} {t : Nat}
    (h : Succeeds bus op t) : Answered bus op t := by
  by_cases hcount : op.transactionCount = 0
  · exact Or.inl hcount
  · have hlast := h (op.transactionCount - 1) (by omega)
    rw [show t + (op.transactionCount - 1) = t + op.transactionCount - 1 by omega] at hlast
    exact Or.inr hlast

/-- The transactions of an attempt at the operation, with the data it writes. -/
def I2cOp.attempt (req : I2cRequest) (op : I2cOp) (data : List UInt8) : List I2cTransaction :=
  (if op.twoStepReading || op.writeSize != 0 then
    [.write req.port req.deviceAddr op.regAddr req.regAddr16b data] else []) ++
  (if op.readSize != 0 then
    [.read req.port req.deviceAddr op.regAddr req.regAddr16b op.twoStepReading op.readSize]
    else [])

/-- An attempt puts as many transactions on the bus as the operation has. -/
@[simp] theorem length_attempt (req : I2cRequest) (op : I2cOp) (data : List UInt8) :
    (op.attempt req data).length = op.transactionCount := by
  unfold I2cOp.attempt I2cOp.transactionCount
  rw [List.length_append]
  congr 1 <;> split <;> rfl

/-- An attempt makes its transactions and changes nothing besides the buffer; its result is that
    of the last transaction. -/
theorem i2cAttempt_eq (env : I2cEnv) (req : I2cRequest) (op : I2cOp) (result : EspErr)
    (w : I2cWorld) : ∃ i2cBuf data, i2cAttempt env req op result w =
      (if op.transactionCount = 0 then result
        else (env.bus (w.transactions.length + op.transactionCount - 1)).err,
        { w with i2cBuf, transactions := w.transactions ++ op.attempt req data }) := by
  unfold i2cAttempt I2cOp.attempt I2cOp.transactionCount
  -- with or without a write, with or without a read
  by_cases hwrite : (op.twoStepReading || op.writeSize != 0) = true <;>
    by_cases hread : (op.readSize != 0) = true <;>
    simp only [hwrite, hread, if_true, Bool.false_eq_true, if_false,
      deviceI2cMasterWriteToDevice, deviceI2cMasterReadFromDevice, List.append_assoc,
      List.nil_append, List.append_nil, List.length_append, List.length_singleton]
  · exact ⟨_, _, rfl⟩
  · exact ⟨_, _, rfl⟩
  · exact ⟨_, [], rfl⟩
  · exact ⟨w.i2cBuf, [], rfl⟩

/-- An attempt changes the buffer and the log. -/
theorem i2cAttempt_snd (env : I2cEnv) (req : I2cRequest) (op : I2cOp) (result : EspErr)
    (w : I2cWorld) : ∃ i2cBuf log, log.length = op.transactionCount ∧
      (i2cAttempt env req op result w).2 =
        { w with i2cBuf, transactions := w.transactions ++ log } := by
  obtain ⟨i2cBuf, data, heq⟩ := i2cAttempt_eq env req op result w
  exact ⟨i2cBuf, op.attempt req data, length_attempt req op data, by rw [heq]⟩

/-- An attempt leaves in the buffer what the bus gave for its read. -/
theorem i2cBuf_i2cAttempt {res : EspErr} {w' : I2cWorld}
    (h : i2cAttempt env req op result w = (res, w')) {i : Nat} (hi : i < op.readSize) :
    w'.i2cBuf i = (env.bus (w'.transactions.length - 1)).data i := by
  have hread : (op.readSize != 0) = true := bne_iff_ne.mpr (by omega)
  -- the read is the last transaction of the attempt
  have hlast : ∀ v : I2cWorld,
      (deviceI2cMasterReadFromDevice env req op op.twoStepReading v).2 = w' →
        w'.i2cBuf i = (env.bus (w'.transactions.length - 1)).data i := by
    intro v hv
    rw [← hv]
    simp [deviceI2cMasterReadFromDevice, hi]
  unfold i2cAttempt at h
  simp only [hread, if_true] at h
  exact hlast _ (congrArg Prod.snd h)

/-- An attempt leaves the queue alone and reports nothing. -/
theorem frame_i2cAttempt {res : EspErr} {w' : I2cWorld}
    (h : i2cAttempt env req op result w = (res, w')) :
    w'.i2cQueue = w.i2cQueue ∧ w'.notified = w.notified := by
  obtain ⟨i2cBuf, data, heq⟩ := i2cAttempt_eq env req op result w
  obtain ⟨_, rfl⟩ := Prod.mk.inj (heq.symm.trans h)
  exact ⟨rfl, rfl⟩

/-- The result of an attempt. -/
theorem i2cAttempt_fst_eq_ok_iff (hresult : op.transactionCount = 0 → result = espOk) :
    (i2cAttempt env req op result w).1 = espOk ↔ Answered env.bus op w.transactions.length := by
  obtain ⟨i2cBuf, data, heq⟩ := i2cAttempt_eq env req op result w
  unfold Answered
  rw [heq]
  by_cases hzero : op.transactionCount = 0
  · simp [hzero, hresult]
  · simp [hzero]

/-! ## Notifications -/

/-- The effect on memory of the callback that a report is made to, with the bytes in `i2cBuf`:
    that of the operation, else that of the request. -/
def I2cReport.callback (env : I2cEnv) (req : I2cRequest) (i2cBuf : Nat → UInt8) (mem : Mem)
    (r : I2cReport) : Mem :=
  match r.op.opCpltCallback.or req.trCpltCallback with
  | some f =>
    f.call env r.res r.op.userCtx i2cBuf (if r.res = espOk then r.op.readSize else 0) mem
  | none => mem

section

variable (env result ticket req op w)

/-- The notification leaves the queue. -/
@[simp] theorem notificationCallback_i2cQueue :
    (notificationCallback env result ticket req op w).i2cQueue = w.i2cQueue := rfl

/-- The notification is noted for its ticket. -/
@[simp] theorem notificationCallback_notified :
    (notificationCallback env result ticket req op w).notified ticket =
      w.notified ticket ++ [⟨op, result, w.transactions.length⟩] := if_pos rfl

/-- What the callback does that `notification_callback` makes the report to. -/
@[simp] theorem notificationCallback_mem :
    (notificationCallback env result ticket req op w).mem =
      I2cReport.callback env req w.i2cBuf w.mem ⟨op, result, w.transactions.length⟩ := by
  unfold notificationCallback I2cReport.callback
  cases op.opCpltCallback with
  | some f => rfl
  | none => cases req.trCpltCallback <;> rfl

/-- A notification only adds to what was reported. -/
theorem notified_prefix_notificationCallback (n : Nat) :
    w.notified n <+: (notificationCallback env result ticket req op w).notified n := by
  unfold notificationCallback
  dsimp only
  split
  · exact List.prefix_append ..
  · exact List.prefix_rfl

end

/-! ## One turn of the loop -/

/-- A turn of the loop skips an invalid operation, goes on to the next one, tries again, or
    gives up. -/
theorem i2cTaskLoop_cases (env : I2cEnv) (ticket : Nat) (req : I2cRequest) (op : I2cOp)
    (ops : List I2cOp) (failCount : Nat) (result : EspErr) (w : I2cWorld) :
    (¬ op.Valid ∧ i2cTaskLoop env ticket req op ops failCount result w =
      { notificationCallback env espErrInvalidArg ticket req op w with
        bitI2cOperErr := true
        task := .loop ticket req ops failCount result }) ∨
    (op.Valid ∧ ∃ res w', i2cAttempt env req op result w = (res, w') ∧
      ((res = espOk ∧ i2cTaskLoop env ticket req op ops failCount result w =
        { notificationCallback env espOk ticket req op w' with
          task := .loop ticket req ops 0 espOk }) ∨
      (res ≠ espOk ∧ failCount < maxRetry ∧
        i2cTaskLoop env ticket req op ops failCount result w =
          { w' with task := .loop ticket req (op :: ops) (failCount + 1) res }) ∨
      (res ≠ espOk ∧ maxRetry ≤ failCount ∧
        i2cTaskLoop env ticket req op ops failCount result w =
          { notificationCallback env res ticket req op w' with task := .testQueue }))) := by
  by_cases hvalid : op.Valid
  · right
    -- a valid operation is tried: done, tried again, or given up
    obtain ⟨res, w', hattempt⟩ : ∃ res w', i2cAttempt env req op result w = (res, w') :=
      ⟨_, _, rfl⟩
    refine ⟨hvalid, res, w', hattempt, ?_⟩
    unfold i2cTaskLoop
    rw [if_neg (not_not_intro hvalid), hattempt]
    by_cases hres : res = espOk
    · subst hres
      exact Or.inl ⟨rfl, by simp⟩
    · right
      by_cases hcount : failCount < maxRetry
      · exact Or.inl ⟨hres, hcount, by simp [hres, hcount, Nat.not_le.mpr hcount]⟩
      · have hlast : maxRetry ≤ failCount := Nat.le_of_not_lt hcount
        exact Or.inr ⟨hres, hlast, by simp [hres, hcount, hlast]⟩
  · left
    refine ⟨hvalid, ?_⟩
    unfold i2cTaskLoop
    rw [if_pos hvalid]

/-- What a turn of the loop leaves alone, and where the task stands behind it. -/
structure TurnOf (ticket : Nat) (req : I2cRequest) (op : I2cOp) (ops : List I2cOp)
    (w w' : I2cWorld) : Prop where
  i2cQueue : w'.i2cQueue = w.i2cQueue
  sent : w'.sent = w.sent
  bitI2cOperCplt : w'.bitI2cOperCplt = w.bitI2cOperCplt
  task : w'.task = .testQueue ∨ ∃ rest failCount result, rest <:+ op :: ops ∧
    w'.task = .loop ticket req rest failCount result

/-- A turn of the loop works on its own request. -/
theorem turnOf_i2cTaskLoop (env : I2cEnv) (ticket : Nat) (req : I2cRequest) (op : I2cOp)
    (ops : List I2cOp) (failCount : Nat) (result : EspErr) (w : I2cWorld) :
    TurnOf ticket req op ops w (i2cTaskLoop env ticket req op ops failCount result w) := by
  have hnext : ops <:+ op :: ops := List.suffix_cons op ops
  obtain ⟨_, heq⟩ | ⟨_, res, w', hattempt, hcases⟩ :=
    i2cTaskLoop_cases env ticket req op ops failCount result w
  · rw [heq]
    exact ⟨rfl, rfl, rfl, Or.inr ⟨ops, _, _, hnext, rfl⟩⟩
  · -- the attempt touches only the buffer and the bus
    obtain ⟨i2cBuf, log, _, hw'⟩ := i2cAttempt_snd env req op result w
    rw [hattempt] at hw'
    subst hw'
    obtain ⟨_, heq⟩ | ⟨_, _, heq⟩ | ⟨_, _, heq⟩ := hcases <;> rw [heq]
    · exact ⟨rfl, rfl, rfl, Or.inr ⟨ops, _, _, hnext, rfl⟩⟩
    · exact ⟨rfl, rfl, rfl, Or.inr ⟨op :: ops, _, _, List.suffix_rfl, rfl⟩⟩
    · exact ⟨rfl, rfl, rfl, Or.inl rfl⟩

/-- What was reported stays reported. -/
theorem notified_prefix_i2cTaskStep (env : I2cEnv) (w : I2cWorld) (n : Nat) :
    w.notified n <+: (i2cTaskStep env w).notified n := by
  unfold i2cTaskStep
  cases htask : w.task with
  | receive => cases w.i2cQueue <;> exact List.prefix_rfl
  | testQueue => exact List.prefix_rfl
  | setBits => exact List.prefix_rfl
  | loop ticket req ops failCount result =>
    cases ops with
    | nil => exact List.prefix_rfl
    | cons op ops =>
      obtain ⟨_, heq⟩ | ⟨_, res, w', hattempt, hcases⟩ :=
        i2cTaskLoop_cases env ticket req op ops failCount result w
      · simp only [heq]
        exact notified_prefix_notificationCallback ..
      · -- the attempt itself reports nothing
        rw [← (frame_i2cAttempt hattempt).2]
        obtain ⟨_, heq⟩ | ⟨_, _, heq⟩ | ⟨_, _, heq⟩ := hcases <;> simp only [heq]
        · exact notified_prefix_notificationCallback ..
        · exact List.prefix_rfl
        · exact notified_prefix_notificationCallback ..

/-! ## Coming to rest -/

/-- The steps the task may take for what it is doing. -/
def I2cTask.weight : I2cTask → Nat
  | .receive => 0
  | .setBits => 1
  | .testQueue => 2
  | .loop _ _ ops failCount _ => 3 + 5 * ops.length + (maxRetry + 1 - failCount)

/-- The steps it may take for the requests in the queue. -/
def queueWeight : List (Nat × I2cRequest) → Nat
  | [] => 0
  | (_, req) :: queue => 8 + 5 * req.ops.length + queueWeight queue

/-- A bound on the steps the task may still take. -/
def I2cWorld.weight (w : I2cWorld) : Nat := queueWeight w.i2cQueue + w.task.weight

/-- The task waits for a request. -/
def I2cWorld.AtRest (w : I2cWorld) : Prop := w.task = .receive ∧ w.i2cQueue = []

/-- The worker rests when it waits and nothing waits for it. -/
theorem running_eq_false_iff : w.running = false ↔ w.AtRest := by
  unfold I2cWorld.running I2cWorld.AtRest
  rw [Bool.not_eq_false', Bool.and_eq_true, decide_eq_true_eq, List.isEmpty_iff]

/-- The worker runs otherwise. -/
theorem running_eq_true_iff : w.running = true ↔ ¬ w.AtRest := by
  rw [← running_eq_false_iff, Bool.not_eq_false]

/-- Every step brings the task closer to rest. -/
theorem decreases_weight (env : I2cEnv) :
    Loop.Decreases I2cWorld.running (i2cTaskStep env) I2cWorld.weight := by
  intro w hrunning
  have hmax : maxRetry = 3 := rfl
  unfold i2cTaskStep
  cases htask : w.task with
  | receive =>
    cases hqueue : w.i2cQueue with
    | nil => exact absurd ⟨htask, hqueue⟩ (running_eq_true_iff.mp hrunning)
    | cons r queue =>
      simp only [I2cWorld.weight, hqueue, htask, I2cTask.weight, queueWeight]
      omega
  | testQueue =>
    simp only [I2cWorld.weight, htask]
    split <;> simp only [I2cTask.weight] <;> omega
  | setBits =>
    simp only [I2cWorld.weight, htask, I2cTask.weight]
    omega
  | loop ticket req ops failCount result =>
    cases ops with
    | nil =>
      simp only [I2cWorld.weight, htask, I2cTask.weight]
      omega
    | cons op ops =>
      -- an operation leaves the list, or it has one try fewer, or the list is dropped
      obtain ⟨_, heq⟩ | ⟨_, res, w', hattempt, hcases⟩ :=
        i2cTaskLoop_cases env ticket req op ops failCount result w
      · simp only [heq, I2cWorld.weight, htask, I2cTask.weight,
          notificationCallback_i2cQueue, List.length_cons]
        omega
      · have hqueue := (frame_i2cAttempt hattempt).1
        obtain ⟨_, heq⟩ | ⟨_, hcount, heq⟩ | ⟨_, hcount, heq⟩ := hcases <;>
          simp only [heq, I2cWorld.weight, htask, I2cTask.weight,
            notificationCallback_i2cQueue, List.length_cons, hqueue] <;>
          omega

/-- A turn of the loop ends inside the loop or in front of the test of the queue. -/
theorem task_i2cTaskLoop_ne_receive :
    (i2cTaskLoop env ticket req op ops failCount result w).task ≠ .receive := by
  obtain htask | ⟨rest, failCount', result', _, htask⟩ :=
    (turnOf_i2cTaskLoop env ticket req op ops failCount result w).task
  · rw [htask]
    exact I2cTask.noConfusion
  · rw [htask]
    exact I2cTask.noConfusion

/-- The task comes to wait for a request only by setting the bit. -/
theorem bitI2cOperCplt_of_step (h : w.running = true)
    (hrest : (i2cTaskStep env w).running = false) :
    (i2cTaskStep env w).bitI2cOperCplt = true := by
  obtain ⟨hreceive, hempty⟩ := running_eq_false_iff.mp hrest
  unfold i2cTaskStep at hreceive hempty ⊢
  cases htask : w.task with
  | receive =>
    cases hqueue : w.i2cQueue with
    | nil => exact absurd ⟨htask, hqueue⟩ (running_eq_true_iff.mp h)
    | cons r queue => simp [htask, hqueue] at hreceive
  | testQueue =>
    -- with a request in the queue the task goes on, without one it sets the bit first
    simp only [htask] at hreceive hempty
    simp [hempty] at hreceive
  | setBits => rfl
  | loop ticket req ops failCount result =>
    simp only [htask] at hreceive
    cases ops with
    | nil => exact I2cTask.noConfusion hreceive
    | cons op ops => exact absurd hreceive task_i2cTaskLoop_ne_receive

/-- Left alone, a running task comes to wait for a request, with the bit set. -/
theorem i2cTaskRun_drains (env : I2cEnv) (h : ¬ w.AtRest) :
    ∃ n, (i2cTaskRun env n w).AtRest ∧ (i2cTaskRun env n w).bitI2cOperCplt = true := by
  obtain ⟨n, _, hexit⟩ := Loop.exits_run (decreases_weight env) w
  refine ⟨n, ?_⟩
  unfold i2cTaskRun
  rw [hexit.iterate_eq (Nat.le_refl n)]
  have hrest := hexit.cond_eq_false
  refine ⟨running_eq_false_iff.mp hrest, ?_⟩
  -- the bit is set in every state the task reaches at rest
  exact hexit.invariant (I := fun w => w.running = false → w.bitI2cOperCplt = true)
    (fun w hw _ hstop => bitI2cOperCplt_of_step hw hstop)
    (fun hstop => absurd (running_eq_false_iff.mp hstop) h) hrest

/-! ## What a run keeps -/

/-- The step changes none of the records of what is to be done next. -/
theorem sent_i2cTaskStep (env : I2cEnv) (w : I2cWorld) : (i2cTaskStep env w).sent = w.sent := by
  unfold i2cTaskStep
  cases htask : w.task with
  | receive => cases w.i2cQueue <;> rfl
  | testQueue => rfl
  | setBits => rfl
  | loop ticket req ops failCount result =>
    cases ops with
    | nil => rfl
    | cons op ops => exact (turnOf_i2cTaskLoop env ticket req op ops failCount result w).sent

/-- The worker gives out no tickets. -/
theorem sent_i2cTaskRun (env : I2cEnv) (n : Nat) (w : I2cWorld) :
    (i2cTaskRun env n w).sent = w.sent :=
  Loop.iterate_invariant (I := fun w' => w'.sent = w.sent)
    (fun w' _ h => (sent_i2cTaskStep env w').trans h) n rfl

/-- A task at rest stays there. -/
theorem i2cTaskRun_of_atRest (h : w.AtRest) (n : Nat) : i2cTaskRun env n w = w :=
  Loop.iterate_done (running_eq_false_iff.mpr h) n

end EspTesting.I2c
