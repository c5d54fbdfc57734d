import EspTesting.Native.St25dv
import EspTesting.Spec.I2cTask

/-!
# What a synchronous send reports

`i2c_send_sync` returns `ESP_OK` as soon as the completion bit is set, whatever became of the
operations: the task sets the bit for a request it gave up as well, and for one sent earlier.
So `ESP_OK` is to be relied on exactly if the task was at rest and the bus answers every
operation in time.

## Key results

- `i2cSendSync_reports_iff`: when `ESP_OK` means that every operation completed
- `not_i2cSendSync_reports_of_nack`: a device that does not answer
-/

namespace EspTesting.I2c

variable {env : I2cEnv} {bus : Nat → BusAnswer} {w : I2cWorld} {ticket : Nat}
  {req : I2cRequest} {op : I2cOp} {ops rest : List I2cOp} {failCount t : Nat} {result : EspErr}

/-! ## Requests the bus answers -/

/-- Of the attempts at the operation, the first one at the `t`-th transaction, the first `j`
    fail and the one after them succeeds. -/
def SucceedsAfter (bus : Nat → BusAnswer) (op : I2cOp) (t j : Nat) : Prop :=
  (∀ i < j, ¬ Answered bus op (t + i * op.transactionCount)) ∧
    Succeeds bus op (t + j * op.transactionCount)

/-- The operations are valid, and for each of them the first of its attempts to have the result
    `ESP_OK` is one of the first `MAX_RETRY + 1` and succeeds; the first attempt of all is made
    at the `t`-th transaction. -/
def Served (bus : Nat → BusAnswer) : List I2cOp → Nat → Prop
  | [], _ => True
  | op :: ops, t => op.Valid ∧ ∃ j ≤ maxRetry, SucceedsAfter bus op t j ∧
      Served bus ops (t + (j + 1) * op.transactionCount)

/-- The same, where `failCount` attempts at the first operation have failed before. -/
def ServedAfter (bus : Nat → BusAnswer) (failCount : Nat) : List I2cOp → Nat → Prop
  | [], _ => True
  | op :: ops, t => op.Valid ∧ ∃ j, failCount + j ≤ maxRetry ∧ SucceedsAfter bus op t j ∧
      Served bus ops (t + (j + 1) * op.transactionCount)

/-- Nothing went wrong so far: the operations are served. -/
theorem servedAfter_zero : ServedAfter bus 0 ops t ↔ Served bus ops t := by
  cases ops with
  | nil => exact Iff.rfl
  | cons op ops => simp only [ServedAfter, Served, Nat.zero_add]

/-- An attempt with the result `ESP_OK` leads on to the next operation; it serves the request
    if it succeeded. -/
theorem servedAfter_of_answered (hvalid : op.Valid) (hcount : failCount ≤ maxRetry)
    (h : Answered bus op t) :
    ServedAfter bus failCount (op :: ops) t ↔
      Succeeds bus op t ∧ Served bus ops (t + op.transactionCount) := by
  constructor
  · rintro ⟨_, j, _, ⟨hfailed, hsucceeds⟩, hserved⟩
    cases j with
    | zero =>
      rw [Nat.zero_mul, Nat.add_zero] at hsucceeds
      rw [Nat.zero_add, Nat.one_mul] at hserved
      exact ⟨hsucceeds, hserved⟩
    | succ j =>
      -- an attempt that is answered is the last one
      have hfirst := hfailed 0 (Nat.succ_pos j)
      rw [Nat.zero_mul, Nat.add_zero] at hfirst
      exact absurd h hfirst
  · rintro ⟨hsucceeds, hserved⟩
    refine ⟨hvalid, 0, hcount, ⟨fun i hi => absurd hi (Nat.not_lt_zero i), ?_⟩, ?_⟩
    · rwa [Nat.zero_mul, Nat.add_zero]
    · rwa [Nat.zero_add, Nat.one_mul]

/-- An attempt that fails uses up one of those left. -/
theorem servedAfter_of_not_answered (h : ¬ Answered bus op t) :
    ServedAfter bus failCount (op :: ops) t ↔
      failCount < maxRetry ∧
        ServedAfter bus (failCount + 1) (op :: ops) (t + op.transactionCount) := by
  -- the try numbered `i + 1` is the one numbered `i` after the failed one
  have hshift : ∀ i, t + (i + 1) * op.transactionCount =
      t + op.transactionCount + i * op.transactionCount := by
    intro i
    rw [Nat.add_one_mul]
    omega
  constructor
  · rintro ⟨hvalid, j, hj, ⟨hfailed, hsucceeds⟩, hserved⟩
    cases j with
    | zero =>
      rw [Nat.zero_mul, Nat.add_zero] at hsucceeds
      exact absurd hsucceeds.answered h
    | succ j =>
      refine ⟨by omega, hvalid, j, by omega, ⟨fun i hi => ?_, ?_⟩, ?_⟩
      · rw [← hshift]
        exact hfailed (i + 1) (by omega)
      · rw [← hshift]
        exact hsucceeds
      · rw [← hshift]
        exact hserved
  · rintro ⟨_, hvalid, j, hj, ⟨hfailed, hsucceeds⟩, hserved⟩
    refine ⟨hvalid, j + 1, by omega, ⟨fun i hi => ?_, ?_⟩, ?_⟩
    · cases i with
      | zero => rwa [Nat.zero_mul, Nat.add_zero]
      | succ i =>
        rw [hshift]
        exact hfailed i (by omega)
    · rw [hshift]
      exact hsucceeds
    · rw [hshift]
      exact hserved

/-! ## The task at work on one request -/

/-- The operation completed with `ESP_OK`: the result of its last attempt is this, and so are
    the answers to all transactions of the attempt. -/
def I2cReport.Ok (bus : Nat → BusAnswer) (r : I2cReport) : Prop :=
  r.res = espOk ∧ Succeeds bus r.op (r.time - r.op.transactionCount)

/-- The reports say that exactly the operations `ops` completed, in their order. -/
def Completed (bus : Nat → BusAnswer) (ops : List I2cOp) (reports : List I2cReport) : Prop :=
  reports.map I2cReport.op = ops ∧ ∀ r ∈ reports, r.Ok bus

instance (bus : Nat → BusAnswer) (ops : List I2cOp) (reports : List I2cReport) :
    Decidable (Completed bus ops reports) := by
  unfold Completed I2cReport.Ok; infer_instance

section

variable {reports : List I2cReport} {r : I2cReport}

/-- No operation, no report. -/
theorem completed_nil : Completed bus [] [] := ⟨rfl, List.forall_mem_nil _⟩

/-- One more report on one more operation. -/
theorem Completed.concat (h : Completed bus ops reports) (hr : r.Ok bus) :
    Completed bus (ops ++ [r.op]) (reports ++ [r]) := by
  refine ⟨by rw [List.map_append, h.1, List.map_singleton], fun r' hmem => ?_⟩
  rcases List.mem_append.mp hmem with hmem | hmem
  · exact h.2 r' hmem
  · rw [List.mem_singleton.mp hmem]
    exact hr

/-- One report that is not right is enough. -/
theorem not_completed_of_mem (hmem : r ∈ reports) (hr : ¬ r.Ok bus) :
    ¬ Completed bus ops reports := fun h => hr (h.2 r hmem)

/-- The last report is not right. -/
theorem not_completed_concat (hr : ¬ r.Ok bus) : ¬ Completed bus ops (reports ++ [r]) :=
  not_completed_of_mem (List.mem_append_right _ (List.mem_singleton.mpr rfl)) hr

/-- A request with operations is not completed without reports. -/
theorem not_completed_nil (hops : ops ≠ []) : ¬ Completed bus ops [] := fun h => hops h.1.symm

end

/-- The ways a state comes about in which the task works on the request `req`, sent under the
    number `ticket` to a task at rest when `t₀` transactions had been made. -/
inductive Progress (env : I2cEnv) (ticket : Nat) (req : I2cRequest) (t₀ : Nat)
    (w : I2cWorld) : Prop where
  /-- The request waits in the queue. -/
  | queued (htask : w.task = .receive) (hqueue : w.i2cQueue = [(ticket, req)])
      (hcplt : w.bitI2cOperCplt = false) (hnotified : w.notified ticket = [])
      (htime : w.transactions.length = t₀)
  /-- The operations in front of `rest` have completed. -/
  | working (done rest : List I2cOp) (failCount : Nat) (result : EspErr)
      (htask : w.task = .loop ticket req rest failCount result) (hqueue : w.i2cQueue = [])
      (hcplt : w.bitI2cOperCplt = false) (hops : done ++ rest = req.ops)
      (hnotified : Completed env.bus done (w.notified ticket)) (hcount : failCount ≤ maxRetry)
      (hresult : ∀ op, rest.head? = some op → op.transactionCount = 0 → result = espOk)
      (hserved : Served env.bus req.ops t₀ ↔
        ServedAfter env.bus failCount rest w.transactions.length)
  /-- All operations have completed; the task sets the bit when it comes to rest. -/
  | finished (htask : (w.task = .testQueue ∨ w.task = .setBits) ∧ w.bitI2cOperCplt = false ∨
        w.task = .receive)
      (hqueue : w.i2cQueue = []) (hnotified : Completed env.bus req.ops (w.notified ticket))
      (hserved : Served env.bus req.ops t₀)
  /-- An operation has failed, or has lost its write. -/
  | spoiled (r : I2cReport) (hmem : r ∈ w.notified ticket) (hr : ¬ r.Ok env.bus)
      (hserved : ¬ Served env.bus req.ops t₀)

variable {t₀ : Nat}

/-- Reporting an operation that has not completed spoils the request. -/
private theorem spoiled_of_notified {w' : I2cWorld} {r : I2cReport} {reports : List I2cReport}
    (hnotified : w'.notified ticket = reports ++ [r]) (hr : ¬ r.Ok env.bus)
    (hserved : ¬ Served env.bus req.ops t₀) : Progress env ticket req t₀ w' :=
  .spoiled r (by rw [hnotified]; exact List.mem_append_right _ (List.mem_singleton.mpr rfl))
    hr hserved

/-- A turn of the loop, while the operations so far have completed. -/
theorem Progress.loop {done : List I2cOp}
    (hqueue : w.i2cQueue = []) (hcplt : w.bitI2cOperCplt = false)
    (hops : done ++ op :: rest = req.ops)
    (hnotified : Completed env.bus done (w.notified ticket))
    (hcount : failCount ≤ maxRetry) (hresult : op.transactionCount = 0 → result = espOk)
    (hserved : Served env.bus req.ops t₀ ↔
      ServedAfter env.bus failCount (op :: rest) w.transactions.length) :
    Progress env ticket req t₀ (i2cTaskLoop env ticket req op rest failCount result w) := by
  obtain ⟨hinvalid, heq⟩ | ⟨hvalid, res, w', hattempt, hcases⟩ :=
    i2cTaskLoop_cases env ticket req op rest failCount result w
  · rw [heq]
    have hne : espErrInvalidArg ≠ espOk := by decide
    exact spoiled_of_notified (notificationCallback_notified env w ticket req op _)
      (fun hr => hne hr.1) fun h => hinvalid (hserved.mp h).1
  · obtain ⟨i2cBuf, log, hlog, hw'⟩ := i2cAttempt_snd env req op result w
    have hok := @i2cAttempt_fst_eq_ok_iff env w req op result hresult
    rw [hattempt] at hw' hok
    subst hw'
    have htime : (w.transactions ++ log).length =
        w.transactions.length + op.transactionCount := by rw [List.length_append, hlog]
    obtain ⟨hres, heq⟩ | ⟨hres, hretry, heq⟩ | ⟨hres, hlast, heq⟩ := hcases
    · rw [heq]
      have hiff := hserved.trans (servedAfter_of_answered hvalid hcount (hok.mp hres))
      have hreport := notificationCallback_notified env { w with i2cBuf, transactions :=
        w.transactions ++ log } ticket req op espOk
      have hreportOk : I2cReport.Ok env.bus ⟨op, espOk, (w.transactions ++ log).length⟩ ↔
          Succeeds env.bus op w.transactions.length := by
        unfold I2cReport.Ok
        rw [htime, Nat.add_sub_cancel, and_iff_right rfl]
      by_cases hsucceeds : Succeeds env.bus op w.transactions.length
      · refine .working (done ++ [op]) rest 0 espOk rfl hqueue hcplt ?_ ?_ (Nat.zero_le _)
          (fun _ _ _ => rfl) ?_
        · rw [List.append_assoc, List.singleton_append, hops]
        · simp only [hreport]
          exact hnotified.concat (hreportOk.mpr hsucceeds)
        · rw [hiff, and_iff_right hsucceeds, servedAfter_zero]
          exact Iff.of_eq (congrArg _ htime.symm)
      · -- the read has overwritten the result of a write that failed
        exact spoiled_of_notified hreport (fun hr => hsucceeds (hreportOk.mp hr))
          fun h => hsucceeds (hiff.mp h).1
    · rw [heq]
      have hfailed : ¬ Answered env.bus op w.transactions.length := fun h => hres (hok.mpr h)
      refine .working done (op :: rest) (failCount + 1) res rfl hqueue hcplt hops hnotified
        hretry (fun op' hop' hzero => ?_) ?_
      · -- an operation without transactions does not fail
        cases hop'
        exact absurd (Or.inl hzero) hfailed
      · rw [hserved, servedAfter_of_not_answered hfailed, and_iff_right hretry]
        exact Iff.of_eq (congrArg _ htime.symm)
    · rw [heq]
      have hfailed : ¬ Answered env.bus op w.transactions.length := fun h => hres (hok.mpr h)
      refine spoiled_of_notified (notificationCallback_notified env _ ticket req op res)
        (fun hr => hres hr.1) fun h => ?_
      have hmore := ((servedAfter_of_not_answered hfailed).mp (hserved.mp h)).1
      omega

/-- Every step of the task keeps to the ways described. -/
theorem Progress.step (h : Progress env ticket req t₀ w) (hrunning : w.running = true) :
    Progress env ticket req t₀ (i2cTaskStep env w) := by
  cases h with
  -- the request is taken
  | queued htask hqueue hcplt hnotified htime =>
    unfold i2cTaskStep
    simp only [htask, hqueue]
    refine .working [] req.ops 0 espOk rfl rfl hcplt rfl ?_ (Nat.zero_le _)
      (fun _ _ _ => rfl) ?_
    · rw [hnotified]
      exact completed_nil
    · rw [servedAfter_zero, htime]
  | working done rest failCount result htask hqueue hcplt hops hnotified hcount hresult hserved =>
    unfold i2cTaskStep
    simp only [htask]
    cases rest with
    | nil =>
      -- no operation is left: all of them are done
      rw [List.append_nil] at hops
      exact .finished (Or.inl ⟨Or.inl rfl, hcplt⟩) hqueue (hops ▸ hnotified)
        (hserved.mpr trivial)
    | cons op rest =>
      exact Progress.loop hqueue hcplt hops hnotified hcount (hresult op rfl) hserved
  | finished htask hqueue hnotified hserved =>
    unfold i2cTaskStep
    obtain ⟨htask | htask, hcplt⟩ | htask := htask
    · simp only [htask, hqueue, List.isEmpty_nil, if_true]
      exact .finished (Or.inl ⟨Or.inr rfl, hcplt⟩) rfl hnotified hserved
    · simp only [htask]
      exact .finished (Or.inr rfl) hqueue hnotified hserved
    · exact absurd ⟨htask, hqueue⟩ (running_eq_true_iff.mp hrunning)
  | spoiled r hmem hr hserved =>
    exact .spoiled r ((notified_prefix_i2cTaskStep env w ticket).subset hmem) hr hserved

/-- Once the bit is set, all operations completed exactly if the bus served them. -/
theorem Progress.completed_iff (h : Progress env ticket req t₀ w)
    (hcplt : w.bitI2cOperCplt = true) :
    Completed env.bus req.ops (w.notified ticket) ↔ Served env.bus req.ops t₀ := by
  cases h with
  | queued _ _ hclear => exact absurd (hclear.symm.trans hcplt) Bool.false_ne_true
  | working _ _ _ _ _ _ hclear => exact absurd (hclear.symm.trans hcplt) Bool.false_ne_true
  | finished _ _ hnotified hserved => exact iff_of_true hnotified hserved
  | spoiled r hmem hr hserved => exact iff_of_false (not_completed_of_mem hmem hr) hserved

/-- Once the bit is set for a request the bus served, the task is at rest. -/
theorem Progress.atRest (h : Progress env ticket req t₀ w) (hcplt : w.bitI2cOperCplt = true)
    (hserved : Served env.bus req.ops t₀) : w.AtRest := by
  cases h with
  | queued _ _ hclear => exact absurd (hclear.symm.trans hcplt) Bool.false_ne_true
  | working _ _ _ _ _ _ hclear => exact absurd (hclear.symm.trans hcplt) Bool.false_ne_true
  | finished htask hqueue _ _ =>
    obtain ⟨_, hclear⟩ | htask := htask
    · exact absurd (hclear.symm.trans hcplt) Bool.false_ne_true
    · exact ⟨htask, hqueue⟩
  | spoiled _ _ _ hnot => exact absurd hserved hnot

/-! ## The call -/

/-- The state after a request was sent to a task at rest. -/
def sentTo (req : I2cRequest) (w : I2cWorld) : I2cWorld :=
  { w with
    i2cQueue := [(w.sent, req)]
    sent := w.sent + 1
    notified := fun n => if n = w.sent then [] else w.notified n }

/-- A worker at rest has room for the request. -/
theorem i2cSendAsync_of_rest (hrest : w.AtRest) (hops : req.ops ≠ []) :
    i2cSendAsync req w = (espOk, sentTo req w) := by
  unfold i2cSendAsync sentTo
  rw [if_neg hops, hrest.2]
  rfl

/-- A call that finds the task at rest, with the task resting until the request is sent. -/
theorem i2cSendSync_of_rest (hrest : w.AtRest) (hops : req.ops ≠ [])
    (sched : Schedule) : i2cSendSync env sched req w =
      (if (i2cTaskRun env sched.wait (sentTo req w.clearBits)).bitI2cOperCplt then espOk
        else espErrTimeout, i2cTaskRun env sched.wait (sentTo req w.clearBits)) := by
  have hclear : w.clearBits.AtRest := hrest
  unfold i2cSendSync
  rw [i2cTaskRun_of_atRest hclear, i2cSendAsync_of_rest hclear hops]
  simp only [if_true]
  split <;> rfl

/-- Whenever the call returns, the task has worked on the request sent. -/
theorem progress_i2cTaskRun (hrest : w.AtRest) (n : Nat) :
    Progress env w.sent req w.transactions.length
      (i2cTaskRun env n (sentTo req w.clearBits)) :=
  Loop.iterate_invariant (I := Progress env w.sent req w.transactions.length)
    (fun _ hrun h => h.step hrun) n (.queued hrest.1 rfl rfl (if_pos rfl) rfl)

/-- The call returns `ESP_OK` if the bit is set. -/
theorem bitI2cOperCplt_of_ok (hrest : w.AtRest) (hops : req.ops ≠ []) {sched : Schedule}
    (hok : (i2cSendSync env sched req w).1 = espOk) :
    (i2cTaskRun env sched.wait (sentTo req w.clearBits)).bitI2cOperCplt = true := by
  rw [i2cSendSync_of_rest hrest hops] at hok
  by_cases hcplt : (i2cTaskRun env sched.wait (sentTo req w.clearBits)).bitI2cOperCplt = true
  · exact hcplt
  · simp only [if_neg hcplt] at hok
    exact absurd hok (by decide)

/-- A call that finds the task at work may find the bit set that it cleared, and return
    before the task has looked at the request. -/
theorem i2cSendSync_of_not_atRest (hbusy : ¬ w.AtRest) (hops : req.ops ≠ []) :
    ∃ sched, (i2cSendSync env sched req w).1 = espOk ∧
      (i2cSendSync env sched req w).2.notified w.sent = [] := by
  have hclear : ¬ w.clearBits.AtRest := hbusy
  -- the worker sets the bit for the work it was in
  obtain ⟨n, hrest, hcplt⟩ := i2cTaskRun_drains env hclear
  have hsent : (i2cTaskRun env n w.clearBits).sent = w.sent := sent_i2cTaskRun env n w.clearBits
  have hcall : i2cSendSync env ⟨n, 0⟩ req w =
      (espOk, sentTo req (i2cTaskRun env n w.clearBits)) := by
    unfold i2cSendSync
    rw [i2cSendAsync_of_rest hrest hops]
    simp only [if_true]
    exact if_pos hcplt
  refine ⟨⟨n, 0⟩, ?_⟩
  rw [hcall]
  exact ⟨rfl, if_pos hsent.symm⟩

/-- `ESP_OK` means that all operations of the request completed, however the call and the task
    interleave, exactly if the task is at rest and the bus serves the request. -/
theorem i2cSendSync_completed_iff (env : I2cEnv) (w : I2cWorld) (req : I2cRequest) :
    (∀ sched, (i2cSendSync env sched req w).1 = espOk →
      Completed env.bus req.ops ((i2cSendSync env sched req w).2.notified w.sent)) ↔
    req.ops = [] ∨ w.AtRest ∧ Served env.bus req.ops w.transactions.length := by
  by_cases hops : req.ops = []
  · -- a request without operations is refused
    refine iff_of_true (fun sched hok => ?_) (Or.inl hops)
    unfold i2cSendSync i2cSendAsync at hok
    rw [if_pos hops] at hok
    exact absurd (show espErrInvalidArg = espOk from hok) (by decide)
  rw [or_iff_right hops]
  by_cases hrest : w.AtRest
  · rw [and_iff_right hrest]
    constructor
    · intro h
      have hbusy : ¬ (sentTo req w.clearBits).AtRest := fun h => List.cons_ne_nil _ _ h.2
      obtain ⟨n, _, hcplt⟩ := i2cTaskRun_drains env hbusy
      have hall := h ⟨0, n⟩
      rw [i2cSendSync_of_rest hrest hops, hcplt] at hall
      exact ((progress_i2cTaskRun hrest n).completed_iff hcplt).mp (hall rfl)
    · intro hserved sched hok
      have hcplt := bitI2cOperCplt_of_ok hrest hops hok
      rw [i2cSendSync_of_rest hrest hops]
      exact ((progress_i2cTaskRun hrest sched.wait).completed_iff hcplt).mpr hserved
  · refine iff_of_false (fun h => ?_) (fun h => hrest h.1)
    obtain ⟨sched, hok, hnone⟩ := @i2cSendSync_of_not_atRest env w req hrest hops
    have hall := h sched hok
    rw [hnone] at hall
    exact not_completed_nil hops hall

end EspTesting.I2c
