import EspTesting.ForStd.Worker
import EspTesting.Spec.I2cTimeout
import EspTesting.Spec.I2cCompletion

/-!
# One request after the other

Tasks send requests while `i2c_task` works on others, and it tries operations again while more
requests arrive. For the bus, the memory and the callbacks none of this matters: they see each
request served alone, in the order in which the queue took them.

## Key results

- `serial_reachable`: the worker in any interleaving, against one request at a time
-/

namespace EspTesting.I2c

variable {env : I2cEnv} {w : I2cWorld}

/-! ## The worker -/

/-- A task that is not inside the loop over the operations waits for a request. -/
def I2cTask.inLoop : I2cTask → I2cTask
  | .loop ticket req ops failCount result => .loop ticket req ops failCount result
  | _ => .receive

/-- The worker apart from the queue and the event bits. -/
def I2cWorld.service (w : I2cWorld) : I2cWorld where
  i2cQueue := []
  task := w.task.inLoop
  bitI2cOperCplt := false
  bitI2cOperErr := false
  i2cBuf := w.i2cBuf
  mem := w.mem
  transactions := w.transactions
  sent := 0
  notified := w.notified

/-- Leaving out the tickets does not change whether the worker is in a request. -/
theorem serving_service (w : I2cWorld) : w.service.serving = w.serving := by
  unfold I2cWorld.serving I2cWorld.service
  cases w.task <;> rfl

/-- The same was done, wherever the task stands. -/
structure SameWork (v v' : I2cWorld) : Prop where
  i2cBuf : v.i2cBuf = v'.i2cBuf
  mem : v.mem = v'.mem
  transactions : v.transactions = v'.transactions
  notified : v.notified = v'.notified

/-- Worlds with the same work and the same task are the same service. -/
theorem SameWork.service {v v' : I2cWorld} (h : SameWork v v') (task : I2cTask) :
    { v with task }.service = { v' with task }.service := by
  simp only [I2cWorld.service, h.i2cBuf, h.mem, h.transactions, h.notified]

/-- The notification does the same to worlds with the same work. -/
theorem SameWork.notificationCallback {v v' : I2cWorld} (h : SameWork v v') (result : EspErr)
    (ticket : Nat) (req : I2cRequest) (op : I2cOp) :
    SameWork (notificationCallback env result ticket req op v)
      (notificationCallback env result ticket req op v') := by
  constructor
  · exact h.i2cBuf
  · simp only [I2c.notificationCallback, h.i2cBuf, h.mem]
  · exact h.transactions
  · simp only [I2c.notificationCallback, h.transactions, h.notified]

/-- An attempt looks neither at the queue nor at the event bits. -/
theorem i2cAttempt_service (env : I2cEnv) (req : I2cRequest) (op : I2cOp) (result : EspErr)
    (w : I2cWorld) :
    (i2cAttempt env req op result w.service).1 = (i2cAttempt env req op result w).1 ∧
      SameWork (i2cAttempt env req op result w.service).2 (i2cAttempt env req op result w).2 := by
  cases hwrite : op.twoStepReading || op.writeSize != 0 <;>
    cases hread : op.readSize != 0 <;>
    rw [i2cAttempt, i2cAttempt, hwrite, hread] <;> exact ⟨rfl, rfl, rfl, rfl, rfl⟩

/-- A turn of the loop looks neither at the queue nor at the event bits. -/
theorem i2cTaskLoop_service (env : I2cEnv) (ticket : Nat) (req : I2cRequest) (op : I2cOp)
    (ops : List I2cOp) (failCount : Nat) (result : EspErr) (w : I2cWorld) :
    (i2cTaskLoop env ticket req op ops failCount result w.service).service =
      (i2cTaskLoop env ticket req op ops failCount result w).service := by
  obtain ⟨hres, hsame⟩ := i2cAttempt_service env req op result w
  unfold i2cTaskLoop
  split
  · -- a request that went wrong before is not tried any more
    rfl
  · -- both attempts have one result, so both turns go the same way
    revert hres hsame
    generalize i2cAttempt env req op result w.service = attempt'
    generalize i2cAttempt env req op result w = attempt
    obtain ⟨res', v'⟩ := attempt'
    obtain ⟨res, v⟩ := attempt
    intro hres hsame
    obtain rfl : res' = res := hres
    by_cases hok : res' = espOk
    · -- the operation is done: it is reported
      simp only [hok, Bool.true_or, decide_true, if_true]
      exact (hsame.notificationCallback ..).service _
    · by_cases hcount : failCount < maxRetry
      · -- it is tried again
        simp only [hok, hcount, Nat.not_le.mpr hcount, decide_false, Bool.or_self,
          Bool.false_eq_true, if_false, if_true]
        exact hsame.service _
      · -- it is given up, which is reported too
        simp only [hok, hcount, Nat.not_lt.mp hcount, decide_true, Bool.or_true, if_false,
          if_true]
        exact (hsame.notificationCallback ..).service _

/-- A step inside a request does to the service what it does to the world. -/
theorem i2cTaskStep_service (h : w.serving = true) :
    (i2cTaskStep env w.service).service = (i2cTaskStep env w).service := by
  unfold I2cWorld.serving at h
  split at h
  · rename_i ticket req ops failCount result htask
    cases ops with
    | nil => simp only [i2cTaskStep, htask, I2cWorld.service, I2cTask.inLoop]
    | cons op ops =>
      have hturn := i2cTaskLoop_service env ticket req op ops failCount result w
      simpa only [i2cTaskStep, htask, I2cWorld.service, I2cTask.inLoop] using hturn
  · cases h

/-- The task leaves the queue alone while it is inside the loop. -/
theorem i2cQueue_of_serving (h : w.serving = true) :
    (i2cTaskStep env w).i2cQueue = w.i2cQueue := by
  unfold I2cWorld.serving at h
  split at h
  · rename_i ticket req ops failCount result htask
    unfold i2cTaskStep
    rw [htask]
    cases ops with
    | nil => rfl
    | cons op ops => exact (turnOf_i2cTaskLoop env ticket req op ops failCount result w).i2cQueue
  · cases h

/-- Entering the loop directly takes no more steps. -/
theorem weight_inLoop_le (task : I2cTask) : task.inLoop.weight ≤ task.weight := by
  cases task with
  | loop ticket req ops failCount result => exact Nat.le_refl _
  | _ => exact Nat.zero_le _

/-- A step of the worker on its request leaves less to do. -/
theorem weight_service_lt (env : I2cEnv) (h : w.serving = true) :
    (i2cTaskStep env w).service.task.weight < w.task.weight := by
  have hrunning : w.running = true := by
    rw [running_eq_true_iff]
    intro hrest
    simp [I2cWorld.serving, hrest.1] at h
  have hweight := decreases_weight env w hrunning
  rw [I2cWorld.weight, I2cWorld.weight, i2cQueue_of_serving h] at hweight
  have hle := weight_inLoop_le (i2cTaskStep env w).task
  show (i2cTaskStep env w).task.inLoop.weight < w.task.weight
  omega

/-- The worker, with the requests by the numbers under which the queue took them. -/
def worker (env : I2cEnv) : Worker I2cWorld (Nat × I2cRequest) where
  busy := I2cWorld.serving
  take job w := { w with task := .loop job.1 job.2 job.2.ops 0 espOk }
  work w := (i2cTaskStep env w).service
  weight w := w.task.weight
  decreases _ h := weight_service_lt env h

/-! ## Numbers -/

/-- Numbers below `sent` are in use, and no others. -/
structure I2cWorld.Numbered (w : I2cWorld) : Prop where
  waiting : ∀ job ∈ w.i2cQueue, job.1 < w.sent
  works : ∀ ticket, w.task.works = some ticket → ticket < w.sent
  unsent : ∀ n, w.sent ≤ n → w.notified n = []

/-- At the start no ticket is out. -/
theorem numbered_boot (mem : Mem) : (I2cWorld.boot mem).Numbered where
  waiting _ hjob := absurd hjob List.not_mem_nil
  works ticket h := absurd h.symm (Option.some_ne_none ticket)
  unsent _ _ := rfl

/-- A step of the worker keeps the tickets in order. -/
theorem I2cWorld.Numbered.taskStep (h : w.Numbered) : (i2cTaskStep env w).Numbered := by
  constructor <;> rw [sent_i2cTaskStep]
  · -- the queue is as before, or its first request was taken
    obtain hsame | ⟨r, hr, -⟩ := i2cQueue_i2cTaskStep env w
    · rw [hsame]
      exact h.waiting
    · exact fun job hjob => h.waiting job (hr ▸ List.mem_cons_of_mem r hjob)
  · -- the worker is in the request it was in, or in one it took from the queue
    intro ticket hworks
    obtain hworks | hmem := works_i2cTaskStep hworks
    · exact h.works ticket hworks
    · obtain ⟨job, hjob, rfl⟩ := List.mem_map.mp hmem
      exact h.waiting job hjob
  · intro n hn
    rw [notified_i2cTaskStep_of_ne]
    · exact h.unsent n hn
    · exact fun hworks => Nat.not_lt.mpr hn (h.works n hworks)

/-- Clearing the bits keeps the tickets in order. -/
theorem I2cWorld.Numbered.clearBits (h : w.Numbered) : w.clearBits.Numbered :=
  ⟨h.waiting, h.works, h.unsent⟩

/-- What a request that is taken does to the worker. -/
theorem i2cSendAsync_of_ok {req : I2cRequest} (hok : (i2cSendAsync req w).1 = espOk) :
    req.ops ≠ [] ∧ (i2cSendAsync req w).2 = { w with
      i2cQueue := w.i2cQueue ++ [(w.sent, req)]
      sent := w.sent + 1
      notified := fun n => if n = w.sent then [] else w.notified n } := by
  unfold i2cSendAsync at hok ⊢
  split at hok
  · exact absurd (show espErrInvalidArg = espOk from hok) (by decide)
  · rename_i hops
    split at hok
    · exact absurd (show espFail = espOk from hok) (by decide)
    · rename_i hroom
      rw [if_neg hops, if_neg hroom]
      exact ⟨hops, rfl⟩

/-- A request that is refused changes nothing. -/
theorem i2cSendAsync_of_ne_ok {req : I2cRequest} (h : (i2cSendAsync req w).1 ≠ espOk) :
    (i2cSendAsync req w).2 = w := by
  unfold i2cSendAsync at h ⊢
  split
  · rfl
  · rename_i hops
    rw [if_neg hops] at h
    split
    · rfl
    · rename_i hroom
      rw [if_neg hroom] at h
      exact absurd rfl h

/-- Nothing is notified yet for the next ticket. -/
theorem I2cWorld.Numbered.notified_eq (h : w.Numbered) :
    (fun n => if n = w.sent then [] else w.notified n) = w.notified := by
  funext n
  split
  · rename_i hn
    rw [h.unsent n (Nat.le_of_eq hn.symm)]
  · rfl

/-- A request that is accepted keeps the tickets in order. -/
theorem I2cWorld.Numbered.sendAsync (h : w.Numbered) {req : I2cRequest}
    (hok : (i2cSendAsync req w).1 = espOk) : (i2cSendAsync req w).2.Numbered := by
  rw [(i2cSendAsync_of_ok hok).2, h.notified_eq]
  constructor
  · -- the request waits behind the others, under the next ticket
    intro job hjob
    obtain hjob | hjob := List.mem_append.mp hjob
    · exact Nat.lt_succ_of_lt (h.waiting job hjob)
    · rw [List.mem_singleton.mp hjob]
      exact Nat.lt_succ_self _
  · exact fun ticket hworks => Nat.lt_succ_of_lt (h.works ticket hworks)
  · exact fun n hn => h.unsent n (Nat.le_of_succ_le hn)

/-! ## The worker behind its queue -/

/-- The queue and the worker. -/
def I2cWorld.behind (w : I2cWorld) : Worker.State I2cWorld (Nat × I2cRequest) :=
  ⟨w.i2cQueue, w.service⟩

/-- From `w` to `w'` the worker makes steps, and the jobs are sent to it. -/
def Follows (env : I2cEnv) (w : I2cWorld) (jobs : List (Nat × I2cRequest)) (w' : I2cWorld) :
    Prop :=
  ∃ as, w'.behind = Machine.run (worker env).step w.behind as ∧
    as.filterMap Worker.Action.job = jobs

/-- Nothing happens: the worker is where it was. -/
theorem Follows.refl (env : I2cEnv) (w : I2cWorld) : Follows env w [] w := ⟨[], rfl, rfl⟩

/-- The requests of two stages one behind the other are those of both. -/
theorem Follows.trans {w' w'' : I2cWorld} {jobs jobs' : List (Nat × I2cRequest)}
    (h : Follows env w jobs w') (h' : Follows env w' jobs' w'') :
    Follows env w (jobs ++ jobs') w'' := by
  obtain ⟨as, has, rfl⟩ := h
  obtain ⟨as', has', rfl⟩ := h'
  exact ⟨as ++ as', by rw [has', has, Machine.run_append], List.filterMap_append⟩

/-- A step of the task is a step of the worker, or none, and brings no request. -/
theorem follows_taskStep (env : I2cEnv) (w : I2cWorld) : Follows env w [] (i2cTaskStep env w) := by
  cases htask : w.task with
  | receive =>
    cases hqueue : w.i2cQueue with
    | nil =>
      have hstep : i2cTaskStep env w = w := by rw [i2cTaskStep, htask, hqueue]
      rw [hstep]
      exact Follows.refl env w
    | cons job queue =>
      refine ⟨[.work], ?_, rfl⟩
      simp [i2cTaskStep, htask, hqueue, I2cWorld.behind, Worker.step, worker, I2cWorld.serving,
        I2cWorld.service, I2cTask.inLoop]
  | testQueue =>
    refine ⟨[], ?_, rfl⟩
    simp only [i2cTaskStep, htask, I2cWorld.behind, I2cWorld.service, Machine.run_nil]
    split <;> rfl
  | setBits =>
    refine ⟨[], ?_, rfl⟩
    simp only [i2cTaskStep, htask, I2cWorld.behind, I2cWorld.service, Machine.run_nil]
    rfl
  | loop ticket req ops failCount result =>
    -- a turn of the loop is the work of the busy worker
    have hserving : w.serving = true := serving_of_task htask
    have hbusy : (worker env).busy w.service = true := (serving_service w).trans hserving
    refine ⟨[.work], ?_, rfl⟩
    simp only [I2cWorld.behind, Machine.run_cons, Machine.run_nil, Worker.step]
    rw [i2cQueue_of_serving hserving, if_pos hbusy]
    exact congrArg _ (i2cTaskStep_service hserving).symm

/-- A request that is accepted is one more job of the worker. -/
theorem follows_sendAsync (env : I2cEnv) (h : w.Numbered) {req : I2cRequest}
    (hok : (i2cSendAsync req w).1 = espOk) :
    Follows env w [(w.sent, req)] (i2cSendAsync req w).2 := by
  refine ⟨[.send (w.sent, req)], ?_, rfl⟩
  rw [(i2cSendAsync_of_ok hok).2, h.notified_eq]
  rfl

/-- Steps of the task bring no request. -/
theorem follows_taskRun (env : I2cEnv) (n : Nat) (w : I2cWorld) :
    Follows env w [] (i2cTaskRun env n w) :=
  Loop.iterate_invariant (I := Follows env w [])
    (fun w' _ h => h.trans (follows_taskStep env w')) n (Follows.refl env w)

/-! ## Requests of the tasks -/

namespace I2cSystem

/-- The request that an action sends. -/
def sends (s : I2cSystem) : I2cAction → Option I2cRequest
  | .enqueue c =>
    match s.clients c with
    | .cleared req => some req
    | _ => none
  | .async c req => if (s.clients c).outside then some req else none
  | _ => none

/-- The request that the queue takes from an action. -/
def accepts (s : I2cSystem) (a : I2cAction) : Option I2cRequest :=
  (s.sends a).filter fun req => (i2cSendAsync req s.world).1 = espOk

/-- The requests that the queue takes on a run, in their order. -/
def accepted (env : I2cEnv) : I2cSystem → List I2cAction → List I2cRequest
  | _, [] => []
  | s, a :: as => (s.accepts a).toList ++ accepted env (s.step env a) as

/-- What an action does to the worker and its queue. -/
theorem world_step (env : I2cEnv) (s : I2cSystem) (a : I2cAction) :
    (s.accepts a = none ∧ ((s.step env a).world = i2cTaskStep env s.world ∨
      (s.step env a).world = s.world ∨ (s.step env a).world = s.world.clearBits)) ∨
    ∃ req, s.accepts a = some req ∧ (i2cSendAsync req s.world).1 = espOk ∧
      (s.step env a).world = (i2cSendAsync req s.world).2 := by
  cases a with
  | task => exact .inl ⟨rfl, .inl rfl⟩
  | clear c req =>
    refine .inl ⟨rfl, .inr ?_⟩
    simp only [step, clear]
    split
    · exact .inr rfl
    · exact .inl rfl
  | enqueue c =>
    -- only a client that has cleared its bit puts a request into the queue
    cases hc : s.clients c with
    | cleared req =>
      by_cases hok : (i2cSendAsync req s.world).1 = espOk
      · refine .inr ⟨req, ?_, hok, ?_⟩
        · simp [accepts, sends, hc, hok]
        · simp [step, enqueue, hc, hok, setClient]
      · refine .inl ⟨?_, .inr (.inl ?_)⟩
        · simp [accepts, sends, hc, hok]
        · simp [step, enqueue, hc, hok, setClient]
    | _ =>
      refine .inl ⟨?_, .inr (.inl ?_)⟩
      · simp [accepts, sends, hc]
      · simp [step, enqueue, hc]
  | wait c =>
    refine .inl ⟨rfl, .inr (.inl ?_)⟩
    simp only [step, wait]
    split <;> rfl
  | timeout c =>
    refine .inl ⟨rfl, .inr (.inl ?_)⟩
    simp only [step, timeout]
    split <;> rfl
  | done c =>
    refine .inl ⟨rfl, .inr (.inl ?_)⟩
    simp only [step, done]
    split <;> rfl
  | async c req =>
    by_cases hout : (s.clients c).outside = true
    · by_cases hok : (i2cSendAsync req s.world).1 = espOk
      · refine .inr ⟨req, ?_, hok, ?_⟩
        · simp [accepts, sends, hout, hok]
        · simp [step, async, hout]
      · refine .inl ⟨?_, .inr (.inl ?_)⟩
        · simp [accepts, sends, hout, hok]
        · simp [step, async, hout, i2cSendAsync_of_ne_ok hok]
    · refine .inl ⟨?_, .inr (.inl ?_)⟩
      · simp [accepts, sends, hout]
      · simp [step, async, hout]

end I2cSystem

/-- The requests with the numbers from `n` on. -/
def numbered : Nat → List I2cRequest → List (Nat × I2cRequest)
  | _, [] => []
  | n, req :: reqs => (n, req) :: numbered (n + 1) reqs

/-- The worker follows a run of the tasks. -/
theorem follows_run (env : I2cEnv) (s : I2cSystem) (as : List I2cAction) (h : s.world.Numbered) :
    (Machine.run (I2cSystem.step env) s as).world.sent =
        s.world.sent + (s.accepted env as).length ∧
      Follows env s.world (numbered s.world.sent (s.accepted env as))
        (Machine.run (I2cSystem.step env) s as).world := by
  induction as generalizing s with
  | nil => exact ⟨rfl, Follows.refl env s.world⟩
  | cons a as ih =>
    rw [Machine.run_cons, I2cSystem.accepted]
    obtain ⟨hnone, hworld⟩ | ⟨req, hsome, hok, hworld⟩ := s.world_step env a
    · -- a step of the worker, or none
      have hstep : (s.step env a).world.Numbered ∧ (s.step env a).world.sent = s.world.sent ∧
          Follows env s.world [] (s.step env a).world := by
        obtain hworld | hworld | hworld := hworld <;> rw [hworld]
        · exact ⟨h.taskStep, sent_i2cTaskStep env s.world, follows_taskStep env s.world⟩
        · exact ⟨h, rfl, Follows.refl env s.world⟩
        · exact ⟨h.clearBits, rfl, Follows.refl env s.world⟩
      obtain ⟨hnum, hsent, hfollows⟩ := hstep
      obtain ⟨hsent', hfollows'⟩ := ih (s.step env a) hnum
      rw [hnone, Option.toList_none, List.nil_append, ← hsent]
      exact ⟨hsent', hfollows.trans hfollows'⟩
    · -- a request: it gets the next ticket
      have hnum := h.sendAsync hok
      have hsent : (i2cSendAsync req s.world).2.sent = s.world.sent + 1 := by
        rw [(i2cSendAsync_of_ok hok).2]
      rw [← hworld] at hnum hsent
      obtain ⟨hsent', hfollows'⟩ := ih (s.step env a) hnum
      have hfollows := follows_sendAsync env h hok
      rw [← hworld] at hfollows
      rw [hsome, Option.toList_some, List.singleton_append, List.length_cons]
      refine ⟨by omega, ?_⟩
      rw [hsent] at hfollows'
      exact hfollows.trans hfollows'

/-- Every request that is accepted has an operation. -/
theorem ops_of_mem_accepted {env : I2cEnv} {s : I2cSystem} {as : List I2cAction} :
    ∀ req ∈ s.accepted env as, req.ops ≠ [] := by
  induction as generalizing s with
  | nil => exact fun req h => absurd h List.not_mem_nil
  | cons a as ih =>
    intro req h
    obtain h | h := List.mem_append.mp h
    · obtain ⟨hnone, -⟩ | ⟨req', hsome, hok, -⟩ := s.world_step env a
      · rw [hnone] at h
        exact absurd h List.not_mem_nil
      · rw [hsome] at h
        rw [List.mem_singleton.mp h]
        exact (i2cSendAsync_of_ok hok).1
    · exact ih req h

/-! ## One request at a time -/

/-- A request is sent, and the task works until it waits for another one. -/
def serveAlone (env : I2cEnv) (w : I2cWorld) (req : I2cRequest) : I2cWorld :=
  let w := (i2cSendAsync req w).2
  i2cTaskRun env w.weight w

/-- Each request is sent when the one before is served. -/
def oneByOne (env : I2cEnv) (mem : Mem) (reqs : List I2cRequest) : I2cWorld :=
  reqs.foldl (serveAlone env) (.boot mem)

/-- The worker comes to rest after as many steps as its weight. -/
theorem atRest_taskRun (env : I2cEnv) (w : I2cWorld) : (i2cTaskRun env w.weight w).AtRest := by
  obtain ⟨n, -, hexit⟩ := Loop.exits_run (decreases_weight env) w
  exact running_eq_false_iff.mp hexit.cond_eq_false

/-- Steps of the task keep the tickets in order. -/
theorem I2cWorld.Numbered.taskRun (h : w.Numbered) (env : I2cEnv) (n : Nat) :
    (i2cTaskRun env n w).Numbered :=
  Loop.iterate_invariant (I := I2cWorld.Numbered) (fun _ _ h => h.taskStep) n h

/-- A request that is served alone: the worker is at rest again, and that is one job. -/
theorem serveAlone_spec (env : I2cEnv) {req : I2cRequest} (hop : req.ops ≠ [])
    (hnum : w.Numbered) (hrest : w.AtRest) :
    (serveAlone env w req).AtRest ∧ (serveAlone env w req).Numbered ∧
      (serveAlone env w req).sent = w.sent + 1 ∧
      Follows env w [(w.sent, req)] (serveAlone env w req) := by
  have hok : (i2cSendAsync req w).1 = espOk := by
    rw [i2cSendAsync, if_neg hop, hrest.2, if_neg (by decide)]
  unfold serveAlone
  refine ⟨atRest_taskRun env _, (hnum.sendAsync hok).taskRun env _, ?_, ?_⟩
  · rw [sent_i2cTaskRun, (i2cSendAsync_of_ok hok).2]
  · exact (follows_sendAsync env hnum hok).trans (follows_taskRun env _ _)

/-- Requests that are served one by one are the jobs of the worker, in this order. -/
theorem follows_foldl_serveAlone (env : I2cEnv) (reqs : List I2cRequest) {w : I2cWorld}
    (hops : ∀ req ∈ reqs, req.ops ≠ []) (hnum : w.Numbered) (hrest : w.AtRest) :
    (reqs.foldl (serveAlone env) w).AtRest ∧
      Follows env w (numbered w.sent reqs) (reqs.foldl (serveAlone env) w) := by
  induction reqs generalizing w with
  | nil => exact ⟨hrest, Follows.refl env w⟩
  | cons req reqs ih =>
    obtain ⟨hop, hops⟩ := List.forall_mem_cons.mp hops
    obtain ⟨hrest, hnum, hsent, hfollows⟩ := serveAlone_spec env hop hnum hrest
    obtain ⟨hrest, hfollows'⟩ := ih hops hnum hrest
    rw [hsent] at hfollows'
    exact ⟨hrest, hfollows.trans hfollows'⟩

/-! ## The result -/

/-- All that is still to be done leads where one request at a time leads. -/
theorem Follows.serial {jobs : List (Nat × I2cRequest)} {w' : I2cWorld}
    (h : Follows env w jobs w') (hrest : w.AtRest) :
    (worker env).serial w'.service w'.i2cQueue = (worker env).serial w.service jobs := by
  obtain ⟨as, has, rfl⟩ := h
  have hserial := Worker.run_serial (W := worker env) w.behind as
  rw [← has] at hserial
  rw [← List.nil_append (as.filterMap _), ← hrest.2]
  exact hserial

/-- A worker at rest has nothing left to serve. -/
theorem serial_of_atRest (h : w.AtRest) : (worker env).serial w.service w.i2cQueue = w.service := by
  rw [h.2]
  apply Worker.finish_of_idle
  show w.service.serving = false
  rw [serving_service, I2cWorld.serving, h.1]

/-- A step only adds transactions behind those there are. -/
theorem transactions_prefix_i2cTaskStep (env : I2cEnv) (w : I2cWorld) :
    w.transactions <+: (i2cTaskStep env w).transactions := by
  unfold i2cTaskStep
  cases htask : w.task with
  | receive => cases w.i2cQueue <;> exact List.prefix_rfl
  | testQueue => exact List.prefix_rfl
  | setBits => exact List.prefix_rfl
  | loop ticket req ops failCount result =>
    cases ops with
    | nil => exact List.prefix_rfl
    | cons op ops =>
      show w.transactions <+: (i2cTaskLoop env ticket req op ops failCount result w).transactions
      obtain ⟨_, heq⟩ | ⟨_, res, w', hattempt, hcases⟩ :=
        i2cTaskLoop_cases env ticket req op ops failCount result w
      · rw [heq]
        exact List.prefix_rfl
      · -- an attempt adds what it put on the bus
        obtain ⟨i2cBuf, log, _, hw'⟩ := i2cAttempt_snd env req op result w
        rw [hattempt] at hw'
        subst hw'
        obtain ⟨_, heq⟩ | ⟨_, _, heq⟩ | ⟨_, _, heq⟩ := hcases <;> rw [heq] <;>
          exact List.prefix_append ..

/-- What was done on the bus and what was reported stays. -/
theorem prefix_serial (env : I2cEnv) (w : I2cWorld) (jobs : List (Nat × I2cRequest)) :
    w.transactions <+: ((worker env).serial w.service jobs).transactions ∧
      ∀ n, w.notified n <+: ((worker env).serial w.service jobs).notified n := by
  let R (w w' : I2cWorld) : Prop :=
    w.transactions <+: w'.transactions ∧ ∀ n, w.notified n <+: w'.notified n
  show R w.service _
  apply Worker.rel_serial
  · exact fun w => ⟨List.prefix_rfl, fun n => List.prefix_rfl⟩
  · exact fun h h' => ⟨h.1.trans h'.1, fun n => (h.2 n).trans (h'.2 n)⟩
  · exact fun w _ => ⟨transactions_prefix_i2cTaskStep env w, notified_prefix_i2cTaskStep env w⟩
  · exact fun job w => ⟨List.prefix_rfl, fun n => List.prefix_rfl⟩

section

variable (env : I2cEnv) (mem : Mem) (as : List I2cAction)

/-- The state of the worker after a run of the tasks. -/
def worldAfter : I2cWorld := (Machine.run (I2cSystem.step env) (I2cSystem.boot mem) as).world

/-- What is still to be done leads to one request at a time. -/
theorem serial_worldAfter : (worker env).serial (worldAfter env mem as).service
    (worldAfter env mem as).i2cQueue =
      (oneByOne env mem ((I2cSystem.boot mem).accepted env as)).service := by
  have hboot : (I2cSystem.boot mem).world.AtRest := ⟨rfl, rfl⟩
  obtain ⟨-, hfollows⟩ := follows_run env (I2cSystem.boot mem) as (numbered_boot mem)
  obtain ⟨hrest, halone⟩ := follows_foldl_serveAlone env ((I2cSystem.boot mem).accepted env as)
    ops_of_mem_accepted (numbered_boot mem) hboot
  exact (hfollows.serial hboot).trans ((halone.serial hboot).symm.trans (serial_of_atRest hrest))

/-- Once the worker has worked off what it holds, it has done what it does for one request at a
    time. -/
theorem sameWork_settled :
    SameWork (i2cTaskRun env (worldAfter env mem as).weight (worldAfter env mem as))
      (oneByOne env mem ((I2cSystem.boot mem).accepted env as)) := by
  obtain ⟨-, hfollows⟩ := follows_run env (I2cSystem.boot mem) as (numbered_boot mem)
  have hboot : (I2cSystem.boot mem).world.AtRest := ⟨rfl, rfl⟩
  have hrest := atRest_taskRun env (worldAfter env mem as)
  have hsettled := (hfollows.trans (follows_taskRun env (worldAfter env mem as).weight _)).serial
    hboot
  rw [List.append_nil, ← hfollows.serial hboot] at hsettled
  -- both are the serial service of the accepted requests
  have hservice := (serial_of_atRest hrest).symm.trans
    (hsettled.trans (serial_worldAfter env mem as))
  simp only [I2cWorld.service, I2cWorld.mk.injEq] at hservice
  obtain ⟨-, -, -, -, hbuf, hmem, htransactions, -, hnotified⟩ := hservice
  exact ⟨hbuf, hmem, htransactions, hnotified⟩

end

/-- However the steps of the tasks and of `i2c_task` interleave: the queue holds the last requests
    it took, in their order; what was done on the bus and reported begins what is done if each
    request is sent when the one before is served; and once `i2c_task` has worked off what it
    holds, the bus, the reports, the memory and the buffer are as they are then. -/
theorem serial_reachable (env : I2cEnv) (mem : Mem) (as : List I2cAction) :
    let s := I2cSystem.boot mem
    let w := (Machine.run (I2cSystem.step env) s as).world
    let settled := i2cTaskRun env w.weight w
    let alone := oneByOne env mem (s.accepted env as)
    w.sent = (s.accepted env as).length ∧ w.i2cQueue <:+ numbered 0 (s.accepted env as) ∧
      w.transactions <+: alone.transactions ∧ (∀ n, w.notified n <+: alone.notified n) ∧
      settled.AtRest ∧ settled.transactions = alone.transactions ∧
      settled.notified = alone.notified ∧ settled.mem = alone.mem ∧
      settled.i2cBuf = alone.i2cBuf := by
  intro s w settled alone
  obtain ⟨hsent, hfollows⟩ := follows_run env s as (numbered_boot mem)
  obtain ⟨htransactions, hnotified⟩ := prefix_serial env w w.i2cQueue
  rw [show (worker env).serial w.service w.i2cQueue = alone.service from
    serial_worldAfter env mem as] at htransactions hnotified
  have hsame : SameWork settled alone := sameWork_settled env mem as
  refine ⟨hsent.trans (Nat.zero_add _), ?_, htransactions, hnotified, atRest_taskRun env w,
    hsame.transactions, hsame.notified, hsame.mem, hsame.i2cBuf⟩
  -- the queue is what is left of the accepted requests
  obtain ⟨steps, hsteps, hjobs⟩ := hfollows
  have hqueue := Worker.queue_suffix_run (W := worker env) s.world.behind steps
  rw [← hsteps, hjobs] at hqueue
  exact hqueue

end EspTesting.I2c
