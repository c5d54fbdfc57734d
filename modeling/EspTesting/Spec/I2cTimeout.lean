import EspTesting.Spec.I2cOwnRequest

/-!
# After a timeout

`i2c_send_sync` gives up waiting when its time is over, but the request it sent stays where it
is: the task still carries out its operations and calls back. The operations of a call that
returned `ESP_ERR_TIMEOUT` are left alone exactly if the task was done with them by then.

## Key results

- `i2cTaskStep_of_works_none`, `notified_i2cTaskStep_of_ne`: the task touches no other request
  than the one it works on
- `leavesNothing_iff_timesOutDone`: when a timeout leaves nothing behind
- `not_leavesNothing_of_timeout`: a read that fills a buffer after the call has returned
-/

namespace EspTesting.I2c

variable {env : I2cEnv} {w : I2cWorld} {ticket : Nat} {req : I2cRequest}

/-! ## Work on a request -/

/-- The request of which the task is about to carry out an operation. -/
def I2cTask.works : I2cTask → Option Nat
  | .loop ticket _ (_ :: _) _ _ => some ticket
  | _ => none

/-- The worker works on a ticket in the loop, with an operation left. -/
theorem task_of_works {task : I2cTask} (h : task.works = some ticket) :
    ∃ req op ops failCount result, task = .loop ticket req (op :: ops) failCount result := by
  unfold I2cTask.works at h
  split at h
  · obtain rfl := Option.some.inj h
    exact ⟨_, _, _, _, _, rfl⟩
  · exact absurd h.symm (Option.some_ne_none ticket)

/-- While it works on no operation, the task makes no transaction and calls nobody back. -/
theorem i2cTaskStep_of_works_none (h : w.task.works = none) :
    (i2cTaskStep env w).transactions = w.transactions ∧ (i2cTaskStep env w).mem = w.mem ∧
      (i2cTaskStep env w).notified = w.notified := by
  unfold i2cTaskStep
  cases htask : w.task with
  | receive => cases w.i2cQueue <;> exact ⟨rfl, rfl, rfl⟩
  | testQueue => exact ⟨rfl, rfl, rfl⟩
  | setBits => exact ⟨rfl, rfl, rfl⟩
  | loop ticket req ops failCount result =>
    cases ops with
    | nil => exact ⟨rfl, rfl, rfl⟩
    | cons op ops =>
      rw [htask] at h
      exact absurd h (Option.some_ne_none ticket)

/-- A request the task does not work on is not reported on. -/
theorem notified_i2cTaskStep_of_ne (h : w.task.works ≠ some ticket) :
    (i2cTaskStep env w).notified ticket = w.notified ticket := by
  cases hworks : w.task.works with
  | none => rw [(i2cTaskStep_of_works_none hworks).2.2]
  | some t =>
    rw [hworks] at h
    have hne : ticket ≠ t := fun heq => h (congrArg some heq.symm)
    obtain ⟨req, op, ops, failCount, result, htask⟩ := task_of_works hworks
    unfold i2cTaskStep
    simp only [htask]
    obtain ⟨_, heq⟩ | ⟨_, res, w', hattempt, hcases⟩ :=
      i2cTaskLoop_cases env t req op ops failCount result w
    · rw [heq]
      simp [notificationCallback, hne]
    · -- the attempt itself reports nothing
      have hsame := (frame_i2cAttempt hattempt).2
      obtain ⟨_, heq⟩ | ⟨_, _, heq⟩ | ⟨_, _, heq⟩ := hcases <;>
        rw [heq, ← hsame] <;> simp [notificationCallback, hne]

/-- The task is done with the request, or has no operation of it left. -/
def I2cWorld.Done (w : I2cWorld) (ticket : Nat) : Prop :=
  ticket ∉ w.i2cQueue.map Prod.fst ∧ w.task.works ≠ some ticket

instance (w : I2cWorld) (ticket : Nat) : Decidable (w.Done ticket) := by
  unfold I2cWorld.Done; infer_instance

/-- The task has operations of the request in front of it. -/
def I2cWorld.Pending (w : I2cWorld) (ticket : Nat) : Prop :=
  (∃ req, (ticket, req) ∈ w.i2cQueue ∧ req.ops ≠ []) ∨ w.task.works = some ticket

/-- The task works on the request it has taken. -/
theorem ticket_of_works {task : I2cTask} (h : task.works = some ticket) :
    task.ticket = some ticket := by
  obtain ⟨req, op, ops, failCount, result, rfl⟩ := task_of_works h
  rfl

/-- Nothing in the queue is without operations. -/
def I2cWorld.QueueOk (w : I2cWorld) : Prop := ∀ r ∈ w.i2cQueue, r.2.ops ≠ []

/-- A ticket that is not done is still to come. -/
theorem I2cWorld.QueueOk.pending (h : w.QueueOk) (hdone : ¬ w.Done ticket) :
    w.Pending ticket := by
  unfold I2cWorld.Done at hdone
  by_cases hworks : w.task.works = some ticket
  · exact Or.inr hworks
  · left
    have hmem : ticket ∈ w.i2cQueue.map Prod.fst := by
      by_cases hmem : ticket ∈ w.i2cQueue.map Prod.fst
      · exact hmem
      · exact absurd ⟨hmem, hworks⟩ hdone
    obtain ⟨r, hr, rfl⟩ := List.mem_map.mp hmem
    exact ⟨r.2, hr, h r hr⟩

/-! ## What the task and the senders keep -/

/-- A step of the task leaves the queue alone, or takes the request in front of it. -/
theorem i2cQueue_i2cTaskStep (env : I2cEnv) (w : I2cWorld) :
    (i2cTaskStep env w).i2cQueue = w.i2cQueue ∨
    ∃ r, w.i2cQueue = r :: (i2cTaskStep env w).i2cQueue ∧
      (i2cTaskStep env w).task = .loop r.1 r.2 r.2.ops 0 espOk := by
  unfold i2cTaskStep
  cases w.task with
  | receive =>
    cases hq : w.i2cQueue with
    | nil => exact Or.inl hq
    -- only here a request is taken
    | cons r queue => exact Or.inr ⟨r, rfl, rfl⟩
  | testQueue => exact Or.inl rfl
  | setBits => exact Or.inl rfl
  | loop t req ops failCount result =>
    cases ops with
    | nil => exact Or.inl rfl
    | cons op ops =>
      exact Or.inl (turnOf_i2cTaskLoop env t req op ops failCount result w).i2cQueue

/-- The task works on what it worked on before, or on what it takes from the queue. -/
theorem works_i2cTaskStep (h : (i2cTaskStep env w).task.works = some ticket) :
    w.task.works = some ticket ∨ ticket ∈ w.i2cQueue.map Prod.fst := by
  unfold i2cTaskStep at h
  cases htask : w.task with
  | receive =>
    cases hq : w.i2cQueue with
    | nil => simp [htask, hq, I2cTask.works] at h
    | cons r queue =>
      simp only [htask, hq] at h
      simp [Option.some.inj (ticket_of_works h)]
  | testQueue =>
    rw [htask] at h
    dsimp only at h
    split at h <;> exact absurd h.symm (Option.some_ne_none ticket)
  | setBits =>
    rw [htask] at h
    exact absurd h.symm (Option.some_ne_none ticket)
  | loop t req ops failCount result =>
    rw [htask] at h
    cases ops with
    | nil => exact absurd h.symm (Option.some_ne_none ticket)
    | cons op ops =>
      -- a turn does not change over to another request
      have hturn := turnOf_i2cTaskLoop env t req op ops failCount result w
      rw [hturn.ticket_eq (ticket_of_works h)]
      exact Or.inl rfl

/-- The operations of a request the task is done with stay done. -/
theorem done_i2cTaskStep (h : w.Done ticket) : (i2cTaskStep env w).Done ticket := by
  obtain ⟨hqueue, hworks⟩ := h
  constructor
  · obtain hsame | ⟨r, htaken, _⟩ := i2cQueue_i2cTaskStep env w
    · rwa [hsame]
    · rw [htaken, List.map_cons, List.mem_cons, not_or] at hqueue
      exact hqueue.2
  · -- the worker takes up only what it was in or what waits
    intro h'
    obtain hbefore | hmem := works_i2cTaskStep h'
    · exact hworks hbefore
    · exact hqueue hmem

/-- A new request does not bring back a ticket that is done. -/
theorem done_i2cSendAsync (hsent : ticket < w.sent) (h : w.Done ticket) (req : I2cRequest) :
    (i2cSendAsync req w).2.Done ticket := by
  unfold i2cSendAsync
  split
  · exact h
  split
  · exact h
  · refine ⟨?_, h.2⟩
    simp [h.1, Nat.ne_of_lt hsent]

/-- As long as the task does not work on a request, it stays to be worked on. -/
theorem pending_i2cTaskStep (hworks : w.task.works ≠ some ticket) (h : w.Pending ticket) :
    (i2cTaskStep env w).Pending ticket := by
  obtain ⟨req, hmem, hops⟩ := h.resolve_right hworks
  obtain hsame | ⟨r, htaken, htask⟩ := i2cQueue_i2cTaskStep env w
  · exact Or.inl ⟨req, hsame.symm ▸ hmem, hops⟩
  · rw [htaken, List.mem_cons] at hmem
    obtain rfl | hmem := hmem
    · -- the request is taken, with its operations
      right
      obtain ⟨op, ops, hcons⟩ := List.exists_cons_of_ne_nil hops
      rw [htask, hcons]
      rfl
    · exact Or.inl ⟨req, hmem, hops⟩

/-- A new request leaves what is to come. -/
theorem pending_i2cSendAsync (h : w.Pending ticket) (req : I2cRequest) :
    (i2cSendAsync req w).2.Pending ticket := by
  unfold i2cSendAsync
  split
  · exact h
  split
  · exact h
  · obtain ⟨req', hmem, hops⟩ | hworks := h
    · exact Or.inl ⟨req', List.mem_append_left _ hmem, hops⟩
    · exact Or.inr hworks

/-- A step of the worker leaves only requests with operations. -/
theorem queueOk_i2cTaskStep (h : w.QueueOk) : (i2cTaskStep env w).QueueOk := by
  obtain hsame | ⟨r, htaken, _⟩ := i2cQueue_i2cTaskStep env w
  · intro r hr
    exact h r (hsame ▸ hr)
  · intro r' hr'
    exact h r' (htaken ▸ List.mem_cons_of_mem r hr')

/-- An accepted request has operations. -/
theorem queueOk_i2cSendAsync (h : w.QueueOk) (req : I2cRequest) :
    (i2cSendAsync req w).2.QueueOk := by
  unfold i2cSendAsync
  split
  · exact h
  rename_i hops
  split
  · exact h
  · intro r hr
    obtain hr | hr := List.mem_append.mp hr
    · exact h r hr
    · rw [List.mem_singleton.mp hr]
      exact hops

/-! ## Runs -/

namespace I2cSystem

variable {s : I2cSystem} {a : I2cAction}

/-- Every step leaves only requests with operations. -/
theorem queueOk_step (h : s.world.QueueOk) : (s.step env a).world.QueueOk :=
  world_step_invariant (fun _ => queueOk_i2cTaskStep) id (fun req h => queueOk_i2cSendAsync h req) h

/-- The request was sent, and the task is done with its operations. -/
def Behind (w : I2cWorld) (ticket : Nat) : Prop := ticket < w.sent ∧ w.Done ticket

/-- What is behind the worker stays behind it. -/
theorem Behind.taskStep (h : Behind w ticket) : Behind (i2cTaskStep env w) ticket :=
  ⟨(sent_i2cTaskStep env w).symm ▸ h.1, done_i2cTaskStep h.2⟩

/-- What is behind the worker stays behind it when a request comes. -/
theorem Behind.sendAsync (h : Behind w ticket) (req : I2cRequest) :
    Behind (i2cSendAsync req w).2 ticket :=
  ⟨Nat.lt_of_lt_of_le h.1 (sent_le_i2cSendAsync req w), done_i2cSendAsync h.1 h.2 req⟩

/-- Nothing brings a request back whose operations are done. -/
theorem Behind.step (h : Behind s.world ticket) : Behind (s.step env a).world ticket :=
  @world_step_invariant env s a (Behind · ticket) (fun _ h => h.taskStep) id
    (fun req h => h.sendAsync req) h

/-! ## The condition -/

/-- A call runs out of time only if the task is done with the operations of its request. -/
def TimesOutDone (s : I2cSystem) (a : I2cAction) : Prop :=
  ∀ c ticket, a = .timeout c → s.clients c = .waiting ticket → s.world.Done ticket

/-- On the run `as`, the task never works on a request for which `i2c_send_sync` has returned
    `ESP_ERR_TIMEOUT` before. -/
def LeavesNothing (env : I2cEnv) (s : I2cSystem) (as : List I2cAction) : Prop :=
  ∀ as₁ as₂ as₃ c ticket, as = as₁ ++ as₂ ++ .task :: as₃ →
    (Machine.run (step env) s as₁).clients c = .returned (some ticket) espErrTimeout →
    (Machine.run (step env) s (as₁ ++ as₂)).world.task.works ≠ some ticket

/-- What is known of the request of a call, by where the call stands. -/
def RequestOk (w : I2cWorld) : I2cClient → Prop
  | .sent ticket | .waiting ticket => ticket < w.sent
  | .returned ticket e => e = espErrTimeout → ∀ t ∈ ticket, Behind w t
  | _ => True

/-- The request of every call that ran out of time is done. -/
def TimeoutsOk (s : I2cSystem) : Prop := ∀ c, RequestOk s.world (s.clients c)

/-- A client is as well off when more tickets are out and more is behind. -/
theorem RequestOk.mono {w' : I2cWorld} {client : I2cClient} (h : RequestOk w client)
    (hsent : w.sent ≤ w'.sent) (hbehind : ∀ t, Behind w t → Behind w' t) :
    RequestOk w' client := by
  cases client with
  | idle | cleared | woken => trivial
  | sent t | waiting t => exact Nat.lt_of_lt_of_le h hsent
  | returned t e => exact fun he t' ht' => hbehind t' (h he t' ht')

/-- Every step keeps the invariant, if calls run out of time only when their request is done. -/
theorem TimeoutsOk.step (ha : s.TimesOutDone a) (h : s.TimeoutsOk) :
    (s.step env a).TimeoutsOk := by
  refine clients_step_invariant (fun c hclient => ?_) (fun c client hmove hclient => ?_) h
  · exact hclient.mono (sent_le_step env s a) fun _ ht => ht.step
  · cases hmove with
    | stay => exact hclient
    | wake =>
      cases hc : s.clients c with
      | waiting t => trivial
      | _ =>
        rw [hc] at hclient
        exact hclient
    | clear => trivial
    | sent _ _ hsent => exact hsent
    | refused => exact fun _ t ht => absurd ht.symm (Option.some_ne_none t)
    | found => trivial
    | blocked hc =>
      rw [hc] at hclient
      exact hclient
    -- the client that gives up here: its request is behind the worker already
    | timeout hc =>
      have hsent := h c
      rw [hc] at hsent
      intro _ t ht
      obtain rfl := Option.some.inj ht
      exact Behind.step ⟨hsent, ha c _ rfl hc⟩
    | done => exact fun he => absurd he (by decide)

/-- A run on which calls run out of time only when their request is done leaves nothing. -/
theorem leavesNothing_of_meets {as : List I2cAction} (hs : s.TimeoutsOk)
    (h : Machine.Meets (step env) TimesOutDone s as) : LeavesNothing env s as := by
  intro as₁ as₂ as₃ c ticket heq hc
  rw [heq, List.append_assoc, Machine.meets_append] at h
  have hok := h.1.invariant (I := TimeoutsOk) (fun _ _ ha hs => hs.step ha) hs c
  rw [hc] at hok
  -- from the return of the call on, the request stays done
  have hbehind := @Machine.run_invariant _ _ (step env) (fun s => Behind s.world ticket)
    (fun _ _ h => h.step) _ (hok rfl ticket rfl) as₂
  rw [← Machine.run_append] at hbehind
  exact hbehind.2.2

/-! ## The condition is needed -/

/-- The task does not work on the request. -/
def Spares (ticket : Nat) (s : I2cSystem) (a : I2cAction) : Prop :=
  a = .task → s.world.task.works ≠ some ticket

/-- A ticket stays to come while the worker does not work on it. -/
theorem pending_step (ha : s.Spares ticket a) (h : s.world.Pending ticket) :
    (s.step env a).world.Pending ticket :=
  world_step_invariant (I := fun w => w.Pending ticket)
    (fun htask h => pending_i2cTaskStep (ha htask) h) id
    (fun req h => pending_i2cSendAsync h req) h

/-- Sooner or later the task works on every request that is pending. -/
theorem not_meets_spares (h : s.world.Pending ticket) (as : List I2cAction) :
    ∃ n, ¬ Machine.Meets (step env) (Spares ticket) s (as ++ List.replicate n .task) := by
  -- the task, left alone, comes to rest
  obtain ⟨n, hrest⟩ : ∃ n, (i2cTaskRun env n (Machine.run (step env) s as).world).AtRest := by
    by_cases hrest : (Machine.run (step env) s as).world.AtRest
    · exact ⟨0, hrest⟩
    · obtain ⟨n, hrest, _⟩ := i2cTaskRun_drains env hrest
      exact ⟨n, hrest⟩
  refine ⟨n, fun hspares => ?_⟩
  have hpending := hspares.invariant (I := fun s => s.world.Pending ticket)
    (fun _ _ ha h => pending_step ha h) h
  rw [Machine.run_append, world_run_replicate_task] at hpending
  obtain ⟨htask, hqueue⟩ := hrest
  obtain ⟨req, hmem, _⟩ | hworks := hpending
  · rw [hqueue] at hmem
    exact List.not_mem_nil hmem
  · rw [htask] at hworks
    exact absurd hworks.symm (Option.some_ne_none ticket)

/-- A call that runs out of time with its request pending leaves something behind. -/
theorem not_leavesNothing {past rest : List I2cAction} {c : Nat}
    (hc : (Machine.run (step env) s past).clients c = .waiting ticket)
    (h : (Machine.run (step env) s past).world.Pending ticket) :
    ∃ n, ¬ LeavesNothing env s (past ++ .timeout c :: rest ++ List.replicate n .task) := by
  have hreturned : (Machine.run (step env) s (past ++ [.timeout c])).clients c =
      .returned (some ticket) espErrTimeout := by
    rw [Machine.run_append, Machine.run_cons, Machine.run_nil]
    simp [step, timeout, hc, setClient]
  have hpending : (Machine.run (step env) s (past ++ [.timeout c])).world.Pending ticket := by
    rw [Machine.run_append, Machine.run_cons, Machine.run_nil]
    apply pending_step
    · exact fun hne => I2cAction.noConfusion hne
    · exact h
  -- the worker gets to the request sooner or later
  obtain ⟨n, hn⟩ := @not_meets_spares env ticket _ hpending rest
  refine ⟨n, fun hleaves => hn (Machine.meets_iff_forall.mpr fun as₂ a as₃ heq ha => ?_)⟩
  subst ha
  rw [← Machine.run_append]
  refine hleaves (past ++ [.timeout c]) as₂ as₃ c ticket ?_ hreturned
  simp only [List.append_assoc, List.cons_append, List.nil_append, heq]

/-- On a run, and however long the task goes on after it, the task leaves alone every request
    for which `i2c_send_sync` has returned `ESP_ERR_TIMEOUT`, exactly if each of these returns
    came when the task was done with the operations of the request. -/
theorem leavesNothing_iff_timesOutDone (env : I2cEnv) (mem : Mem) (as : List I2cAction) :
    (∀ n, LeavesNothing env (boot mem) (as ++ List.replicate n .task)) ↔
      Machine.Meets (step env) TimesOutDone (boot mem) as := by
  constructor
  · intro h
    rw [Machine.meets_iff_forall]
    intro past a rest heq c ticket ha hc
    by_cases hdone : (Machine.run (step env) (boot mem) past).world.Done ticket
    · exact hdone
    · have hboot : (boot mem).world.QueueOk := fun _ hr => absurd hr List.not_mem_nil
      have hqueue := @Machine.run_invariant _ _ (step env) (fun s => s.world.QueueOk)
        (fun _ _ h => queueOk_step h) _ hboot past
      obtain ⟨n, hn⟩ := @not_leavesNothing env ticket _ past rest c hc (hqueue.pending hdone)
      rw [heq, ha] at h
      exact absurd (h n) hn
  · intro h n
    have hboot : (boot mem).TimeoutsOk := fun _ => trivial
    apply leavesNothing_of_meets hboot
    rw [Machine.meets_append]
    refine ⟨h, Machine.meets_iff_forall.mpr fun past a rest heq c ticket ha _ => ?_⟩
    -- behind the run only the task makes steps
    have hmem : a ∈ List.replicate n I2cAction.task := by simp [heq]
    rw [List.eq_of_mem_replicate hmem] at ha
    exact I2cAction.noConfusion ha

/-- While `st25dv_read_byte` waits, its time runs out before the task has taken the request. The
    task then reads the operation and fills the byte, both on the stack of a call that has
    returned. -/
theorem not_leavesNothing_of_timeout :
    let req := st25dvReq 0 0x53 (st25dvReadByteOp 0 64)
    let as : List I2cAction := [.clear 1 req, .enqueue 1, .wait 1, .timeout 1, .task, .task]
    let s := Machine.run (step ackEnv) (boot fun _ => 0) as
    s.clients 1 = .returned (some 0) espErrTimeout ∧ s.world.mem 64 = 7 ∧
      s.world.transactions.length = 1 ∧ ¬ LeavesNothing ackEnv (boot fun _ => 0) as := by
  intro req as s
  refine ⟨by decide +kernel, by decide +kernel, by decide +kernel, fun h => ?_⟩
  have hworks := h [.clear 1 req, .enqueue 1, .wait 1, .timeout 1] [.task] [] 1 0 rfl
    (by decide +kernel)
  exact absurd (by decide +kernel) hworks

end I2cSystem

end EspTesting.I2c
