import EspTesting.Spec.I2cClientStep
import EspTesting.Spec.St25dvByte
import Mathlib.Logic.Basic

/-!
# Waiting for one's own request

All callers of `i2c_send_sync` share one completion bit: each call clears it, and `i2c_task`
sets it whenever it finds the queue empty. A call may rely on the bit as long as the task sets
it only while every call in progress has its request behind it (`Settled`). If the task sets
it in any other state, some call can return before its request is finished.

## Key results

- `finished_of_returned`: a call that returned `ESP_OK` has its request finished
- `returns_early_of_not_settled`: what can go wrong otherwise
-/

namespace EspTesting.I2c

/-! ## Requests that are finished -/

/-- The request the task works on. -/
def I2cTask.ticket : I2cTask → Option Nat
  | .loop ticket .. => some ticket
  | _ => none

/-- The request with this number was sent, and the task is done with it. -/
def I2cWorld.Finished (w : I2cWorld) (ticket : Nat) : Prop :=
  ticket < w.sent ∧ ticket ∉ w.i2cQueue.map Prod.fst ∧ w.task.ticket ≠ some ticket

instance (w : I2cWorld) (ticket : Nat) : Decidable (w.Finished ticket) := by
  unfold I2cWorld.Finished; infer_instance

variable {env : I2cEnv} {w : I2cWorld} {ticket : Nat} {req : I2cRequest}

/-- A turn of the loop does not change over to another request. -/
theorem TurnOf.ticket_eq {op : I2cOp} {ops : List I2cOp} {w' : I2cWorld}
    (h : TurnOf ticket req op ops w w') {t : Nat} (ht : w'.task.ticket = some t) : t = ticket := by
  obtain htask | ⟨rest, failCount, result, _, htask⟩ := h.task
  · rw [htask] at ht
    exact absurd ht.symm (Option.some_ne_none t)
  · rw [htask] at ht
    exact (Option.some.inj ht).symm

/-- A step of the task finishes requests and begins no other than those in the queue. -/
theorem I2cWorld.Finished.taskStep (h : w.Finished ticket) :
    (i2cTaskStep env w).Finished ticket := by
  obtain ⟨hsent, hqueue, htask⟩ := h
  refine ⟨by rw [sent_i2cTaskStep]; exact hsent, ?_⟩
  unfold i2cTaskStep
  cases hw : w.task with
  | receive =>
    -- what the task takes from the queue is not the ticket, which is not there
    cases hq : w.i2cQueue with
    | nil => simp [hw, hq, I2cTask.ticket]
    | cons r queue =>
      rw [hq, List.map_cons, List.mem_cons, not_or] at hqueue
      exact ⟨hqueue.2, fun h => hqueue.1 (Option.some.inj h).symm⟩
  | testQueue =>
    refine ⟨hqueue, ?_⟩
    dsimp only
    split <;> exact (Option.some_ne_none ticket).symm
  | setBits => exact ⟨hqueue, (Option.some_ne_none ticket).symm⟩
  | loop t req ops failCount result =>
    rw [hw] at htask
    -- a request in service stays the one it is
    cases ops with
    | nil => exact ⟨hqueue, (Option.some_ne_none ticket).symm⟩
    | cons op ops =>
      have hturn := turnOf_i2cTaskLoop env t req op ops failCount result w
      refine ⟨by simp only [hturn.i2cQueue]; exact hqueue, fun h => htask ?_⟩
      rw [hturn.ticket_eq h]
      rfl

/-- Sending a request leaves those before it finished. -/
theorem I2cWorld.Finished.sendAsync (h : w.Finished ticket) (req : I2cRequest) :
    (i2cSendAsync req w).2.Finished ticket := by
  obtain ⟨hsent, hqueue, htask⟩ := h
  unfold i2cSendAsync
  split
  · exact ⟨hsent, hqueue, htask⟩
  split
  · exact ⟨hsent, hqueue, htask⟩
  · refine ⟨Nat.lt_succ_of_lt hsent, ?_, htask⟩
    rw [List.map_append, List.mem_append, not_or, List.map_singleton, List.mem_singleton]
    exact ⟨hqueue, Nat.ne_of_lt hsent⟩

/-- The completion bit is set by its own step only. -/
theorem bitI2cOperCplt_i2cTaskStep (h : w.task ≠ .setBits) :
    (i2cTaskStep env w).bitI2cOperCplt = w.bitI2cOperCplt := by
  unfold i2cTaskStep
  cases hw : w.task with
  | receive => cases w.i2cQueue <;> rfl
  | testQueue => rfl
  | setBits => exact absurd hw h
  | loop t req ops failCount result =>
    cases ops with
    | nil => rfl
    | cons op ops =>
      exact (turnOf_i2cTaskLoop env t req op ops failCount result w).bitI2cOperCplt

/-! ## The condition -/

namespace I2cSystem

/-- Every call in progress that has cleared the bits has its request behind it; a request
    without operations, which the queue refuses, does not count. -/
def Settled (s : I2cSystem) : Prop :=
  ∀ c, (∀ req, s.clients c = .cleared req → req.ops = []) ∧
    ∀ ticket, s.clients c = .sent ticket ∨ s.clients c = .waiting ticket →
      s.world.Finished ticket

/-- `i2c_task` sets `BIT_I2C_OPER_CPLT` in settled states only. -/
def SetsSettled (s : I2cSystem) (a : I2cAction) : Prop :=
  a = .task → s.world.task = .setBits → s.Settled

/-- Every call that returned `ESP_OK` has its request finished. -/
def OkFinished (s : I2cSystem) : Prop :=
  ∀ c ticket, s.clients c = .returned (some ticket) espOk → s.world.Finished ticket

/-! ## The invariant -/

/-- What a task may rely on where it stands. -/
def ClientOk (w : I2cWorld) : I2cClient → Prop
  | .idle | .waiting _ => True
  | .cleared req => w.bitI2cOperCplt = true → req.ops = []
  | .sent ticket => w.bitI2cOperCplt = true → w.Finished ticket
  | .woken ticket => w.Finished ticket
  | .returned ticket e => e = espOk → ∀ t ∈ ticket, w.Finished t

/-- Every task may rely on this. -/
def Ok (s : I2cSystem) : Prop := ∀ c, ClientOk s.world (s.clients c)

variable {s : I2cSystem} {c : Nat}

/-- A step of the world that sets no bit and keeps finished requests finished. -/
theorem ClientOk.mono {w w' : I2cWorld} {client : I2cClient} (h : ClientOk w client)
    (hbit : w'.bitI2cOperCplt = true → w.bitI2cOperCplt = true)
    (hfinished : ∀ t, w.Finished t → w'.Finished t) : ClientOk w' client := by
  cases client with
  | idle | waiting => trivial
  | cleared req => exact fun h' => h (hbit h')
  | sent t => exact fun h' => hfinished t (h (hbit h'))
  | woken t => exact hfinished t h
  | returned t e => exact fun he t' ht' => hfinished t' (h he t' ht')

/-- Every step keeps the invariant, if the task sets the bit in settled states only. -/
theorem Ok.step {a : I2cAction} (ha : s.SetsSettled a) (h : s.Ok) : (s.step env a).Ok := by
  refine clients_step_invariant (fun c hclient => ?_) (fun c client hmove hclient => ?_) h
  · obtain ⟨htask, heq⟩ | heq | heq | ⟨req, heq⟩ := world_step_cases env s a <;> rw [heq]
    · by_cases hset : s.world.task = .setBits
      · -- the completion bit is set in a settled state, so it tells the truth
        obtain ⟨hcleared, hsent⟩ := ha htask hset c
        cases hc : s.clients c with
        | idle | waiting => trivial
        | cleared req => exact fun _ => hcleared req hc
        | sent t => exact fun _ => (hsent t (Or.inl hc)).taskStep
        | woken t =>
          rw [hc] at hclient
          exact I2cWorld.Finished.taskStep hclient
        | returned t e =>
          rw [hc] at hclient
          exact fun he t' ht' => (hclient he t' ht').taskStep
      · apply hclient.mono
        · intro hbit
          rwa [bitI2cOperCplt_i2cTaskStep hset] at hbit
        · exact fun _ ht => ht.taskStep
    · exact hclient
    · exact hclient.mono (fun hbit => Bool.noConfusion hbit) fun _ ht => ht
    · exact hclient.mono (fun hbit => bitI2cOperCplt_sendAsync req s.world ▸ hbit)
        fun _ ht => ht.sendAsync req
  · cases hmove with
    | stay => exact hclient
    | wake hset =>
      cases hc : s.clients c with
      | waiting t =>
        exact ((ha rfl hset c).2 t (Or.inr hc)).taskStep
      | _ =>
        rw [hc] at hclient
        exact hclient
    | clear hbit => exact fun hbit' => absurd (hbit'.symm.trans hbit) Bool.noConfusion
    | @sent req hc hok _ =>
      intro hbit
      -- with the bit set the request has no operations, and is not taken
      rw [hc] at hclient
      unfold i2cSendAsync at hok
      rw [if_pos (hclient hbit)] at hok
      exact absurd (show espErrInvalidArg = espOk from hok) (by decide)
    | refused => exact fun _ t ht => absurd ht.symm (Option.some_ne_none t)
    | found hc hbit =>
      rw [hc] at hclient
      exact hclient hbit
    | blocked => trivial
    | timeout => exact fun he => absurd he (by decide)
    | done hc =>
      rw [hc] at hclient
      intro _ t ht
      obtain rfl := Option.some.inj ht
      exact hclient

theorem Ok.okFinished (h : s.Ok) : s.OkFinished := by
  intro c ticket hc
  have hclient := h c
  rw [hc] at hclient
  exact hclient rfl ticket rfl

/-- In every run in which `i2c_task` sets the completion bit in settled states only, a call of
    `i2c_send_sync` that has returned `ESP_OK` has its own request finished. -/
theorem finished_of_returned (env : I2cEnv) (mem : Mem) {as : List I2cAction}
    (h : Machine.Meets (step env) SetsSettled (boot mem) as) :
    (Machine.run (step env) (boot mem) as).OkFinished :=
  (h.invariant (I := Ok) (fun _ _ ha hs => hs.step ha) fun _ => trivial).okFinished

/-- Two tasks whose requests are worked off in one go. -/
theorem finished_of_returned_ack :
    let req := st25dvReq 0 0x53 (st25dvReadByteOp 0 64)
    OkFinished (Machine.run (step ackEnv) (boot fun _ => 0) [.async 2 req, .clear 1 req,
      .enqueue 1, .wait 1, .task, .task, .task, .task, .task, .task, .task, .task, .task,
      .done 1]) := by
  intro req
  refine finished_of_returned ackEnv _ ⟨?_, ?_, ?_, ?_, ?_, ?_, ?_, ?_, ?_, ?_, ?_, ?_, ?_, ?_,
    trivial⟩
  case refine_13 =>
    -- the task sets the bit with both requests behind it
    let s := Machine.run (step ackEnv) (boot fun _ => 0) [.async 2 req, .clear 1 req, .enqueue 1,
      .wait 1, .task, .task, .task, .task, .task, .task, .task, .task]
    have hfinished : s.world.Finished 1 := by decide +kernel
    have hclients : ∀ c, s.clients c = .waiting 1 ∨ s.clients c = .idle := by
      intro c
      have hclient : s.clients c = if c = 1 then .waiting 1 else if c = 1 then .sent 1 else
        if c = 1 then .cleared req else .idle := rfl
      rw [hclient]
      by_cases hc : c = 1
      · exact Or.inl (if_pos hc)
      · simp only [if_neg hc, or_true]
    intro _ _ c
    refine ⟨fun req h => ?_, fun ticket h => ?_⟩
    · rcases hclients c with hc | hc <;> exact I2cClient.noConfusion (hc.symm.trans h)
    · rcases hclients c with hc | hc
      · rcases h with h | h
        · exact I2cClient.noConfusion (hc.symm.trans h)
        · cases hc.symm.trans h
          exact hfinished
      · rcases h with h | h <;> exact I2cClient.noConfusion (hc.symm.trans h)
  all_goals exact fun _ h => absurd h (by decide +kernel)

/-! ## The condition is needed -/

/-- The step that sets the bit. -/
theorem taskStep_setBits (h : s.world.task = .setBits) : s.taskStep env =
    ⟨{ s.world with bitI2cOperCplt := true, task := .receive }, fun c => wake (s.clients c)⟩ := by
  simp only [I2cSystem.taskStep, i2cTaskStep, h, if_true]

/-- Letting the task run is what the task does on its own. -/
theorem world_run_replicate_task (n : Nat) :
    (Machine.run (step env) s (List.replicate n .task)).world = i2cTaskRun env n s.world := by
  induction n generalizing s with
  | zero => rfl
  | succ n ih =>
    rw [List.replicate_succ, Machine.run_cons]
    refine ih.trans ?_
    by_cases hrunning : s.world.running = true
    · simp only [i2cTaskRun, Loop.iterate, hrunning, if_true]
      rfl
    · have hrest : s.world.AtRest := by
        rwa [running_eq_true_iff, not_not] at hrunning
      have hstep : (s.taskStep env).world = s.world := by
        simp only [I2cSystem.taskStep, i2cTaskStep, hrest.1, hrest.2]
      rw [I2cSystem.step, hstep, i2cTaskRun_of_atRest hrest, i2cTaskRun_of_atRest hrest]

/-- Letting the task run does not move a call that has not sent its request. -/
theorem clients_run_replicate_task {req : I2cRequest} (hc : s.clients c = .cleared req)
    (n : Nat) :
    (Machine.run (step env) s (List.replicate n .task)).clients c = .cleared req := by
  induction n generalizing s with
  | zero => exact hc
  | succ n ih =>
    have hc' : (s.taskStep env).clients c = .cleared req := by
      simp only [I2cSystem.taskStep, hc, wake, ite_self]
    exact ih hc'

/-- A call that has cleared the bits can be overtaken by the completion of other requests. -/
theorem returns_early_of_cleared (hbit : s.world.bitI2cOperCplt = true) {req : I2cRequest}
    (hc : s.clients c = .cleared req) (hops : req.ops ≠ []) :
    ∃ as, ¬ (Machine.run (step env) s as).OkFinished := by
  obtain ⟨n, hrest, hset⟩ : ∃ n, (i2cTaskRun env n s.world).AtRest ∧
      (i2cTaskRun env n s.world).bitI2cOperCplt = true := by
    by_cases h : s.world.AtRest
    · exact ⟨0, h, hbit⟩
    · exact i2cTaskRun_drains env h
  have hworld := @world_run_replicate_task env s n
  have hclient := @clients_run_replicate_task env s c req hc n
  refine ⟨List.replicate n .task ++ [.enqueue c, .wait c, .done c], ?_⟩
  rw [Machine.run_append]
  generalize Machine.run (step env) s (List.replicate n .task) = s₁ at hworld hclient
  rw [← hworld] at hrest hset
  -- the request sent stands in the queue when the call returns
  have hreturn : Machine.run (step env) s₁ [.enqueue c, .wait c, .done c] =
      ⟨sentTo req s₁.world, fun c' => if c' = c then .returned (some s₁.world.sent) espOk
        else s₁.clients c'⟩ := by
    have henqueue : s₁.enqueue c =
        I2cSystem.setClient { s₁ with world := sentTo req s₁.world } c (.sent s₁.world.sent) := by
      simp only [I2cSystem.enqueue, hclient, i2cSendAsync_of_rest hrest hops, if_true]
    have hsent : (sentTo req s₁.world).bitI2cOperCplt = true := hset
    simp only [Machine.run_cons, Machine.run_nil, I2cSystem.step, henqueue, I2cSystem.wait,
      I2cSystem.done, I2cSystem.setClient, hsent, if_true]
    congr 1
    funext c'
    by_cases hc' : c' = c <;> simp only [hc', if_true, if_false]
  rw [hreturn]
  intro h
  obtain ⟨_, hqueue, _⟩ := h c s₁.world.sent (if_pos rfl)
  exact hqueue (List.mem_singleton.mpr rfl)

/-- If the task sets the bit in any other state, some call may return `ESP_OK` too early. -/
theorem returns_early_of_not_settled (hset : s.world.task = .setBits) (h : ¬ s.Settled) :
    ∃ as, ¬ (Machine.run (step env) s as).OkFinished := by
  have hstep := @taskStep_setBits env s hset
  simp only [Settled, not_forall, not_and_or] at h
  obtain ⟨c, ⟨req, hc, hops⟩ | ⟨ticket, hc, hunfinished⟩⟩ := h
  · -- the call sends its request behind the completion of all others
    have hc' : (s.taskStep env).clients c = .cleared req := by simp only [hstep, hc, wake]
    have hbit : (s.taskStep env).world.bitI2cOperCplt = true := by rw [hstep]
    obtain ⟨as, has⟩ := @returns_early_of_cleared env _ c hbit req hc' hops
    exact ⟨.task :: as, has⟩
  · -- the bit ends the wait for a request that is still in the queue
    have hworld : ¬ (s.taskStep env).world.Finished ticket := by
      rw [hstep]
      rintro ⟨hsent, hqueue, _⟩
      exact hunfinished ⟨hsent, hqueue, by rw [hset]; exact (Option.some_ne_none ticket).symm⟩
    have hreturn : ∃ as, (Machine.run (step env) s as).world = (s.taskStep env).world ∧
        (Machine.run (step env) s as).clients c = .returned (some ticket) espOk := by
      obtain hc | hc := hc
      · refine ⟨[.task, .wait c, .done c], ?_⟩
        simp [I2cSystem.step, hstep, hc, wake, I2cSystem.wait, I2cSystem.done,
          I2cSystem.setClient]
      · refine ⟨[.task, .done c], ?_⟩
        simp [I2cSystem.step, hstep, hc, wake, I2cSystem.done, I2cSystem.setClient]
    obtain ⟨as, heq, hclient⟩ := hreturn
    exact ⟨as, fun h => hworld (heq ▸ h c ticket hclient)⟩

/-- While the task has worked off a request and found the queue empty, a second task clears the
    bits. The bit then set for the first request ends the wait for the second one, which is
    still in the queue. -/
theorem not_okFinished_of_late_bit :
    let req := st25dvReq 0 0x53 (st25dvReadByteOp 0 64)
    let s := Machine.run (step ackEnv) (boot fun _ => 0) [.clear 1 req, .enqueue 1, .wait 1, .task,
      .task, .task, .task, .clear 2 req, .task, .enqueue 2, .wait 2, .done 2]
    s.clients 2 = .returned (some 1) espOk ∧ s.world.i2cQueue = [(1, req)] ∧ ¬ s.OkFinished := by
  intro req s
  have hclient : s.clients 2 = .returned (some 1) espOk := by decide +kernel
  have hunfinished : ¬ s.world.Finished 1 := by decide +kernel
  exact ⟨hclient, by decide +kernel, fun h => hunfinished (h 2 1 hclient)⟩

end I2cSystem

end EspTesting.I2c
