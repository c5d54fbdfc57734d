import EspTesting.Native.I2cClients
import EspTesting.Spec.I2cTask

/-!
# Steps of the tasks that share the I2C worker

What an action does to the worker, and what it does to each of the tasks, said once. An
invariant of the worker is then shown for a step of `i2c_task` and for sending, and one of the
tasks for each of their moves (`ClientMove`).

## Key results

- `world_step_invariant`
- `clients_step_invariant`
-/

namespace EspTesting.I2c

variable {env : I2cEnv} {w : I2cWorld} {req : I2cRequest}

/-! ## Sending -/

/-- Sending does not touch the bit. -/
theorem bitI2cOperCplt_sendAsync (req : I2cRequest) (w : I2cWorld) :
    (i2cSendAsync req w).2.bitI2cOperCplt = w.bitI2cOperCplt := by
  unfold i2cSendAsync
  split
  · rfl
  · split <;> rfl

/-- Tickets are only given out. -/
theorem sent_le_i2cSendAsync (req : I2cRequest) (w : I2cWorld) :
    w.sent ≤ (i2cSendAsync req w).2.sent := by
  unfold i2cSendAsync
  split
  · exact Nat.le_refl _
  split
  · exact Nat.le_refl _
  · exact Nat.le_succ _

/-- A request that is accepted takes a ticket. -/
theorem lt_sent_of_ok (h : (i2cSendAsync req w).1 = espOk) :
    w.sent < (i2cSendAsync req w).2.sent := by
  unfold i2cSendAsync at h ⊢
  split at h
  · exact absurd (show espErrInvalidArg = espOk from h) (by decide)
  split at h
  · exact absurd (show espFail = espOk from h) (by decide)
  · rename_i hops hfull
    rw [if_neg hops, if_neg hfull]
    exact Nat.lt_succ_self _

namespace I2cSystem

variable {s : I2cSystem} {a : I2cAction} {c : Nat}

/-! ## The worker -/

/-- What the actions do to the worker: a step of the task, or nothing besides clearing the bits
    and sending. -/
theorem world_step_cases (env : I2cEnv) (s : I2cSystem) (a : I2cAction) :
    (a = .task ∧ (s.step env a).world = i2cTaskStep env s.world) ∨
    (s.step env a).world = s.world ∨ (s.step env a).world = s.world.clearBits ∨
      ∃ req, (s.step env a).world = (i2cSendAsync req s.world).2 := by
  cases a with
  | task => exact Or.inl ⟨rfl, rfl⟩
  | clear c req =>
    right
    simp only [step, clear]
    split
    · exact Or.inr (Or.inl rfl)
    · exact Or.inl rfl
  | enqueue c =>
    right
    simp only [step, enqueue]
    split
    · split
      · exact Or.inr (Or.inr ⟨_, rfl⟩)
      · exact Or.inl rfl
    · exact Or.inl rfl
  -- from here the world is left alone, but for `async`
  | wait c =>
    right
    simp only [step, wait]
    split <;> exact Or.inl rfl
  | timeout c =>
    right
    simp only [step, timeout]
    split <;> exact Or.inl rfl
  | done c =>
    right
    simp only [step, done]
    split <;> exact Or.inl rfl
  | async c req =>
    right
    simp only [step, async]
    split
    · exact Or.inr (Or.inr ⟨req, rfl⟩)
    · exact Or.inl rfl

/-- What the task and the senders keep is kept by every action. -/
theorem world_step_invariant {I : I2cWorld → Prop}
    (htask : a = .task → I s.world → I (i2cTaskStep env s.world))
    (hclear : I s.world → I s.world.clearBits)
    (hsend : ∀ req, I s.world → I (i2cSendAsync req s.world).2) (h : I s.world) :
    I (s.step env a).world := by
  obtain ⟨ha, heq⟩ | heq | heq | ⟨req, heq⟩ := world_step_cases env s a <;> rw [heq]
  · exact htask ha h
  · exact h
  · exact hclear h
  · exact hsend req h

/-- Tickets are only given out, by any step. -/
theorem sent_le_step (env : I2cEnv) (s : I2cSystem) (a : I2cAction) :
    s.world.sent ≤ (s.step env a).world.sent :=
  @world_step_invariant env s a (fun w => s.world.sent ≤ w.sent)
    (fun _ _ => Nat.le_of_eq (sent_i2cTaskStep env s.world).symm) id
    (fun req _ => sent_le_i2cSendAsync req s.world) (Nat.le_refl _)

/-! ## The tasks -/

/-- Where the task `c` may stand behind the action, with what it has seen of the worker. -/
inductive ClientMove (env : I2cEnv) (s : I2cSystem) (c : Nat) : I2cAction → I2cClient → Prop where
  | stay {a : I2cAction} : ClientMove env s c a (s.clients c)
  | wake (hset : s.world.task = .setBits) : ClientMove env s c .task (wake (s.clients c))
  | clear {req : I2cRequest}
      (hbit : (s.step env (.clear c req)).world.bitI2cOperCplt = false) :
      ClientMove env s c (.clear c req) (.cleared req)
  | sent {req : I2cRequest} (hc : s.clients c = .cleared req)
      (hok : (i2cSendAsync req s.world).1 = espOk)
      (hsent : s.world.sent < (s.step env (.enqueue c)).world.sent) :
      ClientMove env s c (.enqueue c) (.sent s.world.sent)
  | refused {e : EspErr} : ClientMove env s c (.enqueue c) (.returned none e)
  | found {ticket : Nat} (hc : s.clients c = .sent ticket)
      (hbit : (s.step env (.wait c)).world.bitI2cOperCplt = true) :
      ClientMove env s c (.wait c) (.woken ticket)
  | blocked {ticket : Nat} (hc : s.clients c = .sent ticket) :
      ClientMove env s c (.wait c) (.waiting ticket)
  | timeout {ticket : Nat} (hc : s.clients c = .waiting ticket) :
      ClientMove env s c (.timeout c) (.returned (some ticket) espErrTimeout)
  | done {ticket : Nat} (hc : s.clients c = .woken ticket) :
      ClientMove env s c (.done c) (.returned (some ticket) espOk)

/-- An action of the task `c'` moves no other task. -/
theorem ClientMove.setClient {c' : Nat} {client : I2cClient}
    (h : ClientMove env s c' a client) (world : I2cWorld) :
    ClientMove env s c a ((I2cSystem.setClient { s with world } c' client).clients c) := by
  show ClientMove env s c a (if c = c' then client else s.clients c)
  split
  · rename_i hc
    rw [hc]
    exact h
  · exact .stay

/-- Clearing the bit moves the client that does it. -/
theorem clientMove_clear (env : I2cEnv) (s : I2cSystem) (c' : Nat) (req : I2cRequest) (c : Nat) :
    ClientMove env s c (.clear c' req) ((s.step env (.clear c' req)).clients c) := by
  by_cases hout : (s.clients c').outside = true
  · have hstep : s.step env (.clear c' req) =
        { s with world := s.world.clearBits }.setClient c' (.cleared req) := if_pos hout
    rw [hstep]
    apply ClientMove.setClient (.clear _) s.world.clearBits
    rw [hstep]
    rfl
  · rw [show s.step env (.clear c' req) = s from if_neg hout]
    exact .stay

/-- Sending moves the client that does it. -/
theorem clientMove_enqueue (env : I2cEnv) (s : I2cSystem) (c' c : Nat) :
    ClientMove env s c (.enqueue c') ((s.step env (.enqueue c')).clients c) := by
  cases hc : s.clients c' with
  | cleared req =>
    by_cases hok : (i2cSendAsync req s.world).1 = espOk
    · have hstep : s.step env (.enqueue c') = I2cSystem.setClient
          { s with world := (i2cSendAsync req s.world).2 } c' (.sent s.world.sent) := by
        simp only [step, enqueue, hc, hok, if_true]
      rw [hstep]
      apply ClientMove.setClient (.sent hc hok _)
      rw [hstep]
      exact lt_sent_of_ok hok
    · -- the queue was full, or the request empty
      simp only [step, enqueue, hc, hok, if_false]
      exact ClientMove.setClient .refused s.world
  | _ =>
    simp only [step, enqueue, hc]
    exact .stay

/-- Waiting moves the client that does it. -/
theorem clientMove_wait (env : I2cEnv) (s : I2cSystem) (c' c : Nat) :
    ClientMove env s c (.wait c') ((s.step env (.wait c')).clients c) := by
  cases hc : s.clients c' with
  | sent ticket =>
    -- the bit is there already, or the client blocks
    by_cases hbit : s.world.bitI2cOperCplt = true
    · have hstep : s.step env (.wait c') = s.setClient c' (.woken ticket) := by
        simp only [step, wait, hc, hbit, if_true]
      rw [hstep]
      apply ClientMove.setClient (.found hc _) s.world
      rw [hstep]
      exact hbit
    · simp only [step, wait, hc, hbit]
      exact ClientMove.setClient (.blocked hc) s.world
  | _ =>
    simp only [step, wait, hc]
    exact .stay

/-- The moves are those described. -/
theorem clientMove_step (env : I2cEnv) (s : I2cSystem) (a : I2cAction) (c : Nat) :
    ClientMove env s c a ((s.step env a).clients c) := by
  cases a with
  | task =>
    -- the worker wakes who waits when it sets the bit
    show ClientMove env s c .task
      (if s.world.task = .setBits then I2cSystem.wake (s.clients c) else s.clients c)
    split
    · rename_i hset
      exact .wake hset
    · exact .stay
  | clear c' req => exact clientMove_clear env s c' req c
  | enqueue c' => exact clientMove_enqueue env s c' c
  | wait c' => exact clientMove_wait env s c' c
  | timeout c' =>
    cases hc : s.clients c' with
    | waiting ticket =>
      simp only [step, timeout, hc]
      exact ClientMove.setClient (.timeout hc) s.world
    | _ =>
      simp only [step, timeout, hc]
      exact .stay
  | done c' =>
    cases hc : s.clients c' with
    | woken ticket =>
      simp only [step, done, hc]
      exact ClientMove.setClient (.done hc) s.world
    | _ =>
      simp only [step, done, hc]
      exact .stay
  | async c' req =>
    simp only [step, async]
    split <;> exact .stay

/-- An invariant of the tasks: kept where a task stays, and by each of the moves. -/
theorem clients_step_invariant {P : I2cWorld → I2cClient → Prop}
    (hstay : ∀ c, P s.world (s.clients c) → P (s.step env a).world (s.clients c))
    (hmove : ∀ c client, ClientMove env s c a client → P (s.step env a).world (s.clients c) →
      P (s.step env a).world client)
    (h : ∀ c, P s.world (s.clients c)) (c : Nat) :
    P (s.step env a).world ((s.step env a).clients c) :=
  hmove c _ (clientMove_step env s a c) (hstay c (h c))

end I2cSystem

end EspTesting.I2c
