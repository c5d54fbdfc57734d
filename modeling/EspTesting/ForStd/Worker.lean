import EspTesting.ForStd.Loop
import EspTesting.ForStd.Machine

/-!
# A worker behind a queue

Jobs are sent at any time; a worker takes them from a queue and works on each step by step. What
the jobs do in the end does not depend on when they are sent: it is what they do if each is sent
when the one before is done.

## Key results

- `run_serial`: every interleaving has the effect of serving the jobs one after the other
- `queue_suffix_run`: jobs are taken in the order in which they are sent
- `rel_serial`: what no step takes back still holds when all jobs are served
-/

/-- A worker on the states `σ` with jobs from `ι`. A job is begun by `take`, and `work` is one step
    of a worker that is busy. -/
structure Worker (σ ι : Type _) where
  busy : σ → Bool
  take : ι → σ → σ
  work : σ → σ
  weight : σ → Nat
  decreases : Loop.Decreases busy work weight

namespace Worker

variable {σ ι : Type _} (W : Worker σ ι)

/-! ## One job after the other -/

/-- The job in work is done. -/
def finish (s : σ) : σ := Loop.run W.busy W.work W.weight s

/-- A job is begun and done. -/
def serve (s : σ) (job : ι) : σ := W.finish (W.take job s)

/-- The job in work is done, then the jobs are served. -/
def serial (s : σ) (jobs : List ι) : σ := jobs.foldl W.serve (W.finish s)

variable {W} {s : σ}

/-- Work on the job in hand is part of finishing it. -/
theorem finish_work (h : W.busy s = true) : W.finish (W.work s) = W.finish s :=
  (Loop.run_step W.decreases h).symm

/-- An idle worker has nothing to finish. -/
theorem finish_of_idle (h : W.busy s = false) : W.finish s = s := Loop.run_done h

/-- More jobs are served behind the others. -/
theorem serial_append (jobs more : List ι) :
    W.serial s (jobs ++ more) = more.foldl W.serve (W.serial s jobs) :=
  List.foldl_append

/-- A relation that every step keeps up. -/
theorem rel_serial {R : σ → σ → Prop} (hrefl : ∀ s, R s s)
    (htrans : ∀ {s s' s''}, R s s' → R s' s'' → R s s'')
    (hwork : ∀ s, W.busy s = true → R s (W.work s)) (htake : ∀ job s, R s (W.take job s))
    (s : σ) (jobs : List ι) : R s (W.serial s jobs) := by
  -- by the loop of the worker
  have hfinish : ∀ s, R s (W.finish s) := by
    intro s
    obtain ⟨n, _, hexit⟩ := Loop.exits_run W.decreases s
    exact hexit.invariant (fun s' hbusy h => htrans h (hwork s' hbusy)) (hrefl s)
  -- by the jobs, one after the other
  have hserve : ∀ s', R s s' → R s (jobs.foldl W.serve s') := by
    induction jobs with
    | nil => exact fun s' h => h
    | cons job jobs ih =>
      exact fun s' h => ih _ (htrans h (htrans (htake job s') (hfinish _)))
  exact hserve _ (hfinish s)

/-! ## Steps in any order -/

/-- The jobs that wait, and the state of the worker. -/
structure State (σ ι : Type _) where
  queue : List ι
  state : σ

/-- A job is sent, or the worker makes a step. -/
inductive Action (ι : Type _) where
  | send (job : ι)
  | work

/-- The job that is sent. -/
def Action.job : Action ι → Option ι
  | send job => some job
  | work => none

variable (W) in
/-- One step; a worker that is not busy takes the first job. -/
def step (s : State σ ι) : Action ι → State σ ι
  | .send job => { s with queue := s.queue ++ [job] }
  | .work =>
    if W.busy s.state then { s with state := W.work s.state }
    else
      match s.queue with
      | [] => s
      | job :: queue => { queue, state := W.take job s.state }

/-- A step leaves the serial result of what waits as it was, but for the job it sends. -/
theorem step_serial (s : State σ ι) (a : Action ι) :
    W.serial (W.step s a).state (W.step s a).queue =
      W.serial s.state (s.queue ++ a.job.toList) := by
  cases a with
  | send job => rfl
  | work =>
    rw [show Action.work.job.toList = ([] : List ι) from rfl, List.append_nil]
    unfold step
    cases hbusy : W.busy s.state with
    | true => exact congrArg (s.queue.foldl W.serve) (finish_work hbusy)
    -- the next job of the queue is taken: that is what serving it begins with
    | false =>
      cases hqueue : s.queue with
      | nil => simp only [Bool.false_eq_true, if_false, hqueue]
      | cons job queue =>
        simp only [Bool.false_eq_true, if_false]
        rw [serial, serial, List.foldl_cons, finish_of_idle hbusy]
        rfl

/-- Every interleaving has the effect of serving the jobs one after the other. -/
theorem run_serial (s : State σ ι) (as : List (Action ι)) :
    W.serial (Machine.run W.step s as).state (Machine.run W.step s as).queue =
      W.serial s.state (s.queue ++ as.filterMap Action.job) := by
  induction as generalizing s with
  | nil => rw [List.filterMap_nil, List.append_nil, Machine.run_nil]
  | cons a as ih =>
    rw [Machine.run_cons, ih, serial_append, step_serial, serial_append, serial_append,
      ← List.foldl_append]
    apply congrArg fun more => List.foldl W.serve (W.serial s.state s.queue) more
    cases a <;> rfl

/-- Jobs are taken in the order in which they are sent. -/
theorem queue_suffix_run (s : State σ ι) (as : List (Action ι)) :
    (Machine.run W.step s as).queue <:+ s.queue ++ as.filterMap Action.job := by
  induction as generalizing s with
  | nil => simp
  | cons a as ih =>
    apply (ih (W.step s a)).trans
    cases a with
    | send job => simp [step, Action.job]
    | work =>
      simp only [step, List.filterMap_cons_none (show Action.work.job = (none : Option ι) from rfl)]
      split
      · -- a busy worker takes nothing
        exact List.suffix_rfl
      · split
        · exact List.suffix_rfl
        · rename_i job queue hqueue
          rw [hqueue]
          exact List.suffix_cons job _

end Worker
