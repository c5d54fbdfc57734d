import EspTesting.Spec.EventTimeTick

/-!
# Stopping periodic events

A stop is a request like any other: it has an effect only if the request queue has room for
it, and `stop_periodic_event` does not report whether it had. This file says exactly when a
stop ends the posts of its event.

## Key results

- `Quiet.step`: an event without a slot stays without one until it is started
- `posts_of_active`: an event with a slot is posted by a later tick
- `stop_kept_iff`: a stop is kept exactly if it has room or nothing to stop
-/

namespace EspTesting.EventTime.TimeManager

/-- No slot is in use for the event id once the waiting requests are drained. -/
def Inactive (s : TimeManager) (e : Int) : Prop :=
  ∀ i, (s.drain.periodicEvnList.get i).evn.eventId = e →
    (s.drain.periodicEvnList.get i).invoke = noCall

instance (s : TimeManager) (e : Int) : Decidable (s.Inactive e) :=
  inferInstanceAs (Decidable (∀ _, _))

/-- No tick behind the tick `N` posted the event. -/
def NotPostedSince (s : TimeManager) (N : Nat) (e : Int) : Prop :=
  ∀ p ∈ s.posts, N < p.tick → p.evn.eventId ≠ e

/-- The action is no start of the event. -/
def Action.NotStartOf (e : Int) : Action → Prop
  | .start e' _ _ _ => e' ≠ e
  | _ => True

/-- An event is inactive exactly if it has no slot behind the requests. -/
theorem inactive_iff {s : TimeManager} (h : s.Sound) {e : Int} :
    s.Inactive e ↔ entry s.drain.periodicEvnList e = none := by
  rw [SlotTable.entry_eq_none_iff h.first_drain]
  exact forall₂_congr fun i _ => (decide_eq_true_iff).symm

/-! ## A stop that is kept -/

/-- An event that is inactive and has not been posted since the tick `N`. -/
structure Quiet (s : TimeManager) (N : Nat) (e : Int) : Prop where
  sound : s.Sound
  recent : N ≤ s.ticks
  inactive : entry s.drain.periodicEvnList e = none
  notPosted : s.NotPostedSince N e

namespace Quiet

variable {s : TimeManager} {N : Nat} {e : Int}

/-- A request that does not start the event. -/
theorem step_start (h : s.Quiet N e) {e' : Int} {n : Int} (hne : e' ≠ e ∨ n = noCall)
    (ctx d : Nat) : (s.step (.start e' ctx d n)).Quiet N e := by
  have hsound := h.sound.step (.start e' ctx d n)
  -- a request the queue takes is drained behind those that wait, one it refuses changes nothing
  by_cases hlt : s.periodicEvnQueue.length < newEvnQueueLen
  · have hinactive : entry (s.step (.start e' ctx d n)).drain.periodicEvnList e = none := by
      rw [drain_step_start hlt]
      by_cases hid : e' = e
      · rw [← hid]
        exact entry_push_stop h.sound.first_drain
          (decide_eq_true (hne.resolve_left (not_not_intro hid)))
      · exact (entry_push_of_ne h.sound.first_drain hid).trans h.inactive
    rw [step_start_of_lt hlt] at hsound hinactive ⊢
    exact ⟨hsound, h.recent, hinactive, h.notPosted⟩
  · rw [step_start_of_ge (Nat.not_lt.mp hlt)]
    exact h

/-- A tick keeps an event quiet. -/
theorem step_tick (h : s.Quiet N e) : (s.step .tick).Quiet N e := by
  have htick := ticked_periodicEventTimerHandler h.sound.first
  have hsound := h.sound.step .tick
  refine ⟨hsound, ?_, ?_, ?_⟩
  · show N ≤ s.periodicEventTimerHandler.ticks
    rw [htick.ticks]
    exact Nat.le_succ_of_le h.recent
  · have hnone := htick.entry e
    rw [h.inactive] at hnone
    rw [drain_of_nil (show (s.step .tick).periodicEvnQueue = [] from htick.queue)]
    exact hnone
  · -- what the tick posts for the event comes from its slot, and it has none in use
    obtain ⟨ps, hps, _, hevn⟩ := htick.posts
    have hnone := hevn e
    rw [h.inactive] at hnone
    intro p hp hN
    rw [show (s.step .tick).posts = s.posts ++ ps from hps] at hp
    rcases List.mem_append.mp hp with hp | hp
    · exact h.notPosted p hp hN
    · intro hid
      have hmem : p.evn ∈ (ps.map Post.evn).filter fun evn => evn.eventId = e :=
        List.mem_filter.mpr ⟨List.mem_map_of_mem hp, decide_eq_true hid⟩
      rw [hnone] at hmem
      exact List.not_mem_nil hmem

/-- An action that is no start of the event keeps it quiet. -/
theorem step (h : s.Quiet N e) {a : Action} (ha : a.NotStartOf e) : (s.step a).Quiet N e := by
  cases a with
  | start e' ctx d n => exact h.step_start (Or.inl ha) ctx d
  | stop e' => exact h.step_start (Or.inr rfl) 0 0
  | tick => exact h.step_tick
  | setEvent e' ctx =>
    have hsound := h.sound.step (.setEvent e' ctx)
    obtain ⟨evnQueue, heq⟩ := step_setEvent s e' ctx
    rw [heq] at hsound ⊢
    exact ⟨hsound, h.recent, h.inactive, h.notPosted⟩
  | receive => exact ⟨h.sound.step .receive, h.recent, h.inactive, h.notPosted⟩

/-- Without a start the event is never posted again. -/
theorem run (h : s.Quiet N e) {as : List Action} (has : ∀ a ∈ as, a.NotStartOf e) :
    (Machine.run TimeManager.step s as).Quiet N e := by
  induction as generalizing s with
  | nil => exact h
  | cons a as ih =>
    rw [List.forall_mem_cons] at has
    exact ih (h.step has.1) has.2

end Quiet

/-- A stop that has room, or nothing to stop. -/
theorem quiet_stop {s : TimeManager} (h : s.Sound) {e : Int}
    (hkept : s.periodicEvnQueue.length < newEvnQueueLen ∨ s.Inactive e) :
    (s.step (.stop e)).Quiet s.ticks e := by
  have hold : s.NotPostedSince s.ticks e := fun p hp hlt =>
    absurd (h.recent p hp) (Nat.not_le.mpr hlt)
  by_cases hlt : s.periodicEvnQueue.length < newEvnQueueLen
  · have hsound := h.step (.stop e)
    -- the stop is the last request drained
    have hinactive : entry (s.step (.stop e)).drain.periodicEvnList e = none := by
      rw [step_stop, drain_step_start hlt]
      exact entry_push_stop h.first_drain (decide_eq_true rfl)
    rw [step_stop, step_start_of_lt hlt] at hsound hinactive ⊢
    exact ⟨hsound, Nat.le_refl _, hinactive, hold⟩
  · rw [step_stop, step_start_of_ge (Nat.not_lt.mp hlt)]
    exact ⟨h, Nat.le_refl _, (inactive_iff h).mp (hkept.resolve_left hlt), hold⟩

/-! ## A stop that is lost -/

/-- A tick posts the event of a slot whose delay runs out. -/
theorem posts_of_isDue {s : TimeManager} (h : s.Sound) {e : Int} {event : PeriodicEvent}
    (hentry : entry s.drain.periodicEvnList e = some event) (hdue : isDue event = true) :
    ∃ p ∈ (s.step .tick).posts, s.ticks < p.tick ∧ p.evn.eventId = e := by
  have htick := ticked_periodicEventTimerHandler h.first
  obtain ⟨ps, hps, hnew, hevn⟩ := htick.posts
  have hmem : event.evn ∈ (ps.map Post.evn).filter fun evn => evn.eventId = e := by
    rw [hevn e, hentry, Option.filter_some, hdue]
    exact List.mem_singleton_self _
  -- it is one of the posts of this tick
  obtain ⟨hmem, hid⟩ := List.mem_filter.mp hmem
  obtain ⟨p, hp, hpevn⟩ := List.mem_map.mp hmem
  refine ⟨p, ?_, (hnew p hp).ge, ?_⟩
  · rw [show (s.step .tick).posts = s.posts ++ ps from hps]
    exact List.mem_append_right _ hp
  · rw [hpevn]
    exact of_decide_eq_true hid

/-- A tick takes one off a delay that does not run out. -/
theorem entry_of_not_isDue {s : TimeManager} (h : s.Sound) {e : Int} {event : PeriodicEvent}
    (hentry : entry s.drain.periodicEvnList e = some event) (hdue : isDue event = false) :
    entry (s.step .tick).drain.periodicEvnList e =
      some { event with delay := event.delay - 1 } := by
  have htick := ticked_periodicEventTimerHandler h.first
  obtain ⟨i, hi, _, hlive⟩ := (SlotTable.entry_eq_some_iff h.first_drain).mp hentry
  -- only the delay goes down
  have hcount : countDown event = { event with delay := event.delay - 1 } := by
    unfold countDown
    rw [if_neg (of_decide_eq_false hlive), if_neg (of_decide_eq_false hdue)]
  rw [drain_of_nil (show (s.step .tick).periodicEvnQueue = [] from htick.queue)]
  refine (htick.entry e).trans ?_
  rw [hentry, Option.map_some, hcount, Option.filter_some]
  exact if_pos (by rw [show isFree _ = isFree event from rfl, hlive]; rfl)

/-- An event with a slot in use is posted once its delay has run out. -/
theorem posts_of_active {s : TimeManager} (h : s.Sound) {e : Int} {event : PeriodicEvent}
    (hentry : entry s.drain.periodicEvnList e = some event) :
    ∃ k, ∃ p ∈ (Machine.run step s (List.replicate k .tick)).posts,
      s.ticks < p.tick ∧ p.evn.eventId = e := by
  -- the delay counts the ticks up to the next post
  induction hd : event.delay generalizing s event with
  | zero =>
    have hdue : isDue event = true := decide_eq_true (by omega)
    exact ⟨1, posts_of_isDue h hentry hdue⟩
  | succ d ih =>
    cases hdue : isDue event with
    | true => exact ⟨1, posts_of_isDue h hentry hdue⟩
    | false =>
      have hnext := entry_of_not_isDue h hentry hdue
      have hticks : (s.step .tick).ticks = s.ticks + 1 :=
        (ticked_periodicEventTimerHandler h.first).ticks
      obtain ⟨k, p, hp, htick, hid⟩ := ih (h.step .tick) hnext (by dsimp only; omega)
      refine ⟨k + 1, p, ?_, by omega, hid⟩
      rw [List.replicate_succ, Machine.run_cons]
      exact hp

/-- An event is active exactly if it has a slot behind the requests. -/
theorem not_inactive_iff {s : TimeManager} (h : s.Sound) {e : Int} :
    ¬ s.Inactive e ↔ ∃ event, entry s.drain.periodicEvnList e = some event := by
  rw [inactive_iff h]
  exact Option.ne_none_iff_exists'

/-- A stop ends the posts of its event exactly if the request queue has room for it, or if the
    event has no slot in use behind the requests that fill the queue. -/
theorem stop_kept_iff (as : List Action) (e : Int) :
    (∀ bs : List Action, (∀ a ∈ bs, a.NotStartOf e) →
      (Machine.run step (after as) (.stop e :: bs)).NotPostedSince (after as).ticks e) ↔
    (after as).periodicEvnQueue.length < newEvnQueueLen ∨ (after as).Inactive e := by
  have hsound := Sound.after as
  constructor
  · intro hkept
    by_contra hlost
    obtain ⟨hfull, hactive⟩ := not_or.mp hlost
    obtain ⟨event, hentry⟩ := (not_inactive_iff hsound).mp hactive
    -- the stop is dropped, and ticks alone lead to a post
    obtain ⟨k, p, hp, htick, hid⟩ := posts_of_active hsound hentry
    refine hkept (List.replicate k .tick) (fun a ha => ?_) p ?_ htick hid
    · rw [List.eq_of_mem_replicate ha]
      trivial
    · rw [Machine.run_cons, step_stop, step_start_of_ge (Nat.not_lt.mp hfull)]
      exact hp
  · intro hcond bs hbs
    exact ((quiet_stop hsound hcond).run hbs).notPosted

/-- An event that runs, and ten requests that wait for the next tick. -/
def requestsFull : TimeManager := after ([.start 1 0 1 (-1), .tick] ++
  (List.range 10).map fun i => .start (i + 2) 0 1 (-1))

/-- Ten requests in a tick leave no room for a stop, and the event goes on: the next tick posts
    it. -/
theorem not_stop_kept :
    ¬ (Machine.run step requestsFull [.stop 1, .tick]).NotPostedSince requestsFull.ticks 1 := by
  have hposted : ∃ p ∈ (Machine.run step requestsFull [.stop 1, .tick]).posts,
      requestsFull.ticks < p.tick ∧ p.evn.eventId = 1 := by
    decide +kernel
  obtain ⟨p, hp, htick, hid⟩ := hposted
  exact fun hkept => hkept p hp htick hid

end EspTesting.EventTime.TimeManager
