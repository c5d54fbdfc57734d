import EspTesting.Native.EventTimeManager

/-!
# One tick of the periodic events

What a request and a tick of the timer do to the table of periodic events, seen as a map from
event ids to the slots in use: a request changes the entry of its id only, and a tick counts
every entry down and posts those whose delay runs out, each once.

## Key results

- `entry_pushPeriodicEvent`: what a request changes
- `ticked_periodicEventTimerHandler`: what a tick changes and posts
- `Sound.after`: the table is a map in every run
-/

namespace EspTesting.EventTime

/-! ## The table as a map -/

/-- The event id of a slot. -/
abbrev idOf (event : PeriodicEvent) : Int := event.evn.eventId

/-- A slot without calls is free. -/
abbrev isFree (event : PeriodicEvent) : Bool := event.invoke = noCall

/-- Every slot in use is the first one with its id. -/
abbrev FirstLive (list : PeriodicEvnList) : Prop := SlotTable.FirstLive idOf isFree list

/-- The slot in use for an event id. -/
abbrev entry (list : PeriodicEvnList) : Int → Option PeriodicEvent :=
  SlotTable.entry idOf isFree list

/-- The slot a request fills. -/
def started (r : PeriodicEvent) : PeriodicEvent := { r with delay := r.initDelay }

/-- A push keeps one slot for each id. -/
theorem firstLive_pushPeriodicEvent {list : PeriodicEvnList} (h : FirstLive list)
    (r : PeriodicEvent) : FirstLive (pushPeriodicEvent list r) := by
  unfold pushPeriodicEvent
  cases hslot : slotOf list r.evn.eventId with
  | none => exact h
  | some i => exact h.set_claim hslot rfl

/-- A request changes the entry of its id only. -/
theorem entry_pushPeriodicEvent {list : PeriodicEvnList} (h : FirstLive list)
    {r : PeriodicEvent} (hslot : slotOf list (idOf r) ≠ none) :
    entry (pushPeriodicEvent list r) = Function.update (entry list) (idOf r)
      (if isFree r then none else some (started r)) := by
  obtain ⟨i, hi⟩ := Option.ne_none_iff_exists'.mp hslot
  unfold pushPeriodicEvent
  rw [hi]
  exact SlotTable.entry_set_claim h hi rfl

/-- A request without a slot changes nothing; all slots are in use then, for other ids. -/
theorem pushPeriodicEvent_of_none {list : PeriodicEvnList} {r : PeriodicEvent}
    (hslot : slotOf list (idOf r) = none) :
    pushPeriodicEvent list r = list ∧
      ∀ i, idOf (list.get i) ≠ idOf r ∧ isFree (list.get i) = false := by
  unfold pushPeriodicEvent
  rw [hslot]
  exact ⟨rfl, SlotTable.claim_eq_none_iff.mp hslot⟩

/-- Pushes keep one slot for each id. -/
theorem firstLive_foldl_push {list : PeriodicEvnList} (h : FirstLive list)
    (rs : List PeriodicEvent) : FirstLive (rs.foldl pushPeriodicEvent list) := by
  induction rs generalizing list with
  | nil => exact h
  | cons r rs ih => exact ih (firstLive_pushPeriodicEvent h r)

/-- A stop ends the entry of its id, whether there is a slot for the request or not. -/
theorem entry_push_stop {list : PeriodicEvnList} (h : FirstLive list) {r : PeriodicEvent}
    (hfree : isFree r = true) : entry (pushPeriodicEvent list r) (idOf r) = none := by
  by_cases hslot : slotOf list (idOf r) = none
  · obtain ⟨heq, hall⟩ := pushPeriodicEvent_of_none hslot
    rw [heq, SlotTable.entry_eq_none_iff h]
    exact fun i hi => absurd hi (hall i).1
  · rw [entry_pushPeriodicEvent h hslot, Function.update_self, if_pos hfree]

/-- A request for another id leaves an entry alone. -/
theorem entry_push_of_ne {list : PeriodicEvnList} (h : FirstLive list) {r : PeriodicEvent}
    {e : Int} (hne : idOf r ≠ e) : entry (pushPeriodicEvent list r) e = entry list e := by
  by_cases hslot : slotOf list (idOf r) = none
  · rw [(pushPeriodicEvent_of_none hslot).1]
  · rw [entry_pushPeriodicEvent h hslot, Function.update_of_ne hne.symm]

/-! ## Requests and ticks -/

/-- A request and the tick that drains it. -/
abbrev Request := Nat × PeriodicEvent

/-- The requests drained by the end of a tick. -/
def drainedBy (requests : List Request) (T : Nat) : List Request :=
  requests.filter fun q => q.1 ≤ T

/-- A request of a later tick is not drained yet. -/
theorem drainedBy_concat {requests : List Request} {T : Nat} {q : Request} (h : T < q.1) :
    drainedBy (requests ++ [q]) T = drainedBy requests T := by
  simp only [drainedBy, List.filter_append, List.filter_cons, List.filter_nil,
    decide_eq_true_eq, if_neg (Nat.not_le.mpr h), List.append_nil]

/-! ## A turn of the scan -/

/-- What a turn of the scan makes of a slot. -/
def countDown (event : PeriodicEvent) : PeriodicEvent :=
  if event.invoke = noCall then event
  else if event.delay ≤ 1 then
    let invoke := if event.invoke > 0 then event.invoke - 1 else event.invoke
    { event with invoke, delay := if invoke ≠ noCall then event.initDelay else 0 }
  else { event with delay := event.delay - 1 }

/-- The delay of a slot runs out in its next turn. -/
def isDue (event : PeriodicEvent) : Bool := event.delay ≤ 1

/-- Counting down keeps the id. -/
theorem idOf_countDown (event : PeriodicEvent) : idOf (countDown event) = idOf event := by
  unfold countDown
  split
  · rfl
  · split <;> rfl

/-- Counting down frees slots and takes none. -/
theorem isFree_of_countDown {event : PeriodicEvent} (h : isFree (countDown event) = false) :
    isFree event = false := by
  by_cases hfree : event.invoke = noCall
  · rw [countDown, if_pos hfree] at h
    exact h
  · exact decide_eq_false hfree

namespace TimeManager

/-- A free slot has no turn. -/
theorem scanSlot_of_free {s : TimeManager} {i : Fin periodicEvnListLen}
    (h : (s.periodicEvnList.get i).invoke = noCall) : s.scanSlot i = s :=
  if_pos h

/-- A turn of the scan counts a slot in use down and posts its event if it is due. -/
theorem scanSlot_of_live {s : TimeManager} {i : Fin periodicEvnListLen}
    (h : (s.periodicEvnList.get i).invoke ≠ noCall) :
    s.scanSlot i =
      let s' := { s with
        periodicEvnList := s.periodicEvnList.set i (countDown (s.periodicEvnList.get i)) i.isLt }
      if isDue (s.periodicEvnList.get i) then s'.sendFromHandler (s.periodicEvnList.get i).evn
      else s' := by
  unfold scanSlot countDown isDue
  generalize s.periodicEvnList.get i = event at h
  obtain ⟨evn, invoke, initDelay, delay⟩ := event
  simp only [if_neg (show ¬ invoke = noCall from h), decide_eq_true_eq]
  by_cases hdue : delay ≤ 1
  · -- the delay is 0 behind the decrement, so the slot is reloaded and its event posted
    have hzero : (if delay > 0 then (⟨evn, invoke, initDelay, delay - 1⟩ : PeriodicEvent)
        else ⟨evn, invoke, initDelay, delay⟩) = ⟨evn, invoke, initDelay, 0⟩ := by
      split
      · rw [show delay - 1 = 0 by omega]
      · rw [show delay = 0 by omega]
    simp only [hzero, hdue, if_true]
    by_cases hpos : invoke > 0
    · by_cases hlast : invoke - 1 = noCall
      · simp only [hpos, hlast, if_true, ne_eq, not_true_eq_false, if_false]
      · simp only [hpos, hlast, if_true, ne_eq, not_false_eq_true]
    · simp only [hpos, h, if_true, if_false, ne_eq, not_false_eq_true]
  · have hdec : (if delay > 0 then (⟨evn, invoke, initDelay, delay - 1⟩ : PeriodicEvent)
        else ⟨evn, invoke, initDelay, delay⟩) = ⟨evn, invoke, initDelay, delay - 1⟩ :=
      if_pos (by omega)
    have hne : delay - 1 ≠ 0 := by omega
    simp only [hdec, hne, hdue, if_false]

/-- What a scan of the slots `is` leaves and posts. -/
structure Scanned (s : TimeManager) (is : List (Fin periodicEvnListLen)) (s' : TimeManager) :
    Prop where
  queue : s'.periodicEvnQueue = s.periodicEvnQueue
  ticks : s'.ticks = s.ticks
  requests : s'.requests = s.requests
  get : ∀ j, s'.periodicEvnList.get j =
    if j ∈ is then countDown (s.periodicEvnList.get j) else s.periodicEvnList.get j
  posts : ∃ ps, s'.posts = s.posts ++ ps ∧ (∀ p ∈ ps, p.tick = s.ticks + 1) ∧
    ps.map Post.evn = ((is.map s.periodicEvnList.get).filter fun event =>
      !isFree event && isDue event).map PeriodicEvent.evn

/-- The turn of one slot. -/
theorem scanned_scanSlot (s : TimeManager) (i : Fin periodicEvnListLen) :
    s.Scanned [i] (s.scanSlot i) := by
  by_cases hfree : (s.periodicEvnList.get i).invoke = noCall
  · rw [scanSlot_of_free hfree]
    -- a free slot is left alone, and its countdown is itself
    refine ⟨rfl, rfl, rfl, fun j => ?_, [], (List.append_nil _).symm, List.forall_mem_nil _, ?_⟩
    · split
      · rename_i hj
        rw [List.mem_singleton.mp hj, countDown, if_pos hfree]
      · rfl
    · simp [isFree, hfree]
  · rw [scanSlot_of_live hfree]
    have hget : ∀ j, (s.periodicEvnList.set i (countDown (s.periodicEvnList.get i)) i.isLt).get j =
        if j ∈ [i] then countDown (s.periodicEvnList.get j) else s.periodicEvnList.get j := by
      intro j
      rw [SlotTable.get_set]
      by_cases hj : j = i
      · subst hj
        rw [if_pos rfl, if_pos (List.mem_singleton.mpr rfl)]
      · rw [if_neg hj, if_neg fun h => hj (List.mem_singleton.mp h)]
    dsimp only
    split
    · rename_i hdue
      unfold sendFromHandler
      -- due: one post, whether or not the queue has room for it
      have hpost : [(s.periodicEvnList.get i).evn] =
          (([i].map s.periodicEvnList.get).filter fun event =>
            !isFree event && isDue event).map PeriodicEvent.evn := by
        simp [isFree, hfree, hdue]
      dsimp only
      split <;> exact ⟨rfl, rfl, rfl, hget, [⟨_, _, _⟩], rfl,
        fun p hp => by rw [List.mem_singleton.mp hp], hpost⟩
    · rename_i hdue
      refine ⟨rfl, rfl, rfl, hget, [], (List.append_nil _).symm, List.forall_mem_nil _, ?_⟩
      simp [hdue]

/-- Two scans, one after the other. -/
theorem Scanned.append {s s₁ s₂ : TimeManager} {is js : List (Fin periodicEvnListLen)}
    (h₁ : s.Scanned is s₁) (h₂ : s₁.Scanned js s₂) (hdisj : ∀ j ∈ js, j ∉ is) :
    s.Scanned (is ++ js) s₂ := by
  -- the slots of the second stretch were not touched in the first
  have hsame : ∀ j ∈ js, s₁.periodicEvnList.get j = s.periodicEvnList.get j := fun j hj => by
    rw [h₁.get, if_neg (hdisj j hj)]
  obtain ⟨ps, hps, htick, hevn⟩ := h₁.posts
  obtain ⟨qs, hqs, htick', hevn'⟩ := h₂.posts
  refine ⟨h₂.queue.trans h₁.queue, h₂.ticks.trans h₁.ticks, h₂.requests.trans h₁.requests,
    fun j => ?_, ps ++ qs, by rw [hqs, hps, List.append_assoc], fun p hp => ?_, ?_⟩
  · rw [h₂.get]
    by_cases hj : j ∈ js
    · rw [if_pos hj, if_pos (List.mem_append_right _ hj), hsame j hj]
    · rw [if_neg hj, h₁.get]
      simp only [List.mem_append, hj, or_false]
  · rcases List.mem_append.mp hp with hp | hp
    · exact htick p hp
    · rw [htick' p hp, h₁.ticks]
  · rw [List.map_append, hevn, hevn', List.map_append, List.filter_append, List.map_append,
      List.map_congr_left hsame]

/-- The scan of all slots in `is`, one turn after the other. -/
theorem scanned_foldl (s : TimeManager) {is : List (Fin periodicEvnListLen)} (h : is.Nodup) :
    s.Scanned is (is.foldl scanSlot s) := by
  induction is generalizing s with
  | nil =>
    exact ⟨rfl, rfl, rfl, fun j => (if_neg List.not_mem_nil).symm, [], (List.append_nil _).symm,
      List.forall_mem_nil _, rfl⟩
  | cons i is ih =>
    rw [List.nodup_cons] at h
    exact (scanned_scanSlot s i).append (ih (s.scanSlot i) h.2) fun j hj hi =>
      h.1 (List.mem_singleton.mp hi ▸ hj)

/-- The scan of the whole table. -/
theorem scanned_scan (s : TimeManager) :
    s.Scanned (List.finRange periodicEvnListLen)
      ((List.finRange periodicEvnListLen).foldl scanSlot s) :=
  scanned_foldl s (List.nodup_finRange _)

/-- A scan of all slots counts all of them down. -/
theorem Scanned.list_eq {s s' : TimeManager}
    (h : s.Scanned (List.finRange periodicEvnListLen) s') :
    s'.periodicEvnList = s.periodicEvnList.map countDown := by
  apply Vector.ext
  intro i hi
  have hget := h.get ⟨i, hi⟩
  rw [if_pos (List.mem_finRange _)] at hget
  exact hget.trans (SlotTable.get_map countDown s.periodicEvnList ⟨i, hi⟩).symm

/-- No part of a scan takes a slot into use. -/
theorem Scanned.first {s s' : TimeManager} {is : List (Fin periodicEvnListLen)}
    (h : s.Scanned is s') (hfirst : FirstLive s.periodicEvnList) :
    FirstLive s'.periodicEvnList := by
  refine SlotTable.FirstLive.congr hfirst (fun j => ?_) fun j hj => ?_
  · rw [h.get]
    split
    · exact idOf_countDown _
    · rfl
  · -- a slot in use afterwards was in use before
    rw [h.get] at hj
    split at hj
    · exact isFree_of_countDown hj
    · exact hj

/-- A scan posts for each id the entry whose delay runs out, once. -/
theorem Scanned.posts_eq {s s' : TimeManager}
    (h : s.Scanned (List.finRange periodicEvnListLen) s') (hfirst : FirstLive s.periodicEvnList) :
    ∃ ps, s'.posts = s.posts ++ ps ∧ (∀ p ∈ ps, p.tick = s.ticks + 1) ∧
      ∀ e, (ps.map Post.evn).filter (fun evn => evn.eventId = e) =
        ((entry s.periodicEvnList e).filter isDue).toList.map PeriodicEvent.evn := by
  obtain ⟨ps, hps, htick, hevn⟩ := h.posts
  refine ⟨ps, hps, htick, fun e => ?_⟩
  -- of the slots in use, one at most has the id
  have hlive := SlotTable.filter_live_eq hfirst e
  have hswap : ∀ event : PeriodicEvent,
      (decide (event.evn.eventId = e) && (!isFree event && isDue event)) =
        (isDue event && (!isFree event && decide (idOf event = e))) := by
    intro event
    rw [← Bool.and_assoc, Bool.and_comm, Bool.and_comm (decide _)]
  have htoList : ∀ o : Option PeriodicEvent, o.toList.filter isDue = (o.filter isDue).toList := by
    intro o
    cases o with
    | none => rfl
    | some event =>
      rw [Option.filter_some, Option.toList_some, List.filter_singleton]
      cases isDue event <;> rfl
  rw [hevn, List.filter_map, List.filter_filter, ← htoList, ← hlive, List.filter_filter]
  congr 1
  exact List.filter_congr fun event _ => hswap event

/-- What a tick does: it counts every entry of the drained table down, and posts for each id
    the entry whose delay runs out, once. -/
structure Ticked (s s' : TimeManager) : Prop where
  queue : s'.periodicEvnQueue = []
  ticks : s'.ticks = s.ticks + 1
  requests : s'.requests = s.requests
  first : FirstLive s'.periodicEvnList
  entry : ∀ e, entry s'.periodicEvnList e =
    ((entry s.drain.periodicEvnList e).map countDown).filter fun event => !isFree event
  posts : ∃ ps, s'.posts = s.posts ++ ps ∧ (∀ p ∈ ps, p.tick = s.ticks + 1) ∧
    ∀ e, (ps.map Post.evn).filter (fun evn => evn.eventId = e) =
      ((EventTime.entry s.drain.periodicEvnList e).filter isDue).toList.map PeriodicEvent.evn

/-- The timer handler takes the requests, counts down and posts what is due. -/
theorem ticked_periodicEventTimerHandler {s : TimeManager} (h : FirstLive s.periodicEvnList) :
    s.Ticked s.periodicEventTimerHandler := by
  have hdrain : FirstLive s.drain.periodicEvnList := firstLive_foldl_push h _
  have hscan := scanned_scan s.drain
  unfold periodicEventTimerHandler
  generalize (List.finRange periodicEvnListLen).foldl scanSlot s.drain = s' at hscan
  refine ⟨hscan.queue, congrArg (· + 1) hscan.ticks, hscan.requests, hscan.first hdrain,
    fun e => ?_, hscan.posts_eq hdrain⟩
  show EventTime.entry s'.periodicEvnList e = _
  rw [hscan.list_eq]
  exact SlotTable.entry_map hdrain idOf_countDown (fun _ => isFree_of_countDown) e

/-! ## Every run -/

/-- The state after the actions `as`. -/
abbrev after (as : List Action) : TimeManager := Machine.run step boot as

/-- A request the queue takes. -/
theorem step_start_of_lt {s : TimeManager} (h : s.periodicEvnQueue.length < newEvnQueueLen)
    (e : Int) (ctx d : Nat) (n : Int) : s.step (.start e ctx d n) = { s with
      periodicEvnQueue := s.periodicEvnQueue ++ [⟨⟨e, ctx⟩, n, d, d⟩]
      requests := s.requests ++ [(s.ticks + 1, ⟨⟨e, ctx⟩, n, d, d⟩)] } := by
  show (s.startPeriodicEvent e ctx d n).2 = _
  unfold startPeriodicEvent
  rw [if_pos h]

/-- A request to a full queue is dropped. -/
theorem step_start_of_ge {s : TimeManager} (h : newEvnQueueLen ≤ s.periodicEvnQueue.length)
    (e : Int) (ctx d : Nat) (n : Int) : s.step (.start e ctx d n) = s := by
  show (s.startPeriodicEvent e ctx d n).2 = _
  unfold startPeriodicEvent
  rw [if_neg (Nat.not_lt.mpr h)]

/-- A request the queue takes is drained behind those already in it. -/
theorem drain_step_start {s : TimeManager} (h : s.periodicEvnQueue.length < newEvnQueueLen)
    (e : Int) (ctx d : Nat) (n : Int) :
    (s.step (.start e ctx d n)).drain.periodicEvnList =
      pushPeriodicEvent s.drain.periodicEvnList ⟨⟨e, ctx⟩, n, d, d⟩ := by
  rw [step_start_of_lt h]
  exact List.foldl_append

/-- Without requests there is nothing to drain. -/
theorem drain_of_nil {s : TimeManager} (h : s.periodicEvnQueue = []) :
    s.drain.periodicEvnList = s.periodicEvnList := by
  unfold drain
  rw [h]
  rfl

/-- A stop is a request without calls. -/
theorem step_stop (s : TimeManager) (e : Int) :
    s.step (.stop e) = s.step (.start e 0 0 noCall) := rfl

/-- The event queue is the only thing `set_event` and the event task change. -/
theorem step_setEvent (s : TimeManager) (e : Int) (ctx : Nat) :
    ∃ evnQueue, s.step (.setEvent e ctx) = { s with evnQueue } := by
  show ∃ evnQueue, (s.setEvent e ctx).2 = { s with evnQueue }
  unfold setEvent
  split
  · exact ⟨_, rfl⟩
  · exact ⟨s.evnQueue, rfl⟩

/-- What holds in every run, whatever the requests are. -/
structure Sound (s : TimeManager) : Prop where
  queue : s.requests =
    drainedBy s.requests s.ticks ++ s.periodicEvnQueue.map (Prod.mk (s.ticks + 1))
  room : s.periodicEvnQueue.length ≤ newEvnQueueLen
  first : FirstLive s.periodicEvnList
  recent : ∀ p ∈ s.posts, p.tick ≤ s.ticks

namespace Sound

/-- The manager is sound at the start. -/
theorem boot : Sound boot where
  queue := rfl
  room := Nat.zero_le _
  first := by
    intro i hi
    have hzero : TimeManager.boot.periodicEvnList.get i = PeriodicEvent.zero :=
      Vector.getElem_replicate i.isLt
    rw [hzero] at hi
    exact absurd hi Bool.noConfusion
  recent := List.forall_mem_nil _

/-- No request lies behind the next tick, which drains them all. -/
theorem drainedBy_succ {s : TimeManager} (h : s.Sound) :
    drainedBy s.requests (s.ticks + 1) = s.requests := by
  refine List.filter_eq_self.mpr fun q hq => decide_eq_true ?_
  rw [h.queue] at hq
  rcases List.mem_append.mp hq with hq | hq
  · exact Nat.le_succ_of_le (of_decide_eq_true (List.mem_filter.mp hq).2)
  · obtain ⟨r, _, rfl⟩ := List.mem_map.mp hq
    exact Nat.le_refl _

/-- Taking the requests keeps one slot for each id. -/
theorem first_drain {s : TimeManager} (h : s.Sound) : FirstLive s.drain.periodicEvnList :=
  firstLive_foldl_push h.first _

/-- A request keeps the manager sound. -/
theorem step_start {s : TimeManager} (h : s.Sound) (e : Int) (ctx d : Nat) (n : Int) :
    (s.step (.start e ctx d n)).Sound := by
  by_cases hlt : s.periodicEvnQueue.length < newEvnQueueLen
  · rw [step_start_of_lt hlt]
    refine ⟨?_, ?_, h.first, h.recent⟩
    · dsimp only
      rw [drainedBy_concat (Nat.lt_succ_self _), List.map_append, ← List.append_assoc, ← h.queue]
      rfl
    · dsimp only
      rw [List.length_append]
      exact hlt
  · rw [step_start_of_ge (Nat.not_lt.mp hlt)]
    exact h

/-- Every action keeps the manager sound. -/
theorem step {s : TimeManager} (h : s.Sound) (a : Action) : (s.step a).Sound := by
  cases a with
  | start e ctx d n => exact h.step_start e ctx d n
  | stop e => exact h.step_start e 0 0 noCall
  | tick =>
    -- the requests are taken, and the tick is counted
    have htick := ticked_periodicEventTimerHandler h.first
    show s.periodicEventTimerHandler.Sound
    refine ⟨?_, ?_, htick.first, fun p hp => ?_⟩
    · rw [htick.queue, htick.requests, htick.ticks, h.drainedBy_succ]
      exact (List.append_nil _).symm
    · rw [htick.queue]
      exact Nat.zero_le _
    · obtain ⟨ps, hps, hnew, _⟩ := htick.posts
      rw [hps] at hp
      rw [htick.ticks]
      rcases List.mem_append.mp hp with hp | hp
      · exact Nat.le_succ_of_le (h.recent p hp)
      · exact (hnew p hp).le
  | setEvent e ctx =>
    obtain ⟨evnQueue, heq⟩ := step_setEvent s e ctx
    rw [heq]
    exact ⟨h.queue, h.room, h.first, h.recent⟩
  | receive => exact ⟨h.queue, h.room, h.first, h.recent⟩

theorem after (as : List Action) : (after as).Sound :=
  Machine.run_invariant (fun _ a h => h.step a) boot as

end Sound

end TimeManager

end EspTesting.EventTime
