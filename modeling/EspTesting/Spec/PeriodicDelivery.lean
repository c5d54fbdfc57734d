import EspTesting.Spec.PeriodicStop

/-!
# Delivery of counted events

The timer handler takes a call off the count of a slot whether the event queue takes the event
or not. This file follows one started id through a run: each tick at which it is due takes one
off the count, and adds one to the events delivered only if the event queue has room at the
slot's turn, behind the due slots in front of it.

## Key results

- `evnQueue_run`: what the queue took is what the event task received and what still waits
- `delivered_tick_of_some`: what a tick adds for an id that is due
- `delivered_iff`: the requested number is delivered exactly if there is room at every turn
-/

namespace EspTesting.EventTime.TimeManager

/-- The number of events `evn` the event queue took from the timer behind the tick `N`. -/
def delivered (N : Nat) (evn : DevEvn) (s : TimeManager) : Nat :=
  (s.taken.filter fun p => N < p.tick ∧ p.evn = evn).length

/-- The state of the next tick in front of the turn of the slot `i`. -/
def beforeTurn (s : TimeManager) (i : Fin periodicEvnListLen) : TimeManager :=
  ((List.finRange periodicEvnListLen).take i).foldl scanSlot s.drain

/-- The slot is in use, and its delay runs out in its next turn. -/
abbrev isPosting (event : PeriodicEvent) : Bool := !isFree event && isDue event

/-- How many slots in front of the slot `i` are due at the next tick. -/
def dueInFront (s : TimeManager) (i : Fin periodicEvnListLen) : Nat :=
  ((List.finRange periodicEvnListLen).take i).countP fun j =>
    isPosting (s.drain.periodicEvnList.get j)

/-- If the event is due at the next tick, the event queue has room for it behind the events of
    the slots in front. -/
def RoomFor (s : TimeManager) (e : Int) : Prop :=
  ∀ i, (s.drain.periodicEvnList.get i).evn.eventId = e →
    (s.drain.periodicEvnList.get i).invoke ≠ noCall →
    (s.drain.periodicEvnList.get i).delay ≤ 1 →
    s.evnQueue.length + s.dueInFront i < evnQueueLen

instance (s : TimeManager) (e : Int) : Decidable (s.RoomFor e) :=
  inferInstanceAs (Decidable (∀ _, _))

/-- The action is no start and no stop of the event. -/
def Action.NotRequestOf (e : Int) : Action → Prop
  | .start e' _ _ _ => e' ≠ e
  | .stop e' => e' ≠ e
  | _ => True

/-! ## What the event queue took -/

/-- The event queue took exactly the posts that found room. -/
def TakenIfRoom (s : TimeManager) : Prop :=
  s.taken = s.posts.filter fun p => p.waiting < evnQueueLen

/-- The turn of a slot posts, and the queue takes it if there is room. -/
theorem TakenIfRoom.scanSlot {s : TimeManager} (h : s.TakenIfRoom) (i : Fin periodicEvnListLen) :
    (s.scanSlot i).TakenIfRoom := by
  by_cases hfree : (s.periodicEvnList.get i).invoke = noCall
  · rw [scanSlot_of_free hfree]
    exact h
  · rw [scanSlot_of_live hfree]
    dsimp only
    split
    · unfold sendFromHandler TakenIfRoom
      dsimp only
      split
      · rename_i hroom
        rw [List.filter_append, List.filter_singleton, decide_eq_true hroom, ← h]
        rfl
      · rename_i hfull
        rw [List.filter_append, List.filter_singleton, decide_eq_false hfull, ← h]
        exact (List.append_nil _).symm
    · exact h

/-- So do the turns of all slots. -/
theorem TakenIfRoom.foldl {s : TimeManager} (h : s.TakenIfRoom)
    (is : List (Fin periodicEvnListLen)) : (is.foldl TimeManager.scanSlot s).TakenIfRoom := by
  induction is generalizing s with
  | nil => exact h
  | cons i is ih => exact ih (h.scanSlot i)

/-- So does every action. -/
theorem TakenIfRoom.step {s : TimeManager} (h : s.TakenIfRoom) (a : Action) :
    (s.step a).TakenIfRoom := by
  have hstart : ∀ e ctx d n, (s.step (.start e ctx d n)).TakenIfRoom := by
    intro e ctx d n
    by_cases hlt : s.periodicEvnQueue.length < newEvnQueueLen
    · rw [step_start_of_lt hlt]
      exact h
    · rw [step_start_of_ge (Nat.not_lt.mp hlt)]
      exact h
  cases a with
  | start e ctx d n => exact hstart e ctx d n
  | stop e => exact hstart e 0 0 noCall
  | tick =>
    have hscan := TakenIfRoom.foldl (s := s.drain) h (List.finRange periodicEvnListLen)
    show s.periodicEventTimerHandler.TakenIfRoom
    unfold periodicEventTimerHandler
    generalize (List.finRange periodicEvnListLen).foldl TimeManager.scanSlot s.drain = s' at hscan
    exact hscan
  | setEvent e ctx =>
    obtain ⟨evnQueue, heq⟩ := step_setEvent s e ctx
    rw [heq]
    exact h
  | receive => exact h

/-! ## What the event queue holds -/

/-- The events that the event queue took from the timer in a step. -/
def fromTimer (s : TimeManager) : Action → List DevEvn
  | .tick => ((s.step .tick).taken.drop s.taken.length).map Post.evn
  | _ => []

/-- The event that the event queue took from `set_event` in a step. -/
def fromSetEvent (s : TimeManager) : Action → List DevEvn
  | .setEvent e ctx => if (s.setEvent e ctx).1 then [⟨e, ctx⟩] else []
  | _ => []

/-- The event that the event task received in a step. -/
def received (s : TimeManager) : Action → List DevEvn
  | .receive => s.evnQueue.take 1
  | _ => []

/-- What the queue took from the timer between two states went in behind what it held. -/
def Queued (s s' : TimeManager) : Prop :=
  ∃ ts, s'.taken = s.taken ++ ts ∧ s'.evnQueue = s.evnQueue ++ ts.map Post.evn

/-- Nothing is posted. -/
theorem Queued.refl (s : TimeManager) : s.Queued s :=
  ⟨[], (List.append_nil _).symm, (List.append_nil _).symm⟩

/-- What the turn of a slot puts into the queue is noted. -/
theorem queued_scanSlot (s : TimeManager) (i : Fin periodicEvnListLen) :
    s.Queued (s.scanSlot i) := by
  by_cases hfree : (s.periodicEvnList.get i).invoke = noCall
  · rw [scanSlot_of_free hfree]
    exact .refl s
  · rw [scanSlot_of_live hfree]
    dsimp only
    split
    · unfold sendFromHandler
      dsimp only
      split
      · -- room: the post is taken, and its event waits behind the others
        exact ⟨[_], rfl, rfl⟩
      · exact .refl s
    · exact .refl s

/-- What turns put into the queue is noted. -/
theorem queued_foldl (s : TimeManager) (is : List (Fin periodicEvnListLen)) :
    s.Queued (is.foldl scanSlot s) := by
  induction is generalizing s with
  | nil => exact .refl s
  | cons i is ih =>
    obtain ⟨ts, htaken, hqueue⟩ := queued_scanSlot s i
    obtain ⟨us, htaken', hqueue'⟩ := ih (s.scanSlot i)
    refine ⟨ts ++ us, ?_, ?_⟩
    · rw [List.foldl_cons, htaken', htaken, List.append_assoc]
    · rw [List.foldl_cons, hqueue', hqueue, List.map_append, List.append_assoc]

/-- A tick puts the events that it says were taken into the queue. -/
theorem queued_tick (s : TimeManager) :
    (s.step .tick).taken.map Post.evn = s.taken.map Post.evn ++ s.fromTimer .tick ∧
      (s.step .tick).evnQueue = s.evnQueue ++ s.fromTimer .tick := by
  have hqueued := queued_foldl s.drain (List.finRange periodicEvnListLen)
  have htick : s.Queued (s.step .tick) := by
    show s.Queued s.periodicEventTimerHandler
    unfold periodicEventTimerHandler
    generalize (List.finRange periodicEvnListLen).foldl scanSlot s.drain = s' at hqueued
    exact hqueued
  obtain ⟨ts, htaken, hqueue⟩ := htick
  -- what the timer added is what is behind the rest
  have htimer : s.fromTimer .tick = ts.map Post.evn := by
    show ((s.step .tick).taken.drop s.taken.length).map Post.evn = _
    rw [htaken, List.drop_left]
  rw [htimer, htaken, hqueue, List.map_append]
  exact ⟨rfl, rfl⟩

/-- The queue is first in, first out, and `taken` is what the timer put into it. -/
theorem evnQueue_step (s : TimeManager) (a : Action) :
    s.evnQueue ++ (s.fromTimer a ++ s.fromSetEvent a) = s.received a ++ (s.step a).evnQueue ∧
      (s.step a).taken.map Post.evn = s.taken.map Post.evn ++ s.fromTimer a := by
  have hstart : ∀ e ctx d n, (s.step (.start e ctx d n)).evnQueue = s.evnQueue ∧
      (s.step (.start e ctx d n)).taken = s.taken := by
    intro e ctx d n
    by_cases hlt : s.periodicEvnQueue.length < newEvnQueueLen
    · rw [step_start_of_lt hlt]
      exact ⟨rfl, rfl⟩
    · rw [step_start_of_ge (Nat.not_lt.mp hlt)]
      exact ⟨rfl, rfl⟩
  cases a with
  | start e ctx d n =>
    obtain ⟨hqueue, htaken⟩ := hstart e ctx d n
    simp [fromTimer, fromSetEvent, received, hqueue, htaken]
  | stop e =>
    obtain ⟨hqueue, htaken⟩ := hstart e 0 0 noCall
    rw [← step_stop] at hqueue htaken
    simp [fromTimer, fromSetEvent, received, hqueue, htaken]
  | tick =>
    obtain ⟨htaken, hqueue⟩ := s.queued_tick
    refine ⟨?_, htaken⟩
    rw [hqueue]
    exact congrArg _ (List.append_nil _)
  | setEvent e ctx =>
    show s.evnQueue ++ (if (s.setEvent e ctx).1 then [⟨e, ctx⟩] else []) =
        (s.setEvent e ctx).2.evnQueue ∧
      (s.setEvent e ctx).2.taken.map Post.evn = s.taken.map Post.evn ++ []
    unfold setEvent
    split <;> simp
  | receive =>
    show s.evnQueue ++ [] = s.evnQueue.take 1 ++ s.evnQueue.tail ∧
      s.taken.map Post.evn = s.taken.map Post.evn ++ []
    rw [← List.drop_one, List.take_append_drop, List.append_nil, List.append_nil]
    exact ⟨rfl, rfl⟩

/-- In every run the queue holds what it took from the timer and from `set_event` less what the
    event task received, and the events in `taken` are those from the timer. -/
theorem evnQueue_run (as : List Action) :
    (Machine.outputs step (fun s a => s.fromTimer a ++ s.fromSetEvent a) boot as).flatten =
        (Machine.outputs step received boot as).flatten ++ (after as).evnQueue ∧
      (after as).taken.map Post.evn = (Machine.outputs step fromTimer boot as).flatten := by
  refine ⟨Machine.run_conserves (fun s a => (evnQueue_step s a).1) boot as, ?_⟩
  -- `taken` is a queue too, that nothing leaves
  have hstep : ∀ (s : TimeManager) (a : Action),
      s.taken.map Post.evn ++ fromTimer s a = [] ++ (step s a).taken.map Post.evn :=
    fun s a => (evnQueue_step s a).2.symm
  have htaken := Machine.run_conserves hstep boot as
  rw [Machine.flatten_outputs_nil, List.nil_append] at htaken
  exact htaken.symm

/-! ## Room for an event -/

/-- The turns of a scan leave room exactly if there is room for the events that are due. -/
theorem room_foldl_iff {s : TimeManager} {is : List (Fin periodicEvnListLen)}
    (hnodup : is.Nodup) : (is.foldl scanSlot s).evnQueue.length < evnQueueLen ↔
      s.evnQueue.length + is.countP (fun j => isPosting (s.periodicEvnList.get j)) <
        evnQueueLen := by
  induction is generalizing s with
  | nil => rfl
  | cons i is ih =>
    rw [List.nodup_cons] at hnodup
    -- the slots behind have not had their turn yet
    have hsame : is.countP (fun j => isPosting ((s.scanSlot i).periodicEvnList.get j)) =
        is.countP fun j => isPosting (s.periodicEvnList.get j) := by
      refine List.countP_congr fun j hj => ?_
      rw [(scanned_scanSlot s i).get, if_neg]
      exact fun hji => hnodup.1 (List.mem_singleton.mp hji ▸ hj)
    rw [List.foldl_cons, ih hnodup.2, hsame, List.countP_cons]
    by_cases hfree : (s.periodicEvnList.get i).invoke = noCall
    · rw [scanSlot_of_free hfree]
      simp [isPosting, isFree, hfree]
    · rw [scanSlot_of_live hfree]
      cases hdue : isDue (s.periodicEvnList.get i) with
      | false => simp [isPosting, isFree, hfree, hdue]
      | true =>
        have hposts : isPosting (s.periodicEvnList.get i) = true := by
          simp [isPosting, isFree, hfree, hdue]
        simp only [if_true, sendFromHandler, hposts]
        split
        · rw [List.length_append, List.length_singleton]
          omega
        · dsimp only
          omega

/-- The state before the tick tells whether there is room at the turn of a slot. -/
theorem room_beforeTurn_iff (s : TimeManager) (i : Fin periodicEvnListLen) :
    (s.beforeTurn i).evnQueue.length < evnQueueLen ↔
      s.evnQueue.length + s.dueInFront i < evnQueueLen :=
  room_foldl_iff ((List.nodup_finRange _).sublist (List.take_sublist _ _))

/-- The event queue takes nothing from a tick to come. -/
theorem delivered_eq_zero (as : List Action) (evn : DevEvn) :
    delivered (after as).ticks evn (after as) = 0 := by
  have htaken : (after as).TakenIfRoom := Machine.run_invariant
    (I := TakenIfRoom) (fun _ a h => h.step a) (s := boot) rfl as
  have hnil : (after as).taken.filter
      (fun p => (after as).ticks < p.tick ∧ p.evn = evn) = [] := by
    refine List.filter_eq_nil_iff.mpr fun p hp hnew => ?_
    rw [htaken] at hp
    have hle := (Sound.after as).recent p (List.mem_filter.mp hp).1
    exact absurd (of_decide_eq_true hnew).1 (Nat.not_lt.mpr hle)
  unfold delivered
  rw [hnil]
  rfl

/-! ## A turn of the scan -/

/-- A turn for another id, or of a free slot. -/
theorem delivered_scanSlot_of_ne {s : TimeManager} {N : Nat} {evn : DevEvn}
    {i : Fin periodicEvnListLen}
    (h : (s.periodicEvnList.get i).invoke ≠ noCall →
      (s.periodicEvnList.get i).evn.eventId ≠ evn.eventId) :
    delivered N evn (s.scanSlot i) = delivered N evn s := by
  by_cases hfree : (s.periodicEvnList.get i).invoke = noCall
  · rw [scanSlot_of_free hfree]
  · have hne : (s.periodicEvnList.get i).evn ≠ evn := fun heq =>
      h hfree (congrArg DevEvn.eventId heq)
    rw [scanSlot_of_live hfree]
    dsimp only
    split
    · unfold sendFromHandler delivered
      dsimp only
      split
      · rw [List.filter_append, List.length_append, List.filter_singleton,
          decide_eq_false fun h => hne h.2]
        rfl
      · rfl
    · rfl

/-- The turn of a slot: an event, if it is due and has room. -/
theorem delivered_scanSlot {s : TimeManager} {N : Nat} (hN : N ≤ s.ticks)
    {i : Fin periodicEvnListLen} (hlive : (s.periodicEvnList.get i).invoke ≠ noCall) :
    delivered N (s.periodicEvnList.get i).evn (s.scanSlot i) =
      delivered N (s.periodicEvnList.get i).evn s +
        if isDue (s.periodicEvnList.get i) = true ∧ s.evnQueue.length < evnQueueLen
          then 1 else 0 := by
  rw [scanSlot_of_live hlive]
  dsimp only
  cases hdue : isDue (s.periodicEvnList.get i) with
  | true =>
    unfold sendFromHandler delivered
    simp only [if_true, true_and]
    split
    · -- the event is new, and counted
      rw [List.filter_append, List.length_append, List.filter_singleton,
        decide_eq_true ⟨Nat.lt_succ_of_le hN, rfl⟩]
      rfl
    · rfl
  | false =>
    simp only [Bool.false_eq_true, if_false, false_and]
    rfl

/-- The turns of slots for other ids. -/
theorem delivered_foldl_of_ne {s : TimeManager} {N : Nat} {evn : DevEvn}
    {is : List (Fin periodicEvnListLen)} (hnodup : is.Nodup)
    (h : ∀ i ∈ is, (s.periodicEvnList.get i).invoke ≠ noCall →
      (s.periodicEvnList.get i).evn.eventId ≠ evn.eventId) :
    delivered N evn (is.foldl scanSlot s) = delivered N evn s := by
  induction is generalizing s with
  | nil => rfl
  | cons i is ih =>
    rw [List.nodup_cons] at hnodup
    rw [List.forall_mem_cons] at h
    -- the slots behind have not had their turn yet
    have hsame : ∀ j ∈ is, (s.scanSlot i).periodicEvnList.get j = s.periodicEvnList.get j := by
      intro j hj
      rw [(scanned_scanSlot s i).get, if_neg]
      exact fun hji => hnodup.1 (List.mem_singleton.mp hji ▸ hj)
    rw [List.foldl_cons, ih hnodup.2 fun j hj => by rw [hsame j hj]; exact h.2 j hj]
    exact delivered_scanSlot_of_ne h.1

/-! ## A tick -/

/-- A tick delivers what the turns of the slots deliver. -/
theorem delivered_tick (s : TimeManager) (N : Nat) (evn : DevEvn) :
    delivered N evn (s.step .tick) =
      delivered N evn ((List.finRange periodicEvnListLen).foldl scanSlot s.drain) := by
  show delivered N evn s.periodicEventTimerHandler = _
  unfold periodicEventTimerHandler
  generalize (List.finRange periodicEvnListLen).foldl scanSlot s.drain = s'
  rfl

/-- The slots in front of a slot and those behind it. -/
theorem finRange_split {n : Nat} (i : Fin n) : List.finRange n =
    (List.finRange n).take i ++ i :: (List.finRange n).drop (i + 1) := by
  have hlen : i.val < (List.finRange n).length := by
    rw [List.length_finRange]
    exact i.isLt
  have hcons := List.drop_eq_getElem_cons hlen
  rw [List.getElem_finRange] at hcons
  exact (List.take_append_drop i.val _).symm.trans (congrArg _ hcons)

/-- A tick adds nothing for an id without a slot. -/
theorem delivered_tick_of_none {s : TimeManager} (h : s.Sound) {N : Nat} {evn : DevEvn}
    (hentry : entry s.drain.periodicEvnList evn.eventId = none) :
    delivered N evn (s.step .tick) = delivered N evn s := by
  rw [delivered_tick, delivered_foldl_of_ne (List.nodup_finRange _)]
  · rfl
  · intro i _ hlive hid
    have hfree := (SlotTable.entry_eq_none_iff h.first_drain).mp hentry i hid
    exact hlive (of_decide_eq_true hfree)

/-- The turns of slots among which one is for the id: they add an event, if that slot is due and
    the turns in front of it leave room. -/
theorem delivered_foldl_middle {s : TimeManager} {N : Nat} (hN : N ≤ s.ticks)
    {front behind : List (Fin periodicEvnListLen)} {i : Fin periodicEvnListLen}
    (hnodup : (front ++ i :: behind).Nodup) (hlive : (s.periodicEvnList.get i).invoke ≠ noCall)
    (hother : ∀ j, j ≠ i → (s.periodicEvnList.get j).invoke ≠ noCall →
      (s.periodicEvnList.get j).evn.eventId ≠ (s.periodicEvnList.get i).evn.eventId) :
    delivered N (s.periodicEvnList.get i).evn ((front ++ i :: behind).foldl scanSlot s) =
      delivered N (s.periodicEvnList.get i).evn s +
        if isDue (s.periodicEvnList.get i) = true ∧
          (front.foldl scanSlot s).evnQueue.length < evnQueueLen then 1 else 0 := by
  rw [List.nodup_middle, List.nodup_cons, List.nodup_append] at hnodup
  obtain ⟨hi, hfront, hbehind, hdisjoint⟩ := hnodup
  have hne : ∀ j ∈ front ++ behind, j ≠ i := fun j hj hji => hi (hji ▸ hj)
  have hscan : s.Scanned _ (front.foldl scanSlot s) := scanned_foldl s hfront
  have hslot : (front.foldl scanSlot s).periodicEvnList.get i = s.periodicEvnList.get i := by
    rw [hscan.get, if_neg fun hmem => hi (List.mem_append_left _ hmem)]
  have hfirst : delivered N (s.periodicEvnList.get i).evn (front.foldl scanSlot s) =
      delivered N (s.periodicEvnList.get i).evn s :=
    delivered_foldl_of_ne hfront fun j hj => hother j (hne j (List.mem_append_left _ hj))
  have hturn := delivered_scanSlot (s := front.foldl scanSlot s) (hscan.ticks ▸ hN)
    (hslot ▸ hlive)
  rw [hslot, hfirst] at hturn
  -- the slots behind have not had their turn yet
  have hlast : ∀ j ∈ behind, ((front.foldl scanSlot s).scanSlot i).periodicEvnList.get j =
      s.periodicEvnList.get j := by
    intro j hj
    have hji := hne j (List.mem_append_right _ hj)
    rw [(scanned_scanSlot _ i).get, if_neg fun hmem => hji (List.mem_singleton.mp hmem),
      hscan.get, if_neg fun hmem => hdisjoint j hmem j hj rfl]
  rw [List.foldl_append, List.foldl_cons, delivered_foldl_of_ne hbehind, hturn]
  intro j hj
  rw [hlast j hj]
  exact hother j (hne j (List.mem_append_right _ hj))

/-- What a tick adds for an id with a slot: an event, if it is due and has room. -/
theorem delivered_tick_of_some {s : TimeManager} (h : s.Sound) {N : Nat} (hN : N ≤ s.ticks)
    {event : PeriodicEvent} {i : Fin periodicEvnListLen}
    (hget : s.drain.periodicEvnList.get i = event) (hlive : isFree event = false) :
    delivered N event.evn (s.step .tick) = delivered N event.evn s +
      if isDue event = true ∧ (s.beforeTurn i).evnQueue.length < evnQueueLen then 1 else 0 := by
  subst hget
  have hinvoke : (s.drain.periodicEvnList.get i).invoke ≠ noCall := of_decide_eq_false hlive
  have hnodup := List.nodup_finRange periodicEvnListLen
  -- the other slots are for other ids
  have hother : ∀ j, j ≠ i → (s.drain.periodicEvnList.get j).invoke ≠ noCall →
      (s.drain.periodicEvnList.get j).evn.eventId ≠ (s.drain.periodicEvnList.get i).evn.eventId :=
    fun j hji hlivej hid => hji (h.first_drain.unique (decide_eq_false hlivej) hlive hid)
  rw [finRange_split i] at hnodup
  rw [delivered_tick, finRange_split i]
  exact delivered_foldl_middle (s := s.drain) hN hnodup hinvoke hother

/-! ## Counting down -/

/-- An id with `m` calls left, started at the tick `N` or before. -/
structure Counting (s : TimeManager) (N : Nat) (evn : DevEvn) (m : Nat) : Prop where
  sound : s.Sound
  recent : N ≤ s.ticks
  slot : m = 0 ∧ entry s.drain.periodicEvnList evn.eventId = none ∨
    0 < m ∧ ∃ event, entry s.drain.periodicEvnList evn.eventId = some event ∧
      event.evn = evn ∧ event.invoke = m

/-- An event without a slot needs no room. -/
theorem roomFor_of_none {s : TimeManager} (h : s.Sound) {e : Int}
    (hentry : entry s.drain.periodicEvnList e = none) : s.RoomFor e := by
  intro i hid hlive
  exact absurd (of_decide_eq_true ((SlotTable.entry_eq_none_iff h.first_drain).mp hentry i hid))
    hlive

/-- The event of a slot has room exactly if the queue has in front of its turn. -/
theorem roomFor_iff {s : TimeManager} (h : s.Sound) {event : PeriodicEvent}
    {i : Fin periodicEvnListLen} (hget : s.drain.periodicEvnList.get i = event)
    (hlive : isFree event = false) : s.RoomFor event.evn.eventId ↔
      (isDue event = true → (s.beforeTurn i).evnQueue.length < evnQueueLen) := by
  rw [room_beforeTurn_iff]
  constructor
  · intro hroom hdue
    refine hroom i ?_ ?_ ?_ <;> rw [hget]
    · exact of_decide_eq_false hlive
    · exact of_decide_eq_true hdue
  · intro hroom j hid hlivej hdelay
    -- no other slot has this id
    have hji : j = i := by
      rw [← hget] at hid hlive
      exact h.first_drain.unique (decide_eq_false hlivej) hlive hid
    rw [hji] at hdelay ⊢
    rw [hget] at hdelay
    exact hroom (decide_eq_true hdelay)

/-- Counting down keeps the event. -/
theorem evn_countDown (event : PeriodicEvent) : (countDown event).evn = event.evn := by
  unfold countDown
  split
  · rfl
  · split <;> rfl

/-- A turn takes a call off a positive count if the delay runs out. -/
theorem invoke_countDown {event : PeriodicEvent} {m : Nat} (hm : 0 < m)
    (hinvoke : event.invoke = m) :
    (countDown event).invoke = ((m - if isDue event then 1 else 0 : Nat) : Int) := by
  have hlive : event.invoke ≠ noCall := by
    rw [hinvoke]
    exact Int.natCast_ne_zero.mpr hm.ne'
  unfold countDown
  rw [if_neg hlive]
  -- the event is due, or it waits on
  by_cases hdue : event.delay ≤ 1
  · have hpos : event.invoke > 0 := by omega
    rw [if_pos hdue, if_pos (show isDue event = true from decide_eq_true hdue)]
    rw [hinvoke] at hpos ⊢
    dsimp only
    rw [if_pos hpos]
    omega
  · rw [if_neg hdue, if_neg (show ¬ isDue event = true from fun h => hdue (of_decide_eq_true h))]
    exact hinvoke

namespace Counting

variable {s : TimeManager} {N m : Nat} {evn : DevEvn}

/-- A tick takes a call off the count if the event is due, and delivers it if there is room. -/
theorem step_tick (h : s.Counting N evn m) : ∃ m', (s.step .tick).Counting N evn m' ∧
    (s.RoomFor evn.eventId → delivered N evn (s.step .tick) + m' = delivered N evn s + m) ∧
    (¬ s.RoomFor evn.eventId →
      delivered N evn (s.step .tick) + m' + 1 = delivered N evn s + m) := by
  have htick := ticked_periodicEventTimerHandler h.sound.first
  have hsound := h.sound.step .tick
  have hrecent : N ≤ (s.step .tick).ticks := by
    rw [show (s.step .tick).ticks = s.ticks + 1 from htick.ticks]
    exact Nat.le_succ_of_le h.recent
  have hnext : entry (s.step .tick).drain.periodicEvnList evn.eventId =
      ((entry s.drain.periodicEvnList evn.eventId).map countDown).filter
        fun event => !isFree event := by
    rw [drain_of_nil (show (s.step .tick).periodicEvnQueue = [] from htick.queue)]
    exact htick.entry evn.eventId
  rcases h.slot with ⟨rfl, hnone⟩ | ⟨hm, event, hsome, rfl, hinvoke⟩
  · rw [hnone] at hnext
    -- an id without a slot: nothing is counted and nothing delivered
    refine ⟨0, ⟨hsound, hrecent, Or.inl ⟨rfl, hnext⟩⟩, fun _ => ?_, fun hroom => ?_⟩
    · rw [delivered_tick_of_none h.sound hnone]
    · exact absurd (roomFor_of_none h.sound hnone) hroom
  · obtain ⟨i, hget, _, hlive⟩ := (SlotTable.entry_eq_some_iff h.sound.first_drain).mp hsome
    -- an id with a slot: the call counter and the deliveries move together
    have hcount := delivered_tick_of_some h.sound h.recent hget hlive
    have hslot := invoke_countDown hm hinvoke
    rw [hsome, Option.map_some, Option.filter_some] at hnext
    rw [roomFor_iff h.sound hget hlive, hcount]
    refine ⟨m - if isDue event then 1 else 0, ⟨hsound, hrecent, ?_⟩, fun hroom => ?_,
      fun hroom => ?_⟩
    · -- the slot is freed with the last call
      by_cases hlast : m - (if isDue event then 1 else 0) = 0
      · have hfree : isFree (countDown event) = true := decide_eq_true (by rw [hslot, hlast]; rfl)
        rw [hfree] at hnext
        exact Or.inl ⟨hlast, hnext⟩
      · have hfree : isFree (countDown event) = false := by
          refine decide_eq_false fun hzero => hlast ?_
          rw [hslot] at hzero
          exact Int.natCast_eq_zero.mp hzero
        rw [hfree] at hnext
        exact Or.inr ⟨Nat.pos_of_ne_zero hlast, _, hnext, evn_countDown event, hslot⟩
    · by_cases hdue : isDue event = true
      · rw [if_pos hdue, if_pos ⟨hdue, hroom hdue⟩]
        omega
      · rw [if_neg hdue, if_neg fun hboth => hdue hboth.1]
        omega
    · obtain ⟨hdue, hfull⟩ := Classical.not_imp.mp hroom
      rw [if_pos hdue, if_neg fun hboth => hfull hboth.2]
      omega

/-- A step that is no tick and no request for the id changes neither the slot nor what was
    delivered. -/
theorem step_of_ne_tick (h : s.Counting N evn m) {a : Action} (ha : a.NotRequestOf evn.eventId)
    (hne : a ≠ .tick) :
    (s.step a).Counting N evn m ∧ delivered N evn (s.step a) = delivered N evn s := by
  have hsound := h.sound.step a
  -- a request for another id, if the queue takes it, leaves the slot of this one alone
  have hstart : ∀ {e : Int}, e ≠ evn.eventId → ∀ ctx d n,
      (s.step (.start e ctx d n)).Counting N evn m ∧
        delivered N evn (s.step (.start e ctx d n)) = delivered N evn s := by
    intro e hid ctx d n
    have hsound := h.sound.step (.start e ctx d n)
    by_cases hlt : s.periodicEvnQueue.length < newEvnQueueLen
    · have hsame : entry (s.step (.start e ctx d n)).drain.periodicEvnList evn.eventId =
          entry s.drain.periodicEvnList evn.eventId := by
        rw [drain_step_start hlt]
        exact entry_push_of_ne h.sound.first_drain hid
      have hslot := h.slot
      rw [← hsame] at hslot
      rw [step_start_of_lt hlt] at hsound hslot ⊢
      exact ⟨⟨hsound, h.recent, hslot⟩, rfl⟩
    · rw [step_start_of_ge (Nat.not_lt.mp hlt)]
      exact ⟨h, rfl⟩
  cases a with
  | start e ctx d n => exact hstart ha ctx d n
  | stop e => exact hstart ha 0 0 noCall
  | tick => exact absurd rfl hne
  | setEvent e ctx =>
    obtain ⟨evnQueue, heq⟩ := step_setEvent s e ctx
    rw [heq] at hsound ⊢
    exact ⟨⟨hsound, h.recent, h.slot⟩, rfl⟩
  | receive => exact ⟨⟨hsound, h.recent, h.slot⟩, rfl⟩

/-- A run without requests for the id takes calls off the count, and delivers one event for each
    of them exactly if there was always room. -/
theorem run (h : s.Counting N evn m) {as : List Action}
    (has : ∀ a ∈ as, a.NotRequestOf evn.eventId) :
    ∃ m', (Machine.run TimeManager.step s as).Counting N evn m' ∧
      delivered N evn (Machine.run TimeManager.step s as) + m' ≤ delivered N evn s + m ∧
      (delivered N evn (Machine.run TimeManager.step s as) + m' = delivered N evn s + m ↔
        Machine.Meets TimeManager.step (fun s a => a = .tick → s.RoomFor evn.eventId) s as) := by
  induction as generalizing s m with
  | nil => exact ⟨m, h, Nat.le_refl _, iff_of_true rfl trivial⟩
  | cons a as ih =>
    rw [List.forall_mem_cons] at has
    rw [Machine.run_cons, Machine.Meets]
    by_cases htick : a = .tick
    · subst htick
      obtain ⟨m₁, h₁, hroom, hfull⟩ := h.step_tick
      obtain ⟨m', h', hle, hiff⟩ := ih h₁ has.2
      refine ⟨m', h', ?_⟩
      by_cases hroomFor : s.RoomFor evn.eventId
      · rw [← hroom hroomFor]
        exact ⟨hle, hiff.trans (and_iff_right fun _ => hroomFor).symm⟩
      · -- the call is off the count, but the event is lost
        have hlost := hfull hroomFor
        exact ⟨by omega, iff_of_false (by omega) fun hmeets => hroomFor (hmeets.1 rfl)⟩
    · obtain ⟨h₁, hsame⟩ := h.step_of_ne_tick has.1 htick
      obtain ⟨m', h', hle, hiff⟩ := ih h₁ has.2
      rw [hsame] at hle hiff
      refine ⟨m', h', ?_⟩
      exact ⟨hle, hiff.trans (and_iff_right fun h => absurd h htick).symm⟩

end Counting

/-- A start the request queue takes and that finds a slot. -/
theorem counting_start {s : TimeManager} (h : s.Sound) {e : Int} {ctx d n : Nat} (hn : 0 < n)
    (hroom : s.periodicEvnQueue.length < newEvnQueueLen)
    (hslot : ¬ (s.step (.start e ctx d n)).Inactive e) :
    (s.step (.start e ctx d n)).Counting s.ticks ⟨e, ctx⟩ n := by
  have hsound := h.step (.start e ctx d n)
  obtain ⟨event, hentry⟩ := (not_inactive_iff hsound).mp hslot
  have hdrain := drain_step_start hroom e ctx d n
  -- the request got a slot
  have hclaim : slotOf s.drain.periodicEvnList e ≠ none := by
    intro hnone
    obtain ⟨hsame, hall⟩ := pushPeriodicEvent_of_none (r := ⟨⟨e, ctx⟩, n, d, d⟩) hnone
    have hempty : entry s.drain.periodicEvnList e = none :=
      (SlotTable.entry_eq_none_iff h.first_drain).mpr fun i hi => absurd hi (hall i).1
    rw [hdrain, hsame, hempty] at hentry
    exact Option.some_ne_none event hentry.symm
  have hfree : isFree ⟨⟨e, ctx⟩, n, d, d⟩ = false :=
    decide_eq_false (Int.natCast_ne_zero.mpr hn.ne')
  have hpush := entry_pushPeriodicEvent h.first_drain (r := ⟨⟨e, ctx⟩, n, d, d⟩) hclaim
  refine ⟨hsound, ?_, Or.inr ⟨hn, started ⟨⟨e, ctx⟩, n, d, d⟩, ?_, rfl, rfl⟩⟩
  · rw [step_start_of_lt hroom]
  · rw [hdrain, hpush, hfree]
    exact Function.update_self ..

/-- A request is accepted exactly if the queue of requests has room. -/
theorem startPeriodicEvent_fst {s : TimeManager} {e : Int} {ctx d : Nat} {n : Int} :
    (s.startPeriodicEvent e ctx d n).1 = true ↔ s.periodicEvnQueue.length < newEvnQueueLen := by
  unfold startPeriodicEvent
  split
  · rename_i hlt
    exact iff_of_true rfl hlt
  · rename_i hge
    exact iff_of_false Bool.false_ne_true hge

/-- An event started with `n` calls that finds a slot, and for which no other request is made
    until its calls are used up, has been delivered `n` times exactly if the event queue had room
    for it at each tick at which it was due. -/
theorem delivered_iff (as bs : List Action) (e : Int) (ctx d n : Nat) (hn : 0 < n)
    (haccepted : ((after as).startPeriodicEvent e ctx d n).1 = true)
    (hslot : ¬ ((after as).step (.start e ctx d n)).Inactive e)
    (hbs : ∀ a ∈ bs, a.NotRequestOf e)
    (hdone : (Machine.run step ((after as).step (.start e ctx d n)) bs).Inactive e) :
    delivered (after as).ticks ⟨e, ctx⟩
        (Machine.run step ((after as).step (.start e ctx d n)) bs) = n ↔
      Machine.Meets step (fun s a => a = .tick → s.RoomFor e)
        ((after as).step (.start e ctx d n)) bs := by
  have hroom := startPeriodicEvent_fst.mp haccepted
  have hstart := counting_start (Sound.after as) hn hroom hslot
  have hzero : delivered (after as).ticks ⟨e, ctx⟩ ((after as).step (.start e ctx d n)) = 0 := by
    rw [step_start_of_lt hroom]
    exact delivered_eq_zero as ⟨e, ctx⟩
  obtain ⟨m', h', _, hiff⟩ := hstart.run hbs
  -- the slot is free at the end, so nothing is left to deliver
  have hm' : m' = 0 := by
    rcases h'.slot with ⟨hm', _⟩ | ⟨_, event, hsome, _⟩
    · exact hm'
    · rw [(inactive_iff h'.sound).mp hdone] at hsome
      exact absurd hsome.symm (Option.some_ne_none event)
  rw [hm', hzero, Nat.add_zero, Nat.zero_add] at hiff
  exact hiff

/-- Another event runs already. -/
def otherEvent : List Action := [.start 5 0 1 (-1), .tick]

/-- Ticks with other calls between them. -/
def otherCalls : List Action :=
  [.tick, .setEvent 9 1, .tick, .start 8 0 4 1, .receive, .tick, .stop 5, .tick]

/-- An event started behind another one, and called twice between other calls. -/
theorem delivered_iff_twice : delivered (after otherEvent).ticks ⟨3, 7⟩
    (Machine.run step ((after otherEvent).step (.start 3 7 2 2)) otherCalls) = 2 :=
  (delivered_iff otherEvent otherCalls 3 7 2 2 (by decide) (by decide +kernel)
    (by decide +kernel) (by simp [otherCalls, Action.NotRequestOf]) (by decide +kernel)).mpr
    (by decide +kernel)

/-- The event queue is full of events of the application. -/
def queueFull : TimeManager := after (List.replicate 20 (.setEvent 1 0))

/-- A start that is accepted and finds a slot, due once while the event queue is full: the call
    is used up at the tick, and none is delivered. -/
theorem not_delivered : (queueFull.startPeriodicEvent 3 7 1 1).1 = true ∧
    ¬ (queueFull.step (.start 3 7 1 1)).Inactive 3 ∧
    (Machine.run step (queueFull.step (.start 3 7 1 1)) [.tick]).Inactive 3 ∧
    delivered queueFull.ticks ⟨3, 7⟩
      (Machine.run step (queueFull.step (.start 3 7 1 1)) [.tick]) ≠ 1 := by
  decide +kernel

end EspTesting.EventTime.TimeManager
