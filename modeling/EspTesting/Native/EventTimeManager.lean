import EspTesting.ForStd.Machine
import EspTesting.ForStd.SlotTable

/-!
# Periodic events

The timer that posts periodic events (`event_time_manager.c`) and the queue the event task
takes events from (`event_manager.c`). Requests to start or stop an event travel through a
queue of their own, which the timer handler drains at every tick.

The state records, beside the variables of the component, the ticks made, the requests the
queue took, each with the tick that drains it, the events the handler tried to post and those
the event queue took from it.
-/

namespace EspTesting.EventTime

/-- `PERIODIC_EVN_LIST_LEN` -/
abbrev periodicEvnListLen : Nat := 50
/-- `NEW_EVN_QUEUE_LEN` -/
abbrev newEvnQueueLen : Nat := 10
/-- `EVN_QUEUE_LEN` -/
abbrev evnQueueLen : Nat := 20
/-- `NO_CALL` -/
abbrev noCall : Int := 0

/-- `DevEvn`; a context is the value of its pointer, 0 for `NULL`. -/
structure DevEvn where
  eventId : Int
  ctx : Nat
  deriving DecidableEq, Repr

/-- `PeriodicEvent` -/
structure PeriodicEvent where
  evn : DevEvn
  invoke : Int
  initDelay : Nat
  delay : Nat
  deriving DecidableEq, Repr

/-- A slot of the zero-initialised `periodic_evn_list`. -/
def PeriodicEvent.zero : PeriodicEvent := ⟨⟨0, 0⟩, noCall, 0, 0⟩

/-- `periodic_evn_list` -/
abbrev PeriodicEvnList := Vector PeriodicEvent periodicEvnListLen

/-! ## The table of periodic events -/

/-- The slot `push_periodic_event` stores to: the first one with the id, else the first one
    without calls. -/
def slotOf (list : PeriodicEvnList) (eventId : Int) : Option (Fin periodicEvnListLen) :=
  SlotTable.claim (fun evn => evn.evn.eventId) (fun evn => evn.invoke = noCall) list eventId

/-- `push_periodic_event` -/
def pushPeriodicEvent (list : PeriodicEvnList) (newEvent : PeriodicEvent) : PeriodicEvnList :=
  match slotOf list newEvent.evn.eventId with
  | none => list
  | some i => list.set i
      { evn := ⟨newEvent.evn.eventId, newEvent.evn.ctx⟩
        invoke := newEvent.invoke
        initDelay := newEvent.initDelay
        delay := newEvent.initDelay } i.isLt

/-! ## State -/

/-- An attempt of the timer handler to post an event: the tick, the event and the number of
    events that waited in the queue. -/
structure Post where
  tick : Nat
  evn : DevEvn
  waiting : Nat
  deriving DecidableEq, Repr

/-- The state of the component. -/
structure TimeManager where
  periodicEvnQueue : List PeriodicEvent
  periodicEvnList : PeriodicEvnList
  evnQueue : List DevEvn
  msCounter : UInt32
  ticks : Nat
  requests : List (Nat × PeriodicEvent)
  posts : List Post
  taken : List Post

namespace TimeManager

/-- The state after `init_event_manager`. -/
def boot : TimeManager where
  periodicEvnQueue := []
  periodicEvnList := Vector.replicate _ .zero
  evnQueue := []
  msCounter := 0
  ticks := 0
  requests := []
  posts := []
  taken := []

/-! ## Requests -/

/-- `start_periodic_event`; a request is drained by the next tick. -/
def startPeriodicEvent (eventId : Int) (ctx delay : Nat) (invoke : Int) (s : TimeManager) :
    Bool × TimeManager :=
  let perEvent : PeriodicEvent := ⟨⟨eventId, ctx⟩, invoke, delay, delay⟩
  if s.periodicEvnQueue.length < newEvnQueueLen then
    (true, { s with
      periodicEvnQueue := s.periodicEvnQueue ++ [perEvent]
      requests := s.requests ++ [(s.ticks + 1, perEvent)] })
  -- the queue is full; `stop_periodic_event` drops this result
  else (false, s)

/-- `stop_periodic_event` -/
def stopPeriodicEvent (eventId : Int) (s : TimeManager) : TimeManager :=
  (s.startPeriodicEvent eventId 0 0 noCall).2

/-! ## The timer handler -/

/-- `xQueueSendFromISR(evn_queue, &event->evn, ..)` -/
def sendFromHandler (evn : DevEvn) (s : TimeManager) : TimeManager :=
  let post : Post := ⟨s.ticks + 1, evn, s.evnQueue.length⟩
  let s := { s with posts := s.posts ++ [post] }
  if s.evnQueue.length < evnQueueLen then
    { s with evnQueue := s.evnQueue ++ [evn], taken := s.taken ++ [post] }
  -- the handler does not look at what the send returns
  else s

/-- A turn of the loop over the slots, for the slot `i`. -/
def scanSlot (s : TimeManager) (i : Fin periodicEvnListLen) : TimeManager :=
  let event := s.periodicEvnList.get i
  if event.invoke = noCall then s
  else
    -- a delay of 0 is due at every tick, like a delay of 1
    let event := if event.delay > 0 then { event with delay := event.delay - 1 } else event
    if event.delay = 0 then
      let event := if event.invoke > 0 then { event with invoke := event.invoke - 1 } else event
      let event :=
        -- after the last call the slot is free and keeps its id
        if event.invoke ≠ noCall then { event with delay := event.initDelay } else event
      { s with periodicEvnList := s.periodicEvnList.set i event i.isLt }.sendFromHandler event.evn
    else { s with periodicEvnList := s.periodicEvnList.set i event i.isLt }

/-- The part of `periodic_event_timer_handler` that drains the requests. -/
def drain (s : TimeManager) : TimeManager :=
  { s with
    periodicEvnQueue := []
    periodicEvnList := s.periodicEvnQueue.foldl pushPeriodicEvent s.periodicEvnList }

/-- `periodic_event_timer_handler` -/
def periodicEventTimerHandler (s : TimeManager) : TimeManager :=
  let s := (List.finRange periodicEvnListLen).foldl scanSlot s.drain
  { s with msCounter := s.msCounter + 1, ticks := s.ticks + 1 }

/-! ## The event queue -/

/-- `set_event`, at the moment at which it gets a place in the queue or gives up. -/
def setEvent (eventId : Int) (ctx : Nat) (s : TimeManager) : Bool × TimeManager :=
  if s.evnQueue.length < evnQueueLen then
    (true, { s with evnQueue := s.evnQueue ++ [⟨eventId, ctx⟩] })
  else (false, s)

/-- `event_manager_task` takes an event from the queue. -/
def receiveEvent (s : TimeManager) : TimeManager := { s with evnQueue := s.evnQueue.tail }

/-! ## Runs -/

/-- A call of the application, a tick of the timer, or the event task taking an event. -/
inductive Action where
  | start (eventId : Int) (ctx delay : Nat) (invoke : Int)
  | stop (eventId : Int)
  | tick
  | setEvent (eventId : Int) (ctx : Nat)
  | receive
  deriving DecidableEq, Repr

/-- One step of a run. -/
def step (s : TimeManager) : Action → TimeManager
  | .start eventId ctx delay invoke => (s.startPeriodicEvent eventId ctx delay invoke).2
  | .stop eventId => s.stopPeriodicEvent eventId
  | .tick => s.periodicEventTimerHandler
  | .setEvent eventId ctx => (s.setEvent eventId ctx).2
  | .receive => s.receiveEvent

end TimeManager

end EspTesting.EventTime
