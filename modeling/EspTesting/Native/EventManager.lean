import EspTesting.ForStd.Loop
import EspTesting.ForStd.SlotTable

/-!
# Event handlers

The registry of event handlers (`event_manager.c`). A handler is a function of the application
and is represented by a number; `none` is `NULL`, which stands for no handler in an entry and
for any handler in a search.
-/

namespace EspTesting.Event

/-- `MAX_EVENT_HANDLERS` -/
abbrev maxEventHandlers : Nat := 100

/-- `EventId`, an unsigned integer: the application may use ids the enumeration does not
    name. -/
abbrev EventId := UInt32

/-- `EVN_NO_ENTRY` -/
abbrev evnNoEntry : EventId := 0
/-- `EVN_ANY` -/
abbrev evnAny : EventId := 18

/-- A function of the application. -/
abbrev HandlerFn := Nat

/-- `EventHandler` -/
abbrev EventHandler := Option HandlerFn

/-- `NO_HANDLER` -/
abbrev noHandler : EventHandler := none
/-- `ANY_HANDLER` -/
abbrev anyHandler : EventHandler := none

/-- `EventHandlerRegistry` -/
structure EventHandlerRegistry where
  eventId : EventId
  handler : EventHandler
  deriving DecidableEq, Repr

/-- An entry that is free. -/
def EventHandlerRegistry.empty : EventHandlerRegistry := ⟨evnNoEntry, noHandler⟩

/-- `event_handler_registry` -/
abbrev Registry := Vector EventHandlerRegistry maxEventHandlers

/-- `reset_event_list` -/
def resetEventList : Registry := Vector.replicate _ .empty

/-! ## Searching -/

/-- The test of `get_event_entry`, with its two wildcards. -/
def EventHandlerRegistry.hits (eventId : EventId) (handler : EventHandler)
    (entry : EventHandlerRegistry) : Bool :=
  (eventId = evnAny || entry.eventId = eventId) &&
    (handler = anyHandler || entry.handler = handler)

/-- `get_event_entry`: the first entry found from the index `counter` on, and the value left in
    the counter. -/
def getEventEntry (registry : Registry) (counter : Nat) (eventId : EventId)
    (handler : EventHandler) : Option (Fin maxEventHandlers) × Nat :=
  let found := (List.finRange maxEventHandlers).find? fun i =>
    counter ≤ i.val && (registry.get i).hits eventId handler
  match found with
  | some i => (some i, i.val + 1)
  -- the search ran to the end of the registry, if it was not behind it from the start
  | none => (none, max counter maxEventHandlers + 1)

/-! ## Unregistering -/

/-- The registry and the counter of a loop that frees entries. -/
structure FreeLoop where
  registry : Registry
  counter : Nat

/-- There is a further entry to free. -/
def FreeLoop.more (eventId : EventId) (handler : EventHandler) (s : FreeLoop) : Bool :=
  (getEventEntry s.registry s.counter eventId handler).1.isSome

/-- Free the next entry. -/
def FreeLoop.freeNext (eventId : EventId) (handler : EventHandler) (s : FreeLoop) : FreeLoop :=
  match getEventEntry s.registry s.counter eventId handler with
  | (some i, counter) => { registry := s.registry.set i .empty i.isLt, counter }
  | (none, counter) => { s with counter }

/-- The loop that `unregister_event_handler` and `unregister_event_id` share. -/
def freeEntries (registry : Registry) (eventId : EventId) (handler : EventHandler) : Registry :=
  (Loop.run (FreeLoop.more eventId handler) (FreeLoop.freeNext eventId handler)
    (fun s => maxEventHandlers - s.counter) ⟨registry, 0⟩).registry

/-- `unregister_event_handler` -/
def unregisterEventHandler (registry : Registry) (handler : EventHandler) : Registry :=
  if handler = anyHandler then registry else freeEntries registry evnAny handler

/-- `unregister_event_id` -/
def unregisterEventId (registry : Registry) (eventId : EventId) : Registry :=
  if eventId = evnNoEntry then registry else freeEntries registry eventId anyHandler

/-! ## Registering -/

/-- `register_event_handler` -/
def registerEventHandler (registry : Registry) (eventId : EventId) (handler : EventHandler) :
    Bool × Registry :=
  if handler = none then (false, registry)
  else
    match (getEventEntry registry 0 eventId handler).1 with
    -- the pair is registered already
    | some _ => (true, registry)
    | none =>
      match (getEventEntry registry 0 evnNoEntry anyHandler).1 with
      | some i => (true, registry.set i ⟨eventId, handler⟩ i.isLt)
      | none => (false, registry)

/-- A call on the registry, with its arguments. -/
inductive RegistryCall where
  | register (eventId : EventId) (handler : EventHandler)
  | unregisterHandler (handler : EventHandler)
  | unregisterId (eventId : EventId)
  deriving DecidableEq, Repr

/-- The registry after a call. -/
def RegistryCall.run (registry : Registry) : RegistryCall → Registry
  | register eventId handler => (registerEventHandler registry eventId handler).2
  | unregisterHandler handler => unregisterEventHandler registry handler
  | unregisterId eventId => unregisterEventId registry eventId

/-! ## Delivering an event -/

/-- `DevEvn` -/
structure DevEvn where
  eventId : EventId
  /-- A pointer of the application. -/
  ctx : Nat
  deriving DecidableEq, Repr

/-- A handler called with the entry it was found in and the arguments it was given. -/
structure HandlerCall where
  slot : Fin maxEventHandlers
  fn : HandlerFn
  ms : UInt32
  ctx : Nat
  deriving DecidableEq, Repr

/-- What `event_manager_task` does for one event, between two changes of the registry. -/
structure Dispatch where
  registry : Registry
  /-- `i` -/
  counter : Nat
  /-- The calls on the registry that the running handler has yet to make. -/
  todo : List RegistryCall
  /-- The handlers called. -/
  calls : List HandlerCall
  deriving Repr

/-- The start of the loop over the entries for an event. -/
def Dispatch.start (registry : Registry) : Dispatch :=
  { registry, counter := 0, todo := [], calls := [] }

/-- A handler is running or there is a further entry for the event. -/
def Dispatch.more (event : DevEvn) (s : Dispatch) : Bool :=
  !s.todo.isEmpty || (getEventEntry s.registry s.counter event.eventId anyHandler).1.isSome

/-- The next step for an event that was received at the time `ms`: the running handler makes a
    call on the registry, or else the next handler is called. A handler may do anything with
    the registry: `behave k fn` are the calls that `fn` makes on it when it is the handler
    called after `k` others. -/
def Dispatch.step (event : DevEvn) (ms : UInt32) (behave : Nat → HandlerFn → List RegistryCall)
    (s : Dispatch) : Dispatch :=
  match s.todo with
  | call :: todo => { s with registry := call.run s.registry, todo }
  | [] =>
    match getEventEntry s.registry s.counter event.eventId anyHandler with
    | (none, counter) => { s with counter }
    | (some i, counter) =>
      match (s.registry.get i).handler with
      | none => { s with counter }
      | some fn =>
        { s with
          counter
          todo := behave s.calls.length fn
          calls := s.calls ++ [⟨i, fn, ms, event.ctx⟩] }

end EspTesting.Event
