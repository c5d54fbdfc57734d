import Mathlib.Data.Set.Finite.Range
import EspTesting.ForStd.Machine
import EspTesting.Native.EventManager

/-!
# The event registry as a bounded set

The registry stands for the set of the pairs of an event id and a handler stored in it
(`pairs`). Used with proper ids only, it stores no pair twice, and free entries carry neither
an id nor a handler (`Sound`), so the searches with a wildcard find what they look for.

## Key results

- `get_freeEntries`: a loop that frees entries frees exactly those that its search hits
- `eventRegistry_boundedSet`
-/

namespace EspTesting.Event

open SlotTable

variable {registry : Registry} {eventId : EventId} {handler : EventHandler} {fn : HandlerFn}

/-! ## Searching -/

/-- The entry that is found is the first one behind the counter that is asked for. -/
theorem getEventEntry_eq_some_iff {counter : Nat} {i : Fin maxEventHandlers} :
    (getEventEntry registry counter eventId handler).1 = some i ↔
      (counter ≤ i.val ∧ (registry.get i).hits eventId handler = true) ∧
      ∀ j < i, counter ≤ j.val → (registry.get j).hits eventId handler = false := by
  -- the search is that of the first slot
  have hfst : (getEventEntry registry counter eventId handler).1 =
      (List.finRange maxEventHandlers).find? fun i =>
        counter ≤ i.val && (registry.get i).hits eventId handler := by
    unfold getEventEntry
    dsimp only
    split
    · rename_i hfound
      exact hfound.symm
    · rename_i hfound
      exact hfound.symm
  rw [hfst, find?_finRange_eq_some_iff]
  simp only [Bool.and_eq_true, decide_eq_true_eq, Bool.and_eq_false_imp]

/-- None is found exactly if no entry behind the counter is asked for. -/
theorem getEventEntry_eq_none_iff {counter : Nat} :
    (getEventEntry registry counter eventId handler).1 = none ↔
      ∀ i : Fin maxEventHandlers, counter ≤ i.val →
        (registry.get i).hits eventId handler = false := by
  unfold getEventEntry
  dsimp only
  split
  · rename_i i hfound
    have hhit := (find?_finRange_eq_some_iff.mp hfound).1
    simp only [Bool.and_eq_true, decide_eq_true_eq] at hhit
    refine iff_of_false (Option.some_ne_none i) fun h => ?_
    rw [h i hhit.1] at hhit
    exact Bool.false_ne_true hhit.2
  · rename_i hfound
    refine iff_of_true rfl fun i hi => ?_
    have hmiss := List.find?_eq_none.mp hfound i (List.mem_finRange i)
    simpa [hi] using hmiss

/-- The counter is left behind the entry found. -/
theorem getEventEntry_snd {counter : Nat} {i : Fin maxEventHandlers}
    (h : (getEventEntry registry counter eventId handler).1 = some i) :
    (getEventEntry registry counter eventId handler).2 = i.val + 1 := by
  unfold getEventEntry at h ⊢
  dsimp only at h ⊢
  split at h
  · simp only
    rw [Option.some.inj h]
  · exact absurd h.symm (Option.some_ne_none i)

/-! ## Freeing entries -/

/-- A turn of the loop frees the entry it found. -/
theorem freeNext_of_some {s : FreeLoop} {i : Fin maxEventHandlers}
    (h : (getEventEntry s.registry s.counter eventId handler).1 = some i) :
    s.freeNext eventId handler =
      { registry := s.registry.set i .empty i.isLt, counter := i.val + 1 } := by
  have hsnd := getEventEntry_snd h
  unfold FreeLoop.freeNext
  revert h hsnd
  generalize getEventEntry s.registry s.counter eventId handler = found
  intro h hsnd
  obtain ⟨entry, counter⟩ := found
  simp only at h hsnd
  rw [h, hsnd]

/-- Every turn comes closer to the end of the registry. -/
theorem decreases_freeLoop (eventId : EventId) (handler : EventHandler) :
    Loop.Decreases (FreeLoop.more eventId handler) (FreeLoop.freeNext eventId handler)
      (fun s => maxEventHandlers - s.counter) := by
  intro s hmore
  obtain ⟨i, hi⟩ := Option.isSome_iff_exists.mp hmore
  have hle := (getEventEntry_eq_some_iff.mp hi).1.1
  have hlt := i.isLt
  rw [freeNext_of_some hi]
  dsimp only
  omega

/-- The entries in front of the counter that the search hits have been freed. -/
def FreedTo (start : Registry) (eventId : EventId) (handler : EventHandler) (s : FreeLoop) :
    Prop :=
  ∀ i : Fin maxEventHandlers, s.registry.get i =
    if i.val < s.counter ∧ (start.get i).hits eventId handler = true then .empty
    else start.get i

/-- A turn frees one entry more. -/
theorem FreedTo.freeNext {start : Registry} {s : FreeLoop}
    (hmore : s.more eventId handler = true) (h : FreedTo start eventId handler s) :
    FreedTo start eventId handler (s.freeNext eventId handler) := by
  obtain ⟨i, hi⟩ := Option.isSome_iff_exists.mp hmore
  obtain ⟨⟨hle, hhit⟩, hfirst⟩ := getEventEntry_eq_some_iff.mp hi
  -- from the counter on the registry is still the one at the start
  have hsame (j : Fin maxEventHandlers) (hj : s.counter ≤ j.val) :
      s.registry.get j = start.get j := by
    rw [h j, if_neg fun hlt => Nat.not_lt.mpr hj hlt.1]
  rw [hsame i hle] at hhit
  rw [freeNext_of_some hi]
  intro j
  dsimp only
  rw [get_set]
  by_cases hji : j = i
  · rw [if_pos hji, hji, if_pos ⟨Nat.lt_succ_self _, hhit⟩]
  · rw [if_neg hji, h j]
    have hne : j.val ≠ i.val := fun heq => hji (Fin.ext heq)
    by_cases hcounter : j.val < s.counter
    · have hlt : j.val < i.val + 1 := by omega
      simp only [hcounter, hlt, true_and]
    · rw [if_neg fun hlt => hcounter hlt.1, if_neg]
      rintro ⟨hlt, hhits⟩
      -- between the counter and the entry found, the search hits nothing
      have hmiss := hfirst j (Fin.lt_def.mpr (by omega)) (Nat.le_of_not_lt hcounter)
      rw [hsame j (Nat.le_of_not_lt hcounter), hhits] at hmiss
      exact Bool.false_ne_true hmiss.symm

/-- A loop that frees entries frees exactly those that its search hits. -/
theorem get_freeEntries (registry : Registry) (eventId : EventId) (handler : EventHandler)
    (i : Fin maxEventHandlers) : (freeEntries registry eventId handler).get i =
      if (registry.get i).hits eventId handler = true then .empty else registry.get i := by
  have hstart : FreedTo registry eventId handler ⟨registry, 0⟩ := by
    intro j
    rw [if_neg fun hlt => Nat.not_lt_zero _ hlt.1]
  obtain ⟨n, _, hexit⟩ := Loop.exits_run (decreases_freeLoop eventId handler) ⟨registry, 0⟩
  unfold freeEntries
  revert hexit
  generalize Loop.run (FreeLoop.more eventId handler) (FreeLoop.freeNext eventId handler) _ _ = s
  intro hexit
  have hi := hexit.invariant (fun s hmore hs => FreedTo.freeNext hmore hs) hstart i
  rw [hi]
  by_cases hcounter : i.val < s.counter
  · simp only [hcounter, true_and]
  · -- behind the counter the last search hit nothing
    have hstop : (getEventEntry s.registry s.counter eventId handler).1.isSome = false :=
      hexit.cond_eq_false
    rw [Option.isSome_eq_false_iff, Option.isNone_iff_eq_none, getEventEntry_eq_none_iff] at hstop
    have hmiss := hstop i (Nat.le_of_not_lt hcounter)
    rw [hi, if_neg fun hlt => hcounter hlt.1] at hmiss
    rw [if_neg fun hlt => hcounter hlt.1, hmiss, if_neg Bool.false_ne_true]

/-! ## Registering a handler -/

/-- An id a handler can be registered for. -/
def Proper (eventId : EventId) : Prop := eventId ≠ evnNoEntry ∧ eventId ≠ evnAny

instance : DecidablePred Proper := fun _ => inferInstanceAs (Decidable (_ ∧ _))

/-- The entry is free. -/
abbrev isFree (entry : EventHandlerRegistry) : Bool := entry.eventId = evnNoEntry

/-- The pairs stored. -/
def pairs (registry : Registry) : Set (EventId × HandlerFn) :=
  {p | ∃ i, registry.get i = ⟨p.1, some p.2⟩}

/-- Free entries hold no handler, the others a proper id and a handler, and no pair is stored
    twice. -/
structure Sound (registry : Registry) : Prop where
  free : ∀ i, (registry.get i).eventId = evnNoEntry ↔ (registry.get i).handler = noHandler
  proper : ∀ i, (registry.get i).eventId ≠ evnAny
  first : FirstLive id isFree registry

/-- A registry without entries is sound. -/
theorem sound_resetEventList : Sound resetEventList := by
  have hslot : ∀ i, resetEventList.get i = .empty := fun i => Vector.getElem_replicate i.isLt
  refine ⟨fun i => ?_, fun i => ?_, fun i hi => ?_⟩
  · rw [hslot]
    exact iff_of_true rfl rfl
  · rw [hslot]
    decide
  · rw [hslot] at hi
    exact absurd (show isFree .empty = false from hi) (by decide)

/-- No pair is stored twice. -/
theorem Sound.once (h : Sound registry) {i j : Fin maxEventHandlers}
    (hi : (registry.get i).handler ≠ noHandler) (heq : registry.get i = registry.get j) :
    i = j := by
  have hlive : isFree (registry.get i) = false := decide_eq_false fun hid => hi ((h.free i).mp hid)
  exact h.first.unique hlive (heq ▸ hlive) heq

/-- The pairs stored are the entries in use. -/
theorem Sound.mem_pairs_iff (h : Sound registry) {p : EventId × HandlerFn} :
    p ∈ pairs registry ↔ (entry id isFree registry ⟨p.1, some p.2⟩).isSome = true := by
  rw [Option.isSome_iff_exists]
  simp only [entry_eq_some_iff h.first]
  constructor
  · rintro ⟨i, hi⟩
    -- a free entry has no handler
    refine ⟨_, i, hi, rfl, decide_eq_false fun hid => ?_⟩
    have hnone := (h.free i).mp (by rw [hi]; exact hid)
    rw [hi] at hnone
    exact absurd hnone (Option.some_ne_none p.2)
  · rintro ⟨x, i, hi, rfl, _⟩
    exact ⟨i, hi⟩

/-- As many pairs are stored as entries are in use. -/
theorem Sound.ncard_pairs (h : Sound registry) :
    (pairs registry).ncard = {k | (entry id isFree registry k).isSome = true}.ncard := by
  have himage : (fun p : EventId × HandlerFn => (⟨p.1, some p.2⟩ : EventHandlerRegistry)) ''
      pairs registry = {k | (entry id isFree registry k).isSome = true} := by
    ext k
    constructor
    · rintro ⟨p, hp, rfl⟩
      exact h.mem_pairs_iff.mp hp
    · intro hk
      obtain ⟨x, hx⟩ := Option.isSome_iff_exists.mp hk
      obtain ⟨i, rfl, rfl, hlive⟩ := (entry_eq_some_iff h.first).mp hx
      -- an entry in use holds a handler
      cases hhandler : (registry.get i).handler with
      | none => exact absurd ((h.free i).mpr hhandler) (of_decide_eq_false hlive)
      | some fn =>
        have heq : registry.get i = ⟨(registry.get i).eventId, some fn⟩ := by rw [← hhandler]
        exact ⟨((registry.get i).eventId, fn), ⟨i, heq⟩, heq.symm⟩
  rw [← himage, Set.ncard_image_of_injective]
  intro p q hpq
  obtain ⟨hid, hfn⟩ := EventHandlerRegistry.mk.inj hpq
  exact Prod.ext hid (Option.some.inj hfn)

/-- The pairs of a registry are finitely many. -/
theorem finite_pairs (registry : Registry) : (pairs registry).Finite := by
  refine (Set.finite_range fun i =>
    ((registry.get i).eventId, (registry.get i).handler.getD 0)).subset ?_
  rintro p ⟨i, hi⟩
  exact ⟨i, by simp only [hi, Option.getD_some]⟩

/-- There are not more pairs than entries. -/
theorem Sound.ncard_pairs_le (h : Sound registry) : (pairs registry).ncard ≤ maxEventHandlers := by
  rw [h.ncard_pairs, ncard_entry h.first]
  exact length_liveKeys_le

/-- The search from the first entry is that of the table. -/
theorem getEventEntry_zero (registry : Registry) (eventId : EventId) (handler : EventHandler) :
    (getEventEntry registry 0 eventId handler).1 =
      find registry (EventHandlerRegistry.hits eventId handler) := by
  apply Option.ext
  intro i
  rw [getEventEntry_eq_some_iff, find_eq_some_iff]
  simp only [Nat.zero_le, true_and, true_implies]

/-- An id and a handler ask for the entry of this pair. -/
theorem hits_pair (hid : Proper eventId) (fn : HandlerFn) :
    EventHandlerRegistry.hits eventId (some fn) = fun x => decide (id x = ⟨eventId, some fn⟩) := by
  funext x
  obtain ⟨eventId', handler'⟩ := x
  simp [EventHandlerRegistry.hits, hid.2]

/-- No id and any handler ask for a free entry. -/
theorem hits_noEntry : EventHandlerRegistry.hits evnNoEntry anyHandler = isFree := by
  funext x
  simp [EventHandlerRegistry.hits, show evnNoEntry ≠ evnAny from by decide]

/-- Registering a pair stores it in the entry claimed for it. -/
theorem registerEventHandler_eq (hid : Proper eventId) (fn : HandlerFn) :
    registerEventHandler registry eventId (some fn) =
      match claim id isFree registry ⟨eventId, some fn⟩ with
      | some i => (true, registry.set i ⟨eventId, some fn⟩ i.isLt)
      | none => (false, registry) := by
  unfold registerEventHandler claim
  rw [if_neg (Option.some_ne_none fn), getEventEntry_zero, getEventEntry_zero, hits_pair hid,
    hits_noEntry]
  cases hfind : find registry fun x => id x = ⟨eventId, some fn⟩ with
  | none => rfl
  | some i =>
    -- the entry holds the pair already
    have hget : registry.get i = ⟨eventId, some fn⟩ :=
      of_decide_eq_true (find_eq_some_iff.mp hfind).1
    dsimp only
    rw [Prod.mk.injEq]
    refine ⟨rfl, ?_⟩
    rw [← hget]
    exact (Vector.set_getElem_self i.isLt).symm

/-- Registering succeeds exactly if there is an entry for the pair. -/
theorem Sound.registerEventHandler_fst_iff (h : Sound registry) (hid : Proper eventId)
    (fn : HandlerFn) : (registerEventHandler registry eventId (some fn)).1 = true ↔
      (eventId, fn) ∈ pairs registry ∨ (pairs registry).ncard < maxEventHandlers := by
  rw [h.mem_pairs_iff, h.ncard_pairs, ← claim_ne_none_iff h.first, registerEventHandler_eq hid]
  split
  · rename_i i hclaim
    rw [hclaim]
    exact iff_of_true rfl (Option.some_ne_none i)
  · rename_i hclaim
    rw [hclaim]
    exact iff_of_false Bool.false_ne_true fun hne => hne rfl

/-- A registration that fails changes nothing. -/
theorem registerEventHandler_of_false
    (h : (registerEventHandler registry eventId handler).1 = false) :
    (registerEventHandler registry eventId handler).2 = registry := by
  unfold registerEventHandler at h ⊢
  split
  · rfl
  · rename_i hsome
    rw [if_neg hsome] at h
    split
    · rfl
    · rename_i hnew
      simp only [hnew] at h
      split
      · rename_i i hfree
        simp only [hfree] at h
        exact absurd h.symm Bool.false_ne_true
      · rfl

/-- Registering keeps the registry sound. -/
theorem Sound.registerEventHandler (h : Sound registry) (hid : Proper eventId)
    (handler : EventHandler) : Sound (registerEventHandler registry eventId handler).2 := by
  cases handler with
  | none => exact h
  | some fn =>
    rw [registerEventHandler_eq hid]
    split
    · rename_i i hclaim
      -- the entry claimed holds the pair, the others are as they were
      refine ⟨fun j => ?_, fun j => ?_, h.first.set_claim hclaim rfl⟩
      · rw [get_set]
        split
        · exact iff_of_false hid.1 (Option.some_ne_none fn)
        · exact h.free j
      · rw [get_set]
        split
        · exact hid.2
        · exact h.proper j
    · exact h

/-- A registration that succeeds adds the pair. -/
theorem Sound.pairs_registerEventHandler (h : Sound registry) (hid : Proper eventId)
    {fn : HandlerFn} (hok : (Event.registerEventHandler registry eventId (some fn)).1 = true) :
    pairs (Event.registerEventHandler registry eventId (some fn)).2 =
      insert (eventId, fn) (pairs registry) := by
  have hsound := h.registerEventHandler hid (some fn)
  rw [registerEventHandler_eq hid] at hok hsound ⊢
  split at hok
  · rename_i i hclaim
    simp only [hclaim] at hsound ⊢
    ext p
    rw [hsound.mem_pairs_iff, entry_set_claim h.first hclaim rfl, Set.mem_insert_iff,
      h.mem_pairs_iff]
    have hlive : ¬isFree ⟨eventId, some fn⟩ = true := fun hfree => hid.1 (of_decide_eq_true hfree)
    by_cases hp : (⟨p.1, some p.2⟩ : EventHandlerRegistry) = ⟨eventId, some fn⟩
    · obtain ⟨hpid, hpfn⟩ := EventHandlerRegistry.mk.inj hp
      rw [hp, Function.update_self, if_neg hlive]
      exact iff_of_true rfl (Or.inl (Prod.ext hpid (Option.some.inj hpfn)))
    · -- another pair
      rw [Function.update_of_ne hp]
      constructor
      · exact Or.inr
      · rintro (rfl | hmem)
        · exact absurd rfl hp
        · exact hmem
  · exact absurd hok Bool.false_ne_true

/-! ## Unregistering handlers -/

/-- Freeing entries keeps the registry sound. -/
theorem Sound.freeEntries (h : Sound registry) (eventId : EventId) (handler : EventHandler) :
    Sound (freeEntries registry eventId handler) := by
  -- an entry is as it was or free
  refine ⟨fun i => ?_, fun i => ?_, fun i hi => ?_⟩
  · rw [get_freeEntries]
    split
    · exact iff_of_true rfl rfl
    · exact h.free i
  · rw [get_freeEntries]
    split
    · decide
    · exact h.proper i
  · rw [get_freeEntries] at hi ⊢
    split
    · rename_i hhit
      rw [if_pos hhit] at hi
      exact absurd (show isFree .empty = false from hi) (by decide)
    · rename_i hmiss
      rw [if_neg hmiss] at hi
      -- an entry in front of it was another one, or is free now
      have hfirst := find_eq_some_iff.mp (h.first i hi)
      apply find_eq_some_iff.mpr
      refine ⟨decide_eq_true (by rw [get_freeEntries, if_neg hmiss]), fun j hj => ?_⟩
      rw [get_freeEntries]
      split
      · apply decide_eq_false
        intro heq
        rw [← show EventHandlerRegistry.empty = registry.get i from heq] at hi
        exact absurd hi (by decide)
      · exact hfirst.2 j hj

/-- Freeing entries removes the pairs that the search hits. -/
theorem pairs_freeEntries (registry : Registry) (eventId : EventId) (handler : EventHandler) :
    pairs (freeEntries registry eventId handler) =
      {p ∈ pairs registry | EventHandlerRegistry.hits eventId handler ⟨p.1, some p.2⟩ = false} := by
  ext p
  constructor
  · rintro ⟨i, hi⟩
    rw [get_freeEntries] at hi
    split at hi
    · -- a freed entry holds no pair
      exact absurd (EventHandlerRegistry.mk.inj hi).2.symm (Option.some_ne_none p.2)
    · rename_i hmiss
      rw [hi, Bool.not_eq_true] at hmiss
      exact ⟨⟨i, hi⟩, hmiss⟩
  · rintro ⟨⟨i, hi⟩, hmiss⟩
    refine ⟨i, ?_⟩
    rw [get_freeEntries, hi, hmiss, if_neg Bool.false_ne_true]

/-- Unregistering a handler drops its pairs. -/
theorem pairs_unregisterEventHandler (registry : Registry) (fn : HandlerFn) :
    pairs (unregisterEventHandler registry (some fn)) = {p ∈ pairs registry | p.2 ≠ fn} := by
  unfold unregisterEventHandler
  rw [if_neg (Option.some_ne_none fn), pairs_freeEntries]
  simp [EventHandlerRegistry.hits]

/-- Unregistering an id drops its pairs. -/
theorem pairs_unregisterEventId (registry : Registry) (hid : Proper eventId) :
    pairs (unregisterEventId registry eventId) = {p ∈ pairs registry | p.1 ≠ eventId} := by
  unfold unregisterEventId
  rw [if_neg hid.1, pairs_freeEntries]
  simp [EventHandlerRegistry.hits, hid.2]

/-! ## Runs -/

/-- The event id given to the call is one a handler can be registered for. -/
def RegistryCall.Proper : RegistryCall → Prop
  | register eventId _ => Event.Proper eventId
  | unregisterHandler _ => True
  | unregisterId eventId => Event.Proper eventId

instance : DecidablePred RegistryCall.Proper
  | .register eventId _ => inferInstanceAs (Decidable (Event.Proper eventId))
  | .unregisterHandler _ => inferInstanceAs (Decidable True)
  | .unregisterId eventId => inferInstanceAs (Decidable (Event.Proper eventId))

/-- The registry after the calls. -/
def registryAfter (calls : List RegistryCall) : Registry :=
  Machine.run RegistryCall.run resetEventList calls

/-- Every call keeps the registry sound. -/
theorem Sound.run (h : Sound registry) {call : RegistryCall} (hcall : call.Proper) :
    Sound (call.run registry) := by
  cases call with
  | register eventId handler => exact h.registerEventHandler hcall handler
  | unregisterHandler handler =>
    show Sound (unregisterEventHandler registry handler)
    unfold unregisterEventHandler
    split
    · exact h
    · exact h.freeEntries _ _
  | unregisterId eventId =>
    show Sound (unregisterEventId registry eventId)
    unfold unregisterEventId
    split
    · exact h
    · exact h.freeEntries _ _

/-- The registry is sound after any calls. -/
theorem sound_registryAfter {calls : List RegistryCall} (hcalls : ∀ call ∈ calls, call.Proper) :
    Sound (registryAfter calls) := by
  unfold registryAfter
  have hstart := sound_resetEventList
  revert hstart
  generalize resetEventList = registry
  intro hstart
  induction calls generalizing registry with
  | nil => exact hstart
  | cons call calls ih =>
    obtain ⟨hcall, hrest⟩ := List.forall_mem_cons.mp hcalls
    exact ih hrest _ (hstart.run hcall)

/-- After any calls with proper ids the registry is a set of at most `maxEventHandlers` pairs:
    no pair is stored twice, registering a handler succeeds if there is one and the set has the
    pair or room for it, and adds the pair; unregistering removes the pairs with the handler or
    the id, and calls that fail change nothing. -/
theorem eventRegistry_boundedSet (calls : List RegistryCall)
    (hcalls : ∀ call ∈ calls, call.Proper) :
    (∀ i j, ((registryAfter calls).get i).handler ≠ noHandler →
      (registryAfter calls).get i = (registryAfter calls).get j → i = j) ∧
    ((pairs (registryAfter calls)).Finite ∧
      (pairs (registryAfter calls)).ncard ≤ maxEventHandlers) ∧
    (∀ eventId handler, Proper eventId →
      ((registerEventHandler (registryAfter calls) eventId handler).1 = true ↔
        ∃ fn, handler = some fn ∧ ((eventId, fn) ∈ pairs (registryAfter calls) ∨
          (pairs (registryAfter calls)).ncard < maxEventHandlers)) ∧
      ((registerEventHandler (registryAfter calls) eventId handler).1 = false →
        (registerEventHandler (registryAfter calls) eventId handler).2 = registryAfter calls)) ∧
    (∀ eventId fn, Proper eventId →
      (registerEventHandler (registryAfter calls) eventId (some fn)).1 = true →
      pairs (registerEventHandler (registryAfter calls) eventId (some fn)).2 =
        insert (eventId, fn) (pairs (registryAfter calls))) ∧
    (∀ fn, pairs (unregisterEventHandler (registryAfter calls) (some fn)) =
      {p ∈ pairs (registryAfter calls) | p.2 ≠ fn}) ∧
    unregisterEventHandler (registryAfter calls) noHandler = registryAfter calls ∧
    ∀ eventId, Proper eventId → pairs (unregisterEventId (registryAfter calls) eventId) =
      {p ∈ pairs (registryAfter calls) | p.1 ≠ eventId} := by
  have hsound := sound_registryAfter hcalls
  refine ⟨fun i j => hsound.once, ⟨finite_pairs _, hsound.ncard_pairs_le⟩,
    fun eventId handler hid => ⟨?_, registerEventHandler_of_false⟩,
    fun eventId fn hid hok => hsound.pairs_registerEventHandler hid hok,
    pairs_unregisterEventHandler _, rfl, fun eventId hid => pairs_unregisterEventId _ hid⟩
  cases handler with
  | none =>
    -- NULL is turned away before the registry is searched
    apply iff_of_false Bool.false_ne_true
    rintro ⟨fn, hfn, _⟩
    exact Option.some_ne_none fn hfn.symm
  | some fn =>
    rw [hsound.registerEventHandler_fst_iff hid]
    simp only [Option.some.injEq, exists_eq_left']

/-- A handler registered for two ids and unregistered again. -/
theorem eventRegistry_boundedSet_unregister :
    pairs (unregisterEventHandler (registryAfter [.register 3 (some 7), .register 4 (some 7)])
      (some 7)) =
      {p ∈ pairs (registryAfter [.register 3 (some 7), .register 4 (some 7)]) | p.2 ≠ 7} :=
  (eventRegistry_boundedSet [.register 3 (some 7), .register 4 (some 7)] (by decide)).2.2.2.2.1 7

end EspTesting.Event
