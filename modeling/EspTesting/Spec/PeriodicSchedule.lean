import EspTesting.Spec.EventTimeTick

/-!
# The schedule of periodic events

Which events a tick posts, as a function of the requests drained so far: the last request for
an id decides alone, and an id started with a delay `d` and `n` calls is posted at the ticks
`j * max d 1` for `j = 1..n`, counted from the tick that drains the request, or for all `j ≥ 1`
if `n` is negative.

## Key results

- `current_succ`: a turn of the scan, in terms of the age of a request
- `posts_exact`: the posts of every run are the scheduled ones
-/

namespace EspTesting.EventTime

/-! ## The schedule -/

/-- The ticks between two calls. -/
def period (r : PeriodicEvent) : Nat := max r.initDelay 1

/-- The last request for an event id. -/
def lastRequest (requests : List Request) (e : Int) : Option Request :=
  (requests.filter fun q => idOf q.2 = e).getLast?

/-- An event that is due at the tick `T`, if the requests are those drained by then. -/
def Scheduled (requests : List Request) (T : Nat) (evn : DevEvn) : Prop :=
  ∃ S r, lastRequest (drainedBy requests T) evn.eventId = some (S, r) ∧ r.evn.ctx = evn.ctx ∧
    ∃ j : Nat, 1 ≤ j ∧ (r.invoke < 0 ∨ j ≤ r.invoke) ∧ T + 1 = S + j * period r

/-- A request has calls left after the ticks of its age. -/
def Remains (r : PeriodicEvent) (age : Nat) : Prop :=
  r.invoke < 0 ∨ ((age / period r : Nat) : Int) < r.invoke

instance (r : PeriodicEvent) (age : Nat) : Decidable (Remains r age) :=
  inferInstanceAs (Decidable (_ ∨ _))

/-- An event id is active at the tick `T`, before its posts. -/
def Active (requests : List Request) (T : Nat) (e : Int) : Prop :=
  ∃ q, lastRequest requests e = some q ∧ Remains q.2 (T - q.1)

/-- No request makes more event ids active than there are slots. -/
def Capacity (requests : List Request) (ticks : Nat) : Prop :=
  ∀ before q after, requests = before ++ q :: after → q.1 ≤ ticks →
    ∀ es : List Int, es.Nodup → (∀ e ∈ es, Active (before ++ [q]) q.1 e) →
      es.length ≤ periodicEvnListLen

theorem period_pos (r : PeriodicEvent) : 0 < period r := Nat.le_max_right ..

/-- One more request is the last one for its id. -/
theorem lastRequest_concat (requests : List Request) (q : Request) (e : Int) :
    lastRequest (requests ++ [q]) e =
      if idOf q.2 = e then some q else lastRequest requests e := by
  unfold lastRequest
  rw [List.filter_append]
  by_cases h : idOf q.2 = e
  · rw [if_pos h, List.filter_singleton, decide_eq_true h]
    exact List.getLast?_concat
  · rw [if_neg h, List.filter_singleton, decide_eq_false h]
    exact congrArg List.getLast? (List.append_nil _)

/-- The last request for an id has this id. -/
theorem idOf_of_lastRequest {requests : List Request} {e : Int} {q : Request}
    (h : lastRequest requests e = some q) : idOf q.2 = e := by
  have hmem := List.mem_of_getLast? h
  exact of_decide_eq_true (List.mem_filter.mp hmem).2

/-- Fewer requests and an earlier time need no more room. -/
theorem Capacity.mono {requests : List Request} {ticks ticks' : Nat} {more : List Request}
    (h : Capacity (requests ++ more) ticks') (hle : ticks ≤ ticks') :
    Capacity requests ticks := by
  intro before q after heq hq
  refine h before q (after ++ more) ?_ (Nat.le_trans hq hle)
  rw [heq, List.append_assoc, List.cons_append]

/-- Fewer requests than slots never exceed the capacity. -/
theorem capacity_of_length_le {requests : List Request}
    (h : requests.length ≤ periodicEvnListLen) (ticks : Nat) : Capacity requests ticks := by
  intro before q after heq _ es hnodup hactive
  -- every active id has a request
  have hsub : es ⊆ (before ++ [q]).map fun q => idOf q.2 := by
    intro e he
    obtain ⟨q', hlast, _⟩ := hactive e he
    exact List.mem_map.mpr ⟨q', (List.mem_filter.mp (List.mem_of_getLast? hlast)).1,
      idOf_of_lastRequest hlast⟩
  have hle := (hnodup.subperm hsub).length_le
  rw [heq, List.length_append, List.length_cons] at h
  rw [List.length_map, List.length_append, List.length_singleton] at hle
  omega

/-! ## Slots by age -/

/-- The slot of a request after the ticks of its age. -/
def slotAfter (r : PeriodicEvent) (age : Nat) : PeriodicEvent where
  evn := r.evn
  invoke := if r.invoke < 0 then r.invoke else r.invoke - (age / period r : Nat)
  initDelay := r.initDelay
  delay := r.initDelay - age % period r

/-- The slot, if there are calls left. -/
def current (r : PeriodicEvent) (age : Nat) : Option PeriodicEvent :=
  if Remains r age then some (slotAfter r age) else none

/-- The slot of an event id before the posts of the tick `T`. -/
def plan (requests : List Request) (T : Nat) (e : Int) : Option PeriodicEvent :=
  (lastRequest requests e).bind fun q => current q.2 (T - q.1)

/-- A slot with calls left is in use. -/
theorem isFree_slotAfter {r : PeriodicEvent} {age : Nat} (h : Remains r age) :
    isFree (slotAfter r age) = false := by
  have hne : (slotAfter r age).invoke ≠ 0 := by
    unfold slotAfter
    rcases h with hneg | hlt
    · rw [if_pos hneg]
      exact hneg.ne
    · dsimp only
      split <;> omega
  exact decide_eq_false hne

/-- A request without calls has no entry, any other one begins. -/
theorem current_zero (r : PeriodicEvent) :
    current r 0 = if isFree r then none else some (started r) := by
  have hremains : Remains r 0 ↔ r.invoke ≠ 0 := by
    unfold Remains
    rw [Nat.zero_div]
    omega
  have hslot : r.invoke ≠ 0 → slotAfter r 0 = started r := by
    intro _
    unfold slotAfter started
    simp only [Nat.zero_div, Nat.zero_mod, Nat.sub_zero, Int.natCast_zero, Int.sub_zero, ite_self]
  unfold current
  by_cases h : r.invoke = 0
  · rw [if_neg (fun hr => hremains.mp hr h), if_pos (decide_eq_true h)]
  · rw [if_pos (hremains.mpr h), hslot h,
      if_neg (fun hfree => h (of_decide_eq_true hfree))]

/-- A multiple comes next exactly at the end of a period. -/
theorem dvd_succ_iff {p age : Nat} (hp : 0 < p) : p ∣ age + 1 ↔ age % p + 1 = p := by
  have hsplit : age + 1 = p * (age / p) + (age % p + 1) := by
    rw [← Nat.add_assoc, Nat.div_add_mod]
  rw [hsplit, Nat.dvd_add_right (Nat.dvd_mul_right ..)]
  exact ⟨fun h => Nat.le_antisymm (Nat.mod_lt age hp) (Nat.le_of_dvd (Nat.succ_pos _) h),
    fun h => dvd_of_eq h.symm⟩

/-- Inside a period the remainder goes up. -/
theorem succ_mod_of_not_dvd {p age : Nat} (hp : 0 < p) (h : ¬ p ∣ age + 1) :
    (age + 1) % p = age % p + 1 := by
  have hlt : age % p + 1 < p := by
    have hmod := Nat.mod_lt age hp
    have hne : age % p + 1 ≠ p := fun heq => h ((dvd_succ_iff hp).mpr heq)
    omega
  rw [← Nat.mod_add_mod, Nat.mod_eq_of_lt hlt]

/-- The delay of a slot runs out when its age reaches a multiple of the period. -/
theorem isDue_slotAfter (r : PeriodicEvent) (age : Nat) :
    isDue (slotAfter r age) = decide (period r ∣ age + 1) := by
  have hmod := Nat.mod_lt age (period_pos r)
  have hperiod : period r = max r.initDelay 1 := rfl
  have hiff : r.initDelay - age % period r ≤ 1 ↔ period r ∣ age + 1 := by
    rw [dvd_succ_iff (period_pos r)]
    omega
  exact decide_eq_decide.mpr hiff

/-- At the end of a period one call fewer is left. -/
theorem remains_succ_of_dvd {r : PeriodicEvent} {age : Nat} (h : period r ∣ age + 1) :
    Remains r (age + 1) ↔ r.invoke < 0 ∨ ((age / period r : Nat) : Int) + 1 < r.invoke := by
  unfold Remains
  rw [Nat.succ_div_of_dvd h, Int.natCast_succ]

/-- Inside a period as many calls are left as before. -/
theorem remains_succ_of_not_dvd {r : PeriodicEvent} {age : Nat} (h : ¬ period r ∣ age + 1) :
    Remains r (age + 1) ↔ Remains r age := by
  unfold Remains
  rw [Nat.succ_div_of_not_dvd h]

/-- Calls that are left were left before. -/
theorem remains_of_succ {r : PeriodicEvent} {age : Nat} (h : Remains r (age + 1)) :
    Remains r age := by
  by_cases hdvd : period r ∣ age + 1
  · rcases (remains_succ_of_dvd hdvd).mp h with hneg | hlt
    · exact Or.inl hneg
    · exact Or.inr (by omega)
  · exact (remains_succ_of_not_dvd hdvd).mp h

/-- A turn of the scan that posts: it takes a call off the count and reloads the delay. -/
theorem countDown_of_dvd {r : PeriodicEvent} {age : Nat} (h : Remains r age)
    (hdvd : period r ∣ age + 1) : countDown (slotAfter r age) =
      if Remains r (age + 1) then slotAfter r (age + 1)
      else { slotAfter r age with invoke := noCall, delay := 0 } := by
  have hlive : (slotAfter r age).invoke ≠ noCall := of_decide_eq_false (isFree_slotAfter h)
  -- the delay has run down: the calls go down by one and the delay starts anew
  have hdue : (slotAfter r age).delay ≤ 1 :=
    of_decide_eq_true ((isDue_slotAfter r age).trans (decide_eq_true hdvd))
  have hcount : (if (slotAfter r age).invoke > 0 then (slotAfter r age).invoke - 1
      else (slotAfter r age).invoke) =
      if Remains r (age + 1) then (slotAfter r (age + 1)).invoke else noCall := by
    rw [if_congr (remains_succ_of_dvd hdvd) rfl rfl]
    unfold Remains at h
    unfold slotAfter
    dsimp only [noCall]
    rw [Nat.succ_div_of_dvd hdvd, Int.natCast_succ]
    generalize age / period r = calls at h
    split <;> split <;> split <;> omega
  -- the delay is the first one again
  have hdelay : (slotAfter r (age + 1)).delay = r.initDelay := by
    unfold slotAfter
    rw [Nat.mod_eq_zero_of_dvd hdvd]
    rfl
  unfold countDown
  rw [if_neg hlive, if_pos hdue, hcount]
  by_cases h' : Remains r (age + 1)
  · have hlive' : (slotAfter r (age + 1)).invoke ≠ noCall :=
      of_decide_eq_false (isFree_slotAfter h')
    simp only [if_pos h', ne_eq, hlive', not_false_eq_true, if_true]
    show (⟨r.evn, _, r.initDelay, r.initDelay⟩ : PeriodicEvent) =
      ⟨r.evn, (slotAfter r (age + 1)).invoke, r.initDelay, (slotAfter r (age + 1)).delay⟩
    rw [hdelay]
  · simp only [if_neg h', ne_eq, not_true_eq_false, if_false]

/-- A turn of the scan that only takes one off the delay. -/
theorem countDown_of_not_dvd {r : PeriodicEvent} {age : Nat} (h : Remains r age)
    (hdvd : ¬ period r ∣ age + 1) : countDown (slotAfter r age) = slotAfter r (age + 1) := by
  have hlive : (slotAfter r age).invoke ≠ noCall := of_decide_eq_false (isFree_slotAfter h)
  have hdue : ¬ (slotAfter r age).delay ≤ 1 :=
    of_decide_eq_false ((isDue_slotAfter r age).trans (decide_eq_false hdvd))
  unfold countDown
  rw [if_neg hlive, if_neg hdue]
  unfold slotAfter
  rw [Nat.succ_div_of_not_dvd hdvd, succ_mod_of_not_dvd (period_pos r) hdvd, Nat.sub_sub]

/-- A turn of the scan, in terms of the age. -/
theorem current_succ (r : PeriodicEvent) (age : Nat) :
    ((current r age).map countDown).filter (fun event => !isFree event) = current r (age + 1) := by
  unfold current
  by_cases h : Remains r age
  · rw [if_pos h, Option.map_some]
    -- a period ends here, or goes on
    by_cases hdvd : period r ∣ age + 1
    · rw [countDown_of_dvd h hdvd]
      by_cases h' : Remains r (age + 1)
      · rw [if_pos h', if_pos h', Option.filter_some, isFree_slotAfter h']
        rfl
      · rw [if_neg h', if_neg h']
        rfl
    · have h' := (remains_succ_of_not_dvd hdvd).mpr h
      rw [countDown_of_not_dvd h hdvd, if_pos h', Option.filter_some, isFree_slotAfter h']
      rfl
  · rw [if_neg h, if_neg fun h' => h (remains_of_succ h')]
    rfl

/-! ## The plan -/

/-- An id is active exactly if it has an entry in the plan. -/
theorem active_iff {requests : List Request} {T : Nat} {e : Int} :
    Active requests T e ↔ (plan requests T e).isSome = true := by
  unfold Active plan current
  cases lastRequest requests e with
  | none => exact iff_of_false (fun ⟨_, hq, _⟩ => Option.some_ne_none _ hq.symm) Bool.noConfusion
  | some q =>
    rw [Option.bind_some]
    constructor
    · rintro ⟨_, hq, hremains⟩
      rw [← Option.some.inj hq] at hremains
      rw [if_pos hremains]
      rfl
    · intro hsome
      refine ⟨q, rfl, ?_⟩
      by_contra hremains
      rw [if_neg hremains] at hsome
      exact Bool.noConfusion hsome

/-- A request replaces the plan for its id, and for no other. -/
theorem plan_concat (requests : List Request) (T : Nat) (r : PeriodicEvent) (e : Int) :
    plan (requests ++ [(T, r)]) T e =
      if idOf r = e then if isFree r then none else some (started r)
      else plan requests T e := by
  unfold plan
  rw [lastRequest_concat]
  by_cases h : idOf r = e
  · rw [if_pos h, if_pos h, Option.bind_some, Nat.sub_self, current_zero]
  · rw [if_neg h, if_neg h]

/-- A tick, for the requests drained before its posts. -/
theorem plan_succ {requests : List Request} {T : Nat} (h : ∀ q ∈ requests, q.1 ≤ T) (e : Int) :
    ((plan requests T e).map countDown).filter (fun event => !isFree event) =
      plan requests (T + 1) e := by
  unfold plan
  cases hlast : lastRequest requests e with
  | none => rfl
  | some q =>
    have hmem : q ∈ requests := (List.mem_filter.mp (List.mem_of_getLast? hlast)).1
    rw [Option.bind_some, Option.bind_some, current_succ, Nat.succ_sub (h q hmem)]

/-- Draining one request. -/
theorem entry_push_eq_plan {list : PeriodicEvnList} {requests : List Request} {T : Nat}
    {r : PeriodicEvent} (hfirst : FirstLive list) (hentry : ∀ e, entry list e = plan requests T e)
    (hcap : ∀ es : List Int, es.Nodup → (∀ e ∈ es, Active (requests ++ [(T, r)]) T e) →
      es.length ≤ periodicEvnListLen) (e : Int) :
    entry (pushPeriodicEvent list r) e = plan (requests ++ [(T, r)]) T e := by
  rw [plan_concat]
  cases hfree : isFree r with
  | true =>
    -- a stop frees the slot of its id
    by_cases hid : idOf r = e
    · rw [if_pos hid, if_pos rfl, ← hid, entry_push_stop hfirst hfree]
    · rw [if_neg hid, entry_push_of_ne hfirst hid, hentry]
  | false =>
    have hslot : slotOf list (idOf r) ≠ none := by
      -- with all slots in use the request makes one id too many active
      intro hnone
      have hall := (pushPeriodicEvent_of_none hnone).2
      have hnew : idOf r ∉ SlotTable.liveKeys idOf isFree list := by
        rw [SlotTable.mem_liveKeys_iff hfirst,
          (SlotTable.entry_eq_none_iff hfirst).mpr fun i hi => absurd hi (hall i).1]
        exact Bool.noConfusion
      have hactive : ∀ e ∈ idOf r :: SlotTable.liveKeys idOf isFree list,
          Active (requests ++ [(T, r)]) T e := by
        intro e he
        rw [active_iff, plan_concat]
        rcases List.mem_cons.mp he with rfl | he
        · rw [if_pos rfl, hfree]
          rfl
        · rw [if_neg (show idOf r ≠ e from fun hid => hnew (hid ▸ he)), ← hentry]
          exact (SlotTable.mem_liveKeys_iff hfirst).mp he
      have hle := hcap _ (List.nodup_cons.mpr ⟨hnew, SlotTable.nodup_liveKeys hfirst⟩) hactive
      rw [List.length_cons, SlotTable.length_liveKeys_eq_iff.mpr fun i => (hall i).2] at hle
      exact absurd hle (Nat.not_succ_le_self _)
    rw [entry_pushPeriodicEvent hfirst hslot, hfree]
    by_cases hid : idOf r = e
    · rw [if_pos hid, ← hid, Function.update_self]
    · rw [if_neg hid, Function.update_of_ne (fun h => hid h.symm), hentry]

/-- Draining the requests of a tick. -/
theorem entry_foldl_push_eq_plan {list : PeriodicEvnList} {requests : List Request} {T : Nat}
    {rs : List PeriodicEvent} (hfirst : FirstLive list)
    (hentry : ∀ e, entry list e = plan requests T e)
    (hcap : Capacity (requests ++ rs.map (Prod.mk T)) T) (e : Int) :
    entry (rs.foldl pushPeriodicEvent list) e = plan (requests ++ rs.map (Prod.mk T)) T e := by
  induction rs generalizing list requests with
  | nil => rw [List.map_nil, List.append_nil, List.foldl_nil, hentry]
  | cons r rs ih =>
    have hpush := entry_push_eq_plan hfirst hentry
      (hcap requests (T, r) (rs.map (Prod.mk T)) rfl (Nat.le_refl T))
    have hsplit : requests ++ (r :: rs).map (Prod.mk T) =
        (requests ++ [(T, r)]) ++ rs.map (Prod.mk T) := by
      rw [List.append_assoc]
      rfl
    rw [hsplit] at hcap ⊢
    exact ih (firstLive_pushPeriodicEvent hfirst r) hpush hcap

/-- The requests drained by a tick are not younger than it. -/
theorem le_of_lastRequest {requests : List Request} {T S : Nat} {r : PeriodicEvent} {e : Int}
    (h : lastRequest (drainedBy requests T) e = some (S, r)) : S ≤ T := by
  have hmem := (List.mem_filter.mp (List.mem_of_getLast? h)).1
  exact of_decide_eq_true (List.mem_filter.mp hmem).2

/-- A slot with calls left is due at the multiples of its period. -/
theorem due_iff {r : PeriodicEvent} {S T : Nat} (h : S ≤ T) :
    (Remains r (T - S) ∧ period r ∣ T - S + 1) ↔
      ∃ j : Nat, 1 ≤ j ∧ (r.invoke < 0 ∨ j ≤ r.invoke) ∧ T + 1 = S + j * period r := by
  have hpos := period_pos r
  unfold Remains
  constructor
  · -- the number of the call is the number of periods
    rintro ⟨hremains, hdvd⟩
    refine ⟨(T - S) / period r + 1, Nat.succ_pos _, ?_, ?_⟩
    · exact hremains.imp_right fun hlt => by rwa [Int.natCast_succ, Int.add_one_le_iff]
    · rw [← Nat.succ_div_of_dvd hdvd, Nat.div_mul_cancel hdvd]
      omega
  · rintro ⟨j, hj, hcalls, heq⟩
    have hage : T - S + 1 = j * period r := by omega
    have hdvd : period r ∣ T - S + 1 := hage ▸ Nat.dvd_mul_left ..
    have hdiv : (T - S) / period r + 1 = j := by
      rw [← Nat.succ_div_of_dvd hdvd, hage, Nat.mul_div_cancel _ hpos]
    refine ⟨hcalls.imp_right fun hle => ?_, hdvd⟩
    rw [← hdiv, Int.natCast_succ] at hle
    exact Int.lt_of_add_one_le hle

/-! ## Runs -/

/-- The events posted for an id at a tick. -/
def postsAt (posts : List Post) (T : Nat) (e : Int) : List DevEvn :=
  ((posts.filter fun p => p.tick = T).map Post.evn).filter fun evn => evn.eventId = e

/-- The posts of a tick for an id. -/
theorem mem_postsAt_iff {posts : List Post} {T : Nat} {evn : DevEvn} :
    evn ∈ postsAt posts T evn.eventId ↔ ∃ p ∈ posts, p.tick = T ∧ p.evn = evn := by
  unfold postsAt
  simp only [List.mem_filter, List.mem_map, decide_true, and_true, decide_eq_true_eq, and_assoc]

/-- Later posts do not count. -/
theorem postsAt_append_of_later {posts ps : List Post} {T : Nat} (h : ∀ p ∈ ps, p.tick ≠ T)
    (e : Int) : postsAt (posts ++ ps) T e = postsAt posts T e := by
  have hnil : ps.filter (fun p => p.tick = T) = [] :=
    List.filter_eq_nil_iff.mpr fun p hp => by simpa using h p hp
  unfold postsAt
  rw [List.filter_append, hnil, List.append_nil]

/-- Only the posts of this tick count. -/
theorem postsAt_append_of_earlier {posts ps : List Post} {T : Nat}
    (h : ∀ p ∈ posts, p.tick ≠ T) (hnew : ∀ p ∈ ps, p.tick = T) (e : Int) :
    postsAt (posts ++ ps) T e = (ps.map Post.evn).filter fun evn => evn.eventId = e := by
  have hnil : posts.filter (fun p => p.tick = T) = [] :=
    List.filter_eq_nil_iff.mpr fun p hp => by simpa using h p hp
  have hall : ps.filter (fun p => p.tick = T) = ps :=
    List.filter_eq_self.mpr fun p hp => decide_eq_true (hnew p hp)
  unfold postsAt
  rw [List.filter_append, hnil, hall, List.nil_append]

/-- The events that are due at a tick under a plan. -/
def dueAt (requests : List Request) (T : Nat) (e : Int) : Option DevEvn :=
  ((plan requests T e).filter isDue).map PeriodicEvent.evn

/-- The plan has an event due exactly if it is scheduled. -/
theorem dueAt_eq_some_iff {requests : List Request} {T : Nat} {evn : DevEvn} :
    dueAt (drainedBy requests T) T evn.eventId = some evn ↔ Scheduled requests T evn := by
  unfold dueAt plan Scheduled
  rw [Option.map_eq_some_iff]
  constructor
  · rintro ⟨event, hevent, hevn⟩
    obtain ⟨hevent, hdue⟩ := Option.filter_eq_some_iff.mp hevent
    obtain ⟨⟨S, r⟩, hlast, hcurrent⟩ := Option.bind_eq_some_iff.mp hevent
    unfold current at hcurrent
    dsimp only at hcurrent
    -- the entry due is the one of the last request, with calls left
    by_cases hremains : Remains r (T - S)
    · rw [if_pos hremains] at hcurrent
      rw [← Option.some.inj hcurrent, isDue_slotAfter, decide_eq_true_eq] at hdue
      have hctx : r.evn = evn := by
        rw [← hevn, ← Option.some.inj hcurrent]
        rfl
      refine ⟨S, r, hlast, congrArg DevEvn.ctx hctx, ?_⟩
      exact (due_iff (le_of_lastRequest hlast)).mp ⟨hremains, hdue⟩
    · rw [if_neg hremains] at hcurrent
      exact absurd hcurrent.symm (Option.some_ne_none event)
  · rintro ⟨S, r, hlast, hctx, hcalls⟩
    obtain ⟨hremains, hdue⟩ := (due_iff (le_of_lastRequest hlast)).mpr hcalls
    have hevn : r.evn = evn := by
      have hid : r.evn.eventId = evn.eventId := idOf_of_lastRequest hlast
      cases evn
      cases hr : r.evn
      rw [hr] at hid hctx
      rw [DevEvn.mk.injEq]
      exact ⟨hid, hctx⟩
    refine ⟨slotAfter r (T - S), ?_, hevn⟩
    rw [Option.filter_eq_some_iff, isDue_slotAfter, hlast, Option.bind_some]
    exact ⟨if_pos hremains, decide_eq_true hdue⟩

namespace TimeManager

/-- The table and the posts follow the plan. -/
structure Planned (s : TimeManager) : Prop where
  entry : ∀ e, entry s.periodicEvnList e = plan (drainedBy s.requests s.ticks) (s.ticks + 1) e
  posts : ∀ T ≤ s.ticks, ∀ e, postsAt s.posts T e = (dueAt (drainedBy s.requests T) T e).toList

namespace Planned

theorem boot : Planned boot where
  entry e := (SlotTable.entry_eq_none_iff Sound.boot.first).mpr fun i _ => by
    rw [show TimeManager.boot.periodicEvnList.get i = PeriodicEvent.zero from
      Vector.getElem_replicate i.isLt]
    rfl
  posts _ _ _ := rfl

theorem step_start {s : TimeManager} (h : s.Planned) (e : Int) (ctx d : Nat) (n : Int) :
    (s.step (.start e ctx d n)).Planned := by
  by_cases hlt : s.periodicEvnQueue.length < newEvnQueueLen
  · rw [step_start_of_lt hlt]
    refine ⟨fun e' => ?_, fun T hT e' => ?_⟩
    · dsimp only
      rw [drainedBy_concat (Nat.lt_succ_self _)]
      exact h.entry e'
    · dsimp only at hT ⊢
      rw [drainedBy_concat (Nat.lt_succ_of_le hT)]
      exact h.posts T hT e'
  · rw [step_start_of_ge (Nat.not_lt.mp hlt)]
    exact h

/-- A tick follows the plan. -/
theorem step_tick {s : TimeManager} (h : s.Planned) (hs : s.Sound)
    (hcap : Capacity s.requests (s.ticks + 1)) : (s.step .tick).Planned := by
  have htick := ticked_periodicEventTimerHandler hs.first
  -- the tick first takes the requests waiting, then counts every slot down
  have hdrain : ∀ e, EventTime.entry s.drain.periodicEvnList e =
      plan s.requests (s.ticks + 1) e := by
    intro e
    have hcap' := hcap
    rw [hs.queue] at hcap' ⊢
    exact entry_foldl_push_eq_plan hs.first h.entry hcap' e
  have hle : ∀ q ∈ s.requests, q.1 ≤ s.ticks + 1 := by
    intro q hq
    rw [← hs.drainedBy_succ] at hq
    exact of_decide_eq_true (List.mem_filter.mp hq).2
  show s.periodicEventTimerHandler.Planned
  refine ⟨fun e => ?_, fun T hT e => ?_⟩
  · rw [htick.entry, hdrain, htick.requests, htick.ticks, hs.drainedBy_succ, plan_succ hle]
  · obtain ⟨ps, hps, hnew, hevn⟩ := htick.posts
    rw [htick.ticks] at hT
    rw [htick.requests, hps]
    -- earlier ticks keep their posts, and the new ones are those of this tick
    rcases Nat.lt_or_eq_of_le hT with hlt | rfl
    · have hlater : ∀ p ∈ ps, p.tick ≠ T := fun p hp => by
        rw [hnew p hp]
        exact hlt.ne'
      rw [postsAt_append_of_later hlater]
      exact h.posts T (Nat.le_of_lt_succ hlt) e
    · have hearlier : ∀ p ∈ s.posts, p.tick ≠ s.ticks + 1 := fun p hp =>
        (Nat.lt_succ_of_le (hs.recent p hp)).ne
      rw [postsAt_append_of_earlier hearlier hnew, hevn, hdrain, hs.drainedBy_succ]
      exact (Option.toList_map ..).symm

/-- Every action follows the plan while there is room for the ids. -/
theorem step {s : TimeManager} (hs : s.Sound) (h : Capacity s.requests s.ticks → s.Planned)
    (a : Action) : Capacity (s.step a).requests (s.step a).ticks → (s.step a).Planned := by
  intro hcap
  -- a request is the only action that can make an id active
  have hstart : ∀ e ctx d n, Capacity (s.step (.start e ctx d n)).requests
      (s.step (.start e ctx d n)).ticks → (s.step (.start e ctx d n)).Planned := by
    intro e ctx d n hcap
    refine step_start (h ?_) e ctx d n
    by_cases hlt : s.periodicEvnQueue.length < newEvnQueueLen
    · rw [step_start_of_lt hlt] at hcap
      exact hcap.mono (Nat.le_refl _)
    · rwa [step_start_of_ge (Nat.not_lt.mp hlt)] at hcap
  cases a with
  | start e ctx d n => exact hstart e ctx d n hcap
  | stop e => exact hstart e 0 0 noCall hcap
  | tick =>
    have htick := ticked_periodicEventTimerHandler hs.first
    have hcap' : Capacity s.requests (s.ticks + 1) := by
      rw [← htick.requests, ← htick.ticks]
      exact hcap
    refine step_tick (h ?_) hs hcap'
    rw [← List.append_nil s.requests] at hcap'
    exact hcap'.mono (Nat.le_succ _)
  | setEvent e ctx =>
    obtain ⟨evnQueue, heq⟩ := step_setEvent s e ctx
    rw [heq] at hcap ⊢
    exact ⟨(h hcap).entry, (h hcap).posts⟩
  | receive => exact ⟨(h hcap).entry, (h hcap).posts⟩

/-- The plan is followed in every run in which no request makes too many ids active. -/
theorem after (as : List Action)
    (hcap : Capacity (after as).requests (after as).ticks) : (after as).Planned := by
  have hrun : (TimeManager.after as).Sound ∧
      (Capacity (TimeManager.after as).requests (TimeManager.after as).ticks →
        (TimeManager.after as).Planned) :=
    Machine.run_invariant
      (I := fun s : TimeManager => s.Sound ∧ (Capacity s.requests s.ticks → s.Planned))
      (fun s a h => ⟨h.1.step a, step h.1 h.2 a⟩) ⟨Sound.boot, fun _ => boot⟩ as
  exact hrun.2 hcap

end Planned

/-! ## The schedule is kept -/

/-- At most one slot in use for each event id. -/
def OneSlotEach (list : PeriodicEvnList) : Prop :=
  ∀ i j, (list.get i).invoke ≠ noCall → (list.get j).invoke ≠ noCall →
    (list.get i).evn.eventId = (list.get j).evn.eventId → i = j

theorem oneSlotEach_of_firstLive {list : PeriodicEvnList} (h : FirstLive list) :
    OneSlotEach list :=
  fun _ _ hi hj hid => h.unique (decide_eq_false hi) (decide_eq_false hj) hid

/-- In every run in which no request makes too many ids active, at most one slot is in use for
    an id at every moment, between two ticks and inside of one, and each tick posts exactly the
    events that are due by the last request for their id, each once. -/
theorem posts_exact (as : List Action) (hcap : Capacity (after as).requests (after as).ticks) :
    (∀ k, OneSlotEach
      (((after as).periodicEvnQueue.take k).foldl pushPeriodicEvent (after as).periodicEvnList)) ∧
    (∀ k, OneSlotEach (((List.finRange periodicEvnListLen).take k).foldl scanSlot
      (after as).drain).periodicEvnList) ∧
    ∀ T ≤ (after as).ticks,
      (∀ evn, (∃ p ∈ (after as).posts, p.tick = T ∧ p.evn = evn) ↔
        Scheduled (after as).requests T evn) ∧
      ∀ e, (postsAt (after as).posts T e).length ≤ 1 := by
  have hsound := Sound.after as
  have hplanned := Planned.after as hcap
  refine ⟨fun k => ?_, fun k => ?_, fun T hT => ⟨fun evn => ?_, fun e => ?_⟩⟩
  · exact oneSlotEach_of_firstLive (firstLive_foldl_push hsound.first _)
  · have hnodup : ((List.finRange periodicEvnListLen).take k).Nodup :=
      (List.nodup_finRange _).sublist (List.take_sublist _ _)
    exact oneSlotEach_of_firstLive
      ((scanned_foldl _ hnodup).first (firstLive_foldl_push hsound.first _))
  · rw [← mem_postsAt_iff, hplanned.posts T hT, Option.mem_toList, dueAt_eq_some_iff]
  · rw [hplanned.posts T hT]
    exact Option.length_toList_le

/-- An event started with a delay of 2 is posted by the tick behind the next one. -/
theorem posts_exact_delay_two :
    ∃ p ∈ (after [.start 7 42 2 3, .tick, .tick]).posts, p.tick = 2 ∧ p.evn = ⟨7, 42⟩ := by
  have hexact := posts_exact [.start 7 42 2 3, .tick, .tick]
    (capacity_of_length_le (by decide +kernel) _)
  refine ((hexact.2.2 2 (by decide +kernel)).1 ⟨7, 42⟩).mpr ?_
  exact ⟨1, ⟨⟨7, 42⟩, 3, 2, 2⟩, by decide +kernel, rfl, 1, Nat.le_refl 1, Or.inr (by decide), rfl⟩

end TimeManager

end EspTesting.EventTime
