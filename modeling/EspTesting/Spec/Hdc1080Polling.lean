import EspTesting.ForStd.Machine
import EspTesting.Native.Hdc1080

/-!
# Polling the sensor

The handler of the polls sends the configuration of the sensor as long as `is_init` is not set,
and nothing sets it: the assignment stands behind the test of the variable itself. So every
poll configures the sensor, and none measures. With the variable set, every poll would move the
pointer to the operations on, beyond the end of the array from the third one on.

## Key results

- `ranges_of_not_isInit`, `ranges_of_isInit`: what the polls send, by the value of `is_init`
- `hdc1080_polling_iff`
-/

namespace EspTesting.I2c.Hdc1080

/-- A poll. The state of the bus at a poll is arbitrary, as others send requests in between. -/
def step (s : Hdc1080) (w : I2cWorld) : Hdc1080 := (s.pollingHandler w).2.1

/-- The range of operations that is passed to `i2c_send_async` at a poll. -/
def passed (s : Hdc1080) (w : I2cWorld) : Option OpRange := (s.pollingHandler w).1

/-- What the polls pass to `i2c_send_async`. -/
def ranges (s : Hdc1080) (polls : List I2cWorld) : List (Option OpRange) :=
  Machine.outputs step passed s polls

variable {s : Hdc1080} {range : OpRange}

/-! ## What a poll sends -/

/-- A poll with the flag not set leaves everything as it is. -/
theorem pollingHandler_of_not_isInit (hflag : s.isInit = false) (hrange : s.range = some range)
    (w : I2cWorld) :
    s.pollingHandler w = (some range, s, (i2cSendAsync (s.request range) w).2) := by
  obtain ⟨ops, port, deviceAddr, regAddr16b, _, _⟩ := s
  simp only at hflag hrange
  subst hflag hrange
  rfl

/-- A poll with the flag set moves the pointer on. -/
theorem pollingHandler_of_isInit (hflag : s.isInit = true) (hrange : s.range = some range)
    (w : I2cWorld) : s.pollingHandler w = (some ⟨range.ops + 1, 2⟩,
      { s with range := some ⟨range.ops + 1, 2⟩ },
      (i2cSendAsync (s.request ⟨range.ops + 1, 2⟩) w).2) := by
  obtain ⟨ops, port, deviceAddr, regAddr16b, _, _⟩ := s
  simp only at hflag hrange
  subst hflag hrange
  rfl

/-- With the flag not set, all polls send the same range. -/
theorem ranges_of_not_isInit (hflag : s.isInit = false) (hrange : s.range = some range)
    (polls : List I2cWorld) :
    s.ranges polls = List.replicate polls.length (some range) := by
  induction polls with
  | nil => rfl
  | cons w polls ih =>
    have hpoll := pollingHandler_of_not_isInit hflag hrange w
    show s.passed w :: (s.step w).ranges polls = _
    rw [passed, step, hpoll, ih]
    rfl

/-- With the flag set, every poll sends the range behind the one before it. -/
theorem ranges_of_isInit (hflag : s.isInit = true) (hrange : s.range = some range)
    (polls : List I2cWorld) : s.ranges polls =
      (List.range polls.length).map fun k => some ⟨range.ops + 1 + k, 2⟩ := by
  induction polls generalizing s range with
  | nil => rfl
  | cons w polls ih =>
    have hpoll := pollingHandler_of_isInit hflag hrange w
    -- each poll moves the start by one operation
    have hrest := @ih { s with range := some ⟨range.ops + 1, 2⟩ } ⟨range.ops + 1, 2⟩ hflag rfl
    show s.passed w :: (s.step w).ranges polls = _
    rw [passed, step, hpoll, List.length_cons, List.range_succ_eq_map, List.map_cons, List.map_map]
    show _ :: ranges { s with range := some ⟨range.ops + 1, 2⟩ } polls = _
    rw [hrest]
    congr 1
    apply List.map_congr_left
    intro k _
    have hops : range.ops + 1 + 1 + k = range.ops + 1 + (k + 1) := by omega
    show some (OpRange.mk (range.ops + 1 + 1 + k) 2) = _
    rw [hops]
    rfl

/-! ## From `hdc1080_init` on -/

/-- The variables after `hdc1080_init`. -/
def started (configData : Nat) (hum temp : Option Nat) : Hdc1080 := boot.init configData hum temp

/-- The first poll configures the sensor, every later one measures, and no poll reaches beyond
    the operations. -/
structure PollsProgress (sent : List (Option OpRange)) : Prop where
  config : ∀ range, sent.head? = some range → range = some ⟨0, 1⟩
  measure : ∀ range ∈ sent.tail, range = some ⟨1, 2⟩
  inside : ∀ range, some range ∈ sent → range.ops + range.opCount ≤ 3

variable (configData : Nat) (hum temp : Option Nat) (polls : List I2cWorld)

/-- Every poll sends the configuration. -/
theorem ranges_started :
    (started configData hum temp).ranges polls = List.replicate polls.length (some ⟨0, 1⟩) :=
  ranges_of_not_isInit rfl rfl polls

/-- No poll reaches beyond the operations. -/
theorem inside_of_mem_ranges {range : OpRange}
    (h : some range ∈ (started configData hum temp).ranges polls) :
    range.ops + range.opCount ≤ 3 := by
  rw [ranges_started, List.mem_replicate, Option.some.injEq] at h
  rw [h.2]
  decide

/-- The polls go on to measuring only as long as there is no second one. -/
theorem hdc1080_polling_iff :
    PollsProgress ((started configData hum temp).ranges polls) ↔ polls.length ≤ 1 := by
  constructor
  · intro h
    apply Nat.le_of_not_lt
    intro hlen
    have hmeasure := h.measure (some ⟨0, 1⟩)
    -- all polls pass the configuration
    rw [ranges_started, List.tail_replicate, List.mem_replicate] at hmeasure
    exact absurd (hmeasure ⟨by omega, rfl⟩) (by decide)
  · intro hlen
    constructor
    · intro range hhead
      rw [ranges_started] at hhead
      have hmem := List.mem_of_mem_head? hhead
      exact (List.mem_replicate.mp hmem).2
    · intro range hmem
      rw [ranges_started, List.tail_replicate, List.mem_replicate] at hmem
      omega
    · exact fun range hmem => inside_of_mem_ranges configData hum temp polls hmem

/-- The second of two polls configures the sensor again. -/
theorem hdc1080_polling_fails :
    ¬PollsProgress ((started 0 (some 4) (some 8)).ranges
      [I2cWorld.boot fun _ => 0, I2cWorld.boot fun _ => 0]) := by
  intro h
  have hmeasure := h.measure (some ⟨0, 1⟩) (List.mem_singleton.mpr rfl)
  exact absurd hmeasure (by decide)

end EspTesting.I2c.Hdc1080
