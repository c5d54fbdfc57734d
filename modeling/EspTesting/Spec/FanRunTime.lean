import Mathlib.Algebra.Group.Nat.Defs
import EspTesting.Native.FanFsm

/-!
# How long the fan runs

The fan runs in three of the states, between which it may go back and forth. Since it went into
`FAN_V2` from `FAN_V1` it has run for `runtime_seconds` (`Ran`), and it is in `FAN_MIN_TIME` only
for a stretch that began before the longest run time was over.

## Key results

- `updated`: what one update does, by the state of the fan and what it sees
- `Ran.update`: a fan that has run for `m` updates, one update later
- `minTime_since`: how a stretch in `FAN_MIN_TIME` began and what was seen in it
- `fanRunTime`
-/

namespace EspTesting.Humidity

/-- The fan is running at its higher speed. -/
def FanState.Running : FanState → Prop
  | v2 | minTime | maxTime => True
  | off | v1 => False

instance : DecidablePred FanState.Running
  | .v2 | .minTime | .maxTime => inferInstanceAs (Decidable True)
  | .off | .v1 => inferInstanceAs (Decidable False)

/-- The controller after the first `k` analyzer states of a sequence. -/
def fanAt (fc : FanController) (ha : Nat → HumidityAnalyzer) : Nat → FanController
  | 0 => fc
  | k + 1 => fanControllerUpdate (fanAt fc ha k) (ha k)

/-- The update with the `k`-th analyzer state of the sequence takes the fan from `FAN_V1` to
    `FAN_V2`. -/
def Enters (fc : FanController) (ha : Nat → HumidityAnalyzer) (k : Nat) : Prop :=
  (fanAt fc ha k).fanState = .v1 ∧ (fanAt fc ha (k + 1)).fanState = .v2

/-! ## An update -/

variable {fc : FanController} {a : HumidityAnalyzer} {ha : Nat → HumidityAnalyzer} {k : Nat}

/-- What an update does. -/
inductive Updated (fc : FanController) (a : HumidityAnalyzer) : FanController → Prop
  | off (h : fc.fanState = .off) : Updated fc a fc
  | start (h : fc.fanState = .v1) : Updated fc a { fc with fanState := .v2, runtimeSeconds := 0 }
  | wait (h : fc.fanState = .v1) : Updated fc a fc
  | toMaxTime (h : fc.fanState = .v2) (hmax : fanMaxRuntimeS ≤ fc.runtimeSeconds + 1) :
    Updated fc a { fc with fanState := .maxTime, runtimeSeconds := fc.runtimeSeconds + 1 }
  | toMinTime (h : fc.fanState = .v2) (hmax : ¬fanMaxRuntimeS ≤ fc.runtimeSeconds + 1) :
    Updated fc a
      { fanState := .minTime, runtimeSeconds := fc.runtimeSeconds + 1
        stopTime := fc.runtimeSeconds + 1 + fanMinRuntimeS }
  | run (h : fc.fanState = .v2) (hmax : ¬fanMaxRuntimeS ≤ fc.runtimeSeconds + 1) :
    Updated fc a { fc with runtimeSeconds := fc.runtimeSeconds + 1 }
  | back (h : fc.fanState = .minTime) :
    Updated fc a { fc with fanState := .v2, runtimeSeconds := fc.runtimeSeconds + 1 }
  | stop (h : fc.fanState = .minTime) (hcalm : humidityRise a = false)
      (hstop : fc.stopTime ≤ fc.runtimeSeconds + 1) :
    Updated fc a { fc with fanState := .off, runtimeSeconds := fc.runtimeSeconds + 1 }
  | runOn (h : fc.fanState = .minTime) (hcalm : humidityRise a = false)
      (hstop : ¬fc.stopTime ≤ fc.runtimeSeconds + 1) :
    Updated fc a { fc with runtimeSeconds := fc.runtimeSeconds + 1 }
  | maxTime (h : fc.fanState = .maxTime) : Updated fc a ⟨0, 0, .off⟩

/-- An update is one of the moves of the fan. -/
theorem updated (fc : FanController) (a : HumidityAnalyzer) :
    Updated fc a (fanControllerUpdate fc a) := by
  obtain ⟨runtime, stop, state⟩ := fc
  unfold fanControllerUpdate
  cases state with
  | off => exact Updated.off rfl
  | v1 =>
    dsimp only
    split
    · exact Updated.start rfl
    · exact Updated.wait rfl
  | v2 =>
    dsimp only
    split
    · rename_i hmax
      exact Updated.toMaxTime rfl hmax
    · rename_i hmax
      split
      · exact Updated.toMinTime rfl hmax
      · exact Updated.run rfl hmax
  | minTime =>
    dsimp only
    split
    · exact Updated.back rfl
    · rename_i hrise
      have hcalm : humidityRise a = false := Bool.eq_false_iff.mpr hrise
      split
      · rename_i hstop
        exact Updated.stop rfl hcalm hstop
      · rename_i hstop
        exact Updated.runOn rfl hcalm hstop
  | maxTime => exact Updated.maxTime rfl

/-! ## The time since the fan was switched to its higher speed -/

/-- The controller `m` updates after it went from `FAN_V1` to `FAN_V2`. -/
def Ran (m : Nat) (fc : FanController) : Prop :=
  match fc.fanState with
  | .off => True
  | .v1 => False
  | .v2 => fc.runtimeSeconds.toNat = m ∧ m < 3600 + 30
  -- `r` is the run time at which the state was entered
  | .minTime => fc.runtimeSeconds.toNat = m ∧
      ∃ r < 3600, fc.stopTime.toNat = r + 30 ∧ r ≤ m ∧ m < r + 30
  | .maxTime => fc.runtimeSeconds.toNat = m ∧ 3600 ≤ m ∧ m ≤ 3600 + 30

/-- One second more, without an overflow. -/
theorem toNat_succ {n : UInt32} {m : Nat} (hn : n.toNat = m) (hm : m < 2 ^ 31) :
    (n + 1).toNat = m + 1 := by
  rw [UInt32.toNat_add, hn]
  exact Nat.mod_eq_of_lt (show m + 1 < 2 ^ 32 by omega)

/-- After one second more the fan ran one second more. -/
theorem Ran.update {m : Nat} (h : Ran m fc) (a : HumidityAnalyzer) :
    Ran (m + 1) (fanControllerUpdate fc a) := by
  have hupdated := updated fc a
  generalize fanControllerUpdate fc a = fc' at hupdated
  unfold Ran at h
  cases hupdated with
  | off hstate =>
    unfold Ran
    rw [hstate]
    trivial
  | start hstate =>
    rw [hstate] at h
    exact h.elim
  | wait hstate =>
    rw [hstate] at h
    exact h.elim
  | toMaxTime hstate hmax =>
    simp only [hstate] at h
    have hrun := toNat_succ h.1 (by omega)
    rw [UInt32.le_iff_toNat_le, hrun] at hmax
    exact ⟨hrun, hmax, by omega⟩
  -- the time to stop is 30 seconds from now
  | toMinTime hstate hmax =>
    simp only [hstate] at h
    have hrun := toNat_succ h.1 (by omega)
    rw [UInt32.le_iff_toNat_le, hrun] at hmax
    have hmax' : ¬3600 ≤ m + 1 := hmax
    refine ⟨hrun, m + 1, by omega, ?_, Nat.le_refl _, by omega⟩
    show (fc.runtimeSeconds + 1 + fanMinRuntimeS).toNat = m + 1 + 30
    rw [UInt32.toNat_add, hrun]
    exact Nat.mod_eq_of_lt (show m + 1 + 30 < 2 ^ 32 by omega)
  | run hstate hmax =>
    simp only [hstate] at h
    have hrun := toNat_succ h.1 (by omega)
    rw [UInt32.le_iff_toNat_le, hrun] at hmax
    have hmax' : ¬3600 ≤ m + 1 := hmax
    unfold Ran
    simp only [hstate]
    exact ⟨hrun, by omega⟩
  | back hstate =>
    simp only [hstate] at h
    obtain ⟨hrun, r, hr, _, _, hlt⟩ := h
    exact ⟨toNat_succ hrun (by omega), by omega⟩
  | stop => trivial
  -- the time to stop is not reached
  | runOn hstate _ hstop =>
    simp only [hstate] at h
    obtain ⟨hrun, r, hr, hstopTime, hle, hlt⟩ := h
    have hrun' := toNat_succ hrun (by omega)
    rw [UInt32.le_iff_toNat_le, hrun', hstopTime] at hstop
    unfold Ran
    simp only [hstate]
    exact ⟨hrun', r, hr, hstopTime, by omega, by omega⟩
  | maxTime => trivial

/-- The run time starts at zero. -/
theorem Enters.ran_zero (h : Enters fc ha k) : Ran 0 (fanAt fc ha (k + 1)) := by
  obtain ⟨hv1, hv2⟩ := h
  rw [fanAt] at hv2 ⊢
  have hupdated := updated (fanAt fc ha k) (ha k)
  generalize fanControllerUpdate (fanAt fc ha k) (ha k) = fc' at hupdated hv2
  -- only this move goes from the first state to the second
  cases hupdated with
  | start => exact ⟨rfl, by omega⟩
  | wait hstate => exact absurd (hstate.symm.trans hv2) FanState.noConfusion
  | off hstate | toMaxTime hstate _ | toMinTime hstate _ | run hstate _ | back hstate
  | stop hstate _ _ | runOn hstate _ _ | maxTime hstate =>
    exact absurd (hstate.symm.trans hv1) FanState.noConfusion

/-- The fan ran as many seconds as went by. -/
theorem Enters.ran (h : Enters fc ha k) (m : Nat) : Ran m (fanAt fc ha (k + 1 + m)) := by
  induction m with
  | zero => exact h.ran_zero
  | succ m ih => exact ih.update (ha (k + 1 + m))

/-- A fan that is running counts its run time. -/
theorem Ran.runtimeSeconds {m : Nat} (h : Ran m fc) (hrunning : fc.fanState.Running) :
    fc.runtimeSeconds.toNat = m := by
  unfold Ran at h
  revert h hrunning
  cases fc.fanState with
  | off => exact fun _ hrunning => hrunning.elim
  | v1 => exact fun _ hrunning => hrunning.elim
  | v2 => exact fun h _ => h.1
  | minTime => exact fun h _ => h.1
  | maxTime => exact fun h _ => h.1

/-- A fan does not run for longer than this. -/
theorem Ran.lt {m : Nat} (h : Ran m fc) (hrunning : fc.fanState.Running) : m < 3600 + 31 := by
  unfold Ran at h
  revert h hrunning
  cases fc.fanState with
  | off => exact fun _ hrunning => hrunning.elim
  | v1 => exact fun _ hrunning => hrunning.elim
  | v2 =>
    intro h _
    omega
  | minTime =>
    rintro ⟨_, r, hr, _, _, hlt⟩ _
    omega
  | maxTime =>
    intro h _
    omega

/-- A fan that ran and is not off is running. -/
theorem Ran.running_of_ne_off {m : Nat} (h : Ran m fc) (hon : fc.fanState ≠ .off) :
    fc.fanState.Running := by
  unfold Ran at h
  revert h hon
  cases fc.fanState with
  | off => exact fun _ hon => hon rfl
  | v1 => exact fun h _ => h
  | v2 => exact fun _ _ => trivial
  | minTime => exact fun _ _ => trivial
  | maxTime => exact fun _ _ => trivial

/-- After the longest run the fan is off. -/
theorem Ran.eq_off (h : Ran (3600 + 30 + 1) fc) : fc.fanState = .off := by
  cases hstate : fc.fanState with
  | off => rfl
  | v1 | v2 | minTime | maxTime =>
    have hlt := h.lt (h.running_of_ne_off (by simp [hstate]))
    omega

/-- The fan has not been switched to its higher speed yet, is off, or runs since it was. -/
theorem fanAt_cases (hstart : fc.fanState = .v1 ∨ fc.fanState = .off) (j : Nat) :
    (fanAt fc ha j).fanState = .v1 ∨ (fanAt fc ha j).fanState = .off ∨
    ∃ k m, Enters fc ha k ∧ j = k + 1 + m := by
  induction j with
  | zero => exact hstart.imp_right Or.inl
  | succ j ih =>
    rcases ih with hv1 | hoff | ⟨k, m, hk, rfl⟩
    · -- waiting: the fan starts, or goes on waiting
      by_cases hrise : humidityRise (ha j) = true
      · refine Or.inr (Or.inr ⟨j, 0, ⟨hv1, ?_⟩, rfl⟩)
        simp only [fanAt, fanControllerUpdate, hv1, hrise, if_true]
      · apply Or.inl
        simp only [fanAt, fanControllerUpdate, hv1, hrise, Bool.false_eq_true, if_false]
    · apply Or.inr
      apply Or.inl
      simp only [fanAt, fanControllerUpdate, hoff]
    · exact Or.inr (Or.inr ⟨k, m + 1, hk, rfl⟩)

/-- The run time stays far below where its counter would wrap. -/
theorem runtimeSeconds_lt (hstart : fc.fanState = .v1 ∨ fc.fanState = .off) {j : Nat}
    (hrunning : (fanAt fc ha j).fanState.Running) :
    (fanAt fc ha j).runtimeSeconds.toNat < 3600 + 31 := by
  rcases fanAt_cases hstart j with hv1 | hoff | ⟨k, m, hk, rfl⟩
  · rw [hv1] at hrunning
    exact hrunning.elim
  · rw [hoff] at hrunning
    exact hrunning.elim
  · rw [(hk.ran m).runtimeSeconds hrunning]
    exact (hk.ran m).lt hrunning

/-! ## A stretch in `FAN_MIN_TIME` -/

/-- Since its state was `FAN_V2` before the update `i`, the fan has been in `FAN_MIN_TIME` for
    `d` updates, in none of which the humidity rose. -/
structure MinTimeSince (fc : FanController) (ha : Nat → HumidityAnalyzer) (i d : Nat) : Prop where
  v2 : (fanAt fc ha i).fanState = .v2
  minTime : ∀ m ≤ d, (fanAt fc ha (i + 1 + m)).fanState = .minTime
  calm : ∀ m < d, humidityRise (ha (i + 1 + m)) = false
  stopTime : (fanAt fc ha (i + 1 + d)).stopTime.toNat + d =
    (fanAt fc ha (i + 1 + d)).runtimeSeconds.toNat + 30
  lt : d < 30

/-- What an update can do to a fan that it leaves in `FAN_MIN_TIME`. -/
theorem fanControllerUpdate_minTime (h : (fanControllerUpdate fc a).fanState = .minTime) :
    (fc.fanState = .v2 ∧ (fanControllerUpdate fc a).runtimeSeconds = fc.runtimeSeconds + 1 ∧
      (fanControllerUpdate fc a).stopTime = fc.runtimeSeconds + 1 + fanMinRuntimeS) ∨
    (fc.fanState = .minTime ∧ humidityRise a = false ∧
      (fanControllerUpdate fc a).runtimeSeconds = fc.runtimeSeconds + 1 ∧
      (fanControllerUpdate fc a).stopTime = fc.stopTime ∧
      ¬ fc.stopTime ≤ fc.runtimeSeconds + 1) := by
  have hupdated := updated fc a
  generalize fanControllerUpdate fc a = fc' at hupdated h
  cases hupdated with
  | toMinTime hstate _ => exact Or.inl ⟨hstate, rfl, rfl⟩
  | runOn hstate hcalm hstop => exact Or.inr ⟨hstate, hcalm, rfl, rfl, hstop⟩
  | off hstate | wait hstate | run hstate _ =>
    exact absurd (hstate.symm.trans h) FanState.noConfusion
  | start | toMaxTime | back | stop | maxTime => exact nomatch h

/-- A fan in `FAN_MIN_TIME` came from `FAN_V2`, and has seen no humidity rise since. -/
theorem minTime_since (hstart : fc.fanState = .v1 ∨ fc.fanState = .off) {j : Nat}
    (hj : (fanAt fc ha j).fanState = .minTime) :
    ∃ i d, j = i + 1 + d ∧ MinTimeSince fc ha i d := by
  induction j with
  | zero =>
    have hj' : fc.fanState = .minTime := hj
    rw [hj'] at hstart
    exact hstart.elim (fun h => absurd h (by decide)) fun h => absurd h (by decide)
  | succ j ih =>
    have hrunning (h : (fanAt fc ha j).fanState.Running) := runtimeSeconds_lt hstart h
    rcases fanControllerUpdate_minTime hj with ⟨hv2, hrun, hstop⟩ |
      ⟨hmin, hcalm, hrun, hstop, hbefore⟩
    · -- the stretch begins with this update
      have hlt := hrunning (by rw [hv2]; trivial)
      have hrun' := toNat_succ (n := (fanAt fc ha j).runtimeSeconds) rfl (by omega)
      refine ⟨j, 0, rfl, hv2, fun m hm => ?_, fun m hm => absurd hm (Nat.not_lt_zero m), ?_,
        by omega⟩
      · rw [Nat.le_zero.mp hm]
        exact hj
      · show (fanControllerUpdate (fanAt fc ha j) (ha j)).stopTime.toNat + 0 = _ + 30
        rw [hstop, UInt32.toNat_add, hrun']
        show _ = (fanControllerUpdate (fanAt fc ha j) (ha j)).runtimeSeconds.toNat + 30
        rw [hrun, hrun']
        exact Nat.mod_eq_of_lt
          (show (fanAt fc ha j).runtimeSeconds.toNat + 1 + 30 < 2 ^ 32 by omega)
    · obtain ⟨i, d, rfl, hsince⟩ := ih hmin
      have hlt := hrunning (by rw [hmin]; trivial)
      have hrun' := toNat_succ (n := (fanAt fc ha (i + 1 + d)).runtimeSeconds) rfl (by omega)
      have hold := hsince.stopTime
      rw [UInt32.le_iff_toNat_le, hrun'] at hbefore
      refine ⟨i, d + 1, rfl, hsince.v2, fun m hm => ?_, fun m hm => ?_, ?_, by omega⟩
      · rcases Nat.le_succ_iff.mp hm with hle | rfl
        · exact hsince.minTime m hle
        · exact hj
      · rcases Nat.lt_succ_iff_lt_or_eq.mp hm with hlt | rfl
        · exact hsince.calm m hlt
        · exact hcalm
      · show (fanControllerUpdate (fanAt fc ha (i + 1 + d)) (ha (i + 1 + d))).stopTime.toNat +
          (d + 1) = (fanControllerUpdate (fanAt fc ha (i + 1 + d))
            (ha (i + 1 + d))).runtimeSeconds.toNat + 30
        rw [hstop, hrun, hrun']
        omega

/-- What an update can do to a fan that it switches off. -/
theorem fanControllerUpdate_off (hon : fc.fanState ≠ .off)
    (h : (fanControllerUpdate fc a).fanState = .off) :
    fc.fanState = .maxTime ∨
    (fc.fanState = .minTime ∧ humidityRise a = false ∧ fc.stopTime ≤ fc.runtimeSeconds + 1) := by
  have hupdated := updated fc a
  generalize fanControllerUpdate fc a = fc' at hupdated h
  cases hupdated with
  | maxTime hstate => exact Or.inl hstate
  | stop hstate hcalm hstop => exact Or.inr ⟨hstate, hcalm, hstop⟩
  | off | wait | run | runOn => exact absurd h hon
  | start | toMaxTime | toMinTime | back => exact nomatch h

/-! ## Run times -/

/-- Once the fan went into `FAN_V2` from `FAN_V1`, it is off again after at most
    `FAN_MAX_RUNTIME_S + FAN_MIN_RUNTIME_S + 1` further updates, and as long as it runs its run
    time is the number of updates since. It goes off only from `FAN_MAX_TIME`, with
    `FAN_MAX_RUNTIME_S` updates counted, or from `FAN_MIN_TIME`, after exactly
    `FAN_MIN_RUNTIME_S` updates in a row without a rise of the humidity. -/
theorem fanRunTime (fc : FanController) (hstart : fc.fanState = .v1 ∨ fc.fanState = .off)
    (ha : Nat → HumidityAnalyzer) :
    (∀ k, Enters fc ha k →
      ∃ m ≤ fanMaxRuntimeS.toNat + fanMinRuntimeS.toNat + 1,
        (fanAt fc ha (k + 1 + m)).fanState = .off) ∧
    (∀ k, Enters fc ha k → ∀ m, (fanAt fc ha (k + 1 + m)).fanState.Running →
      (fanAt fc ha (k + 1 + m)).runtimeSeconds.toNat = m) ∧
    ∀ j, (fanAt fc ha j).fanState ≠ .off → (fanAt fc ha (j + 1)).fanState = .off →
      ((fanAt fc ha j).fanState = .maxTime ∧
        ∃ k m, Enters fc ha k ∧ j = k + 1 + m ∧ fanMaxRuntimeS.toNat ≤ m ∧
          (fanAt fc ha j).runtimeSeconds.toNat = m) ∨
      ∃ i, j = i + fanMinRuntimeS.toNat ∧ (fanAt fc ha i).fanState = .v2 ∧
        ∀ t, i < t → t ≤ j →
          (fanAt fc ha t).fanState = .minTime ∧ humidityRise (ha t) = false := by
  refine ⟨fun k hk => ⟨3600 + 30 + 1, Nat.le_refl _, (hk.ran _).eq_off⟩,
    fun k hk m => (hk.ran m).runtimeSeconds, fun j hon hoff => ?_⟩
  rcases fanControllerUpdate_off hon hoff with hmax | ⟨hmin, hcalm, hstop⟩
  · apply Or.inl
    rcases fanAt_cases hstart j with hv1 | hoff' | ⟨k, m, hk, rfl⟩
    · exact absurd (hmax.symm.trans hv1) (by decide)
    · exact absurd hoff' hon
    · have hran := hk.ran m
      have hrun := hran.runtimeSeconds (by rw [hmax]; trivial)
      simp only [Ran, hmax] at hran
      exact ⟨hmax, k, m, hk, rfl, hran.2.1, hrun⟩
  · -- a stretch of updates without a rise ends here
    apply Or.inr
    obtain ⟨i, d, rfl, hsince⟩ := minTime_since hstart hmin
    have hlt := runtimeSeconds_lt hstart (j := i + 1 + d) (by rw [hmin]; trivial)
    rw [UInt32.le_iff_toNat_le, toNat_succ rfl (by omega)] at hstop
    have hstopTime := hsince.stopTime
    have hlt' := hsince.lt
    -- the stretch is over when its updates, with this one, are as many as the least run time
    have hd : d + 1 = 30 := by omega
    refine ⟨i, show i + 1 + d = i + 30 by omega, hsince.v2, fun t hit htj => ?_⟩
    obtain ⟨m, rfl⟩ := Nat.exists_eq_add_of_le (Nat.succ_le_of_lt hit)
    refine ⟨hsince.minTime m (by omega), ?_⟩
    rcases Nat.lt_or_ge m d with hm | hm
    · exact hsince.calm m hm
    · have hmd : m = d := by omega
      rw [hmd]
      exact hcalm

/-- A fan that starts in `FAN_V1`, while the humidity rises all the time. -/
theorem fanRunTime_rising :
    ∃ m ≤ fanMaxRuntimeS.toNat + fanMinRuntimeS.toNat + 1,
      (fanAt ⟨0, 0, .v1⟩ (fun _ => { HumidityAnalyzer.zero with growthState := .rising })
        (0 + 1 + m)).fanState = .off :=
  (fanRunTime ⟨0, 0, .v1⟩ (by decide)
    fun _ => { HumidityAnalyzer.zero with growthState := .rising }).1 0 ⟨by decide, by decide⟩

end EspTesting.Humidity
