import EspTesting.ForStd.Machine
import EspTesting.ForStd.SlotTable
import EspTesting.Native.ButtonReader

/-!
# Clicks and presses

A click is inferred from the time for which a button was not found idle. That time also passes
where nothing polls, so a button that was never pressed is reported as clicked as soon as a
poll comes more than `debounceTime` after the poll before it, or after the end of the time in
which the buttons are not looked at.

## Key results

- `deviceReadButHandler_of_fires`: what a report contains, and what it leaves in the buttons
- `fires_iff_of_idle`: when a button that is not pressed is reported
- `button_noClick_iff`
-/

namespace EspTesting.Button

variable {butList : ButList} {ms : UInt32} {level : Nat → Bool} {i : Fin butCount}

/-! ## A scan of the buttons -/

/-- What `get_inp_state` returns for a button. -/
def stateOf (butList : ButList) (ms : UInt32) (level : Nat → Bool) (i : Fin butCount) :
    GpioState :=
  (getInpState (butList.get i) level ms).1

/-- The button was clicked or held. -/
def fires (butList : ButList) (ms : UInt32) (level : Nat → Bool) (i : Fin butCount) : Prop :=
  stateOf butList ms level i = .held ∨ stateOf butList ms level i = .click

/-- What the loop has found out about the first `k` buttons. -/
structure ScannedTo (butList : ButList) (ms : UInt32) (level : Nat → Bool) (k : Nat) (s : Scan) :
    Prop where
  get : ∀ i : Fin butCount, s.butList.get i =
    if i.val < k then (getInpState (butList.get i) level ms).2 else butList.get i
  hold : ∀ i : Fin butCount, s.bits.getLsbD (i.val * 2 + 1) = true ↔
    i.val < k ∧ stateOf butList ms level i = .held
  click : ∀ i : Fin butCount, s.bits.getLsbD (i.val * 2) = true ↔
    i.val < k ∧ (stateOf butList ms level i = .click ∨
      stateOf butList ms level i = .active ∧ ∃ j < i, fires butList ms level j)
  rest : ∀ n, 6 ≤ n → s.bits.getLsbD n = false
  held_ne_zero : s.held ≠ 0 ↔ ∃ i : Fin butCount, i.val < k ∧ stateOf butList ms level i = .held
  ne_zero : s.held ≠ 0 ∨ s.click ≠ 0 ↔ ∃ i : Fin butCount, i.val < k ∧ fires butList ms level i

/-- The loop counts the button as clicked. -/
def Scan.clicks (s : Scan) (butVal : GpioState) : Prop :=
  butVal = .click ∨ butVal = .active ∧ (s.held ≠ 0 ∨ s.click ≠ 0)

instance (s : Scan) : DecidablePred s.clicks := fun _ => inferInstanceAs (Decidable (_ ∨ _))

/-- A pass of the loop, by the state of the button. -/
theorem scanButton_eq (ms : UInt32) (level : Nat → Bool) (s : Scan) (i : Fin butCount) :
    scanButton ms level s i =
      { butList := s.butList.set i (getInpState (s.butList.get i) level ms).2 i.isLt
        bits :=
          if stateOf s.butList ms level i = .held then Flags.set s.bits (Flags.bit 32 (i * 2 + 1))
          else if s.clicks (stateOf s.butList ms level i) then
            Flags.set s.bits (Flags.bit 32 (i * 2))
          else s.bits
        held := if stateOf s.butList ms level i = .held then s.held + 1 else s.held
        click := if s.clicks (stateOf s.butList ms level i) then s.click + 1 else s.click } := by
  unfold scanButton stateOf
  generalize getInpState (s.butList.get i) level ms = r
  obtain ⟨butVal, conf⟩ := r
  cases butVal with
  | inactive => simp [Scan.clicks]
  | held => simp [Scan.clicks]
  | click => simp [Scan.clicks]
  | active =>
    -- counted only beside a button in front of it
    by_cases hcount : s.held ≠ 0 ∨ s.click ≠ 0
    · simp [Scan.clicks, hcount]
    · simp [Scan.clicks, hcount]

theorem not_clicks_held {s : Scan} : ¬s.clicks .held := by
  simp [Scan.clicks]

/-- A pass of the loop adds the bit of a hold, or the bit of a click. -/
theorem getLsbD_bits_scanButton (s : Scan) (i : Fin butCount) (n : Nat) :
    (scanButton ms level s i).bits.getLsbD n = true ↔ s.bits.getLsbD n = true ∨
      n = i.val * 2 + 1 ∧ stateOf s.butList ms level i = .held ∨
      n = i.val * 2 ∧ s.clicks (stateOf s.butList ms level i) := by
  have hi : i.val < 3 := i.isLt
  rw [scanButton_eq]
  dsimp only
  by_cases hheld : stateOf s.butList ms level i = .held
  · rw [if_pos hheld, Flags.getLsbD_set_bit (by omega), hheld]
    simp [not_clicks_held]
  · rw [if_neg hheld]
    by_cases hclick : s.clicks (stateOf s.butList ms level i)
    · rw [if_pos hclick, Flags.getLsbD_set_bit (by omega)]
      simp [hheld, hclick]
    · simp [hheld, hclick]

/-- A pass of the loop counts a hold. -/
theorem held_scanButton (s : Scan) (i : Fin butCount) :
    (scanButton ms level s i).held ≠ 0 ↔
      s.held ≠ 0 ∨ stateOf s.butList ms level i = .held := by
  rw [scanButton_eq]
  dsimp only
  split
  · rename_i hheld
    simp [hheld]
  · rename_i hheld
    simp [hheld]

/-- A pass of the loop counts a hold or a click; an active button alone counts for nothing. -/
theorem counts_scanButton (s : Scan) (i : Fin butCount) :
    ((scanButton ms level s i).held ≠ 0 ∨ (scanButton ms level s i).click ≠ 0) ↔
      (s.held ≠ 0 ∨ s.click ≠ 0) ∨ fires s.butList ms level i := by
  rw [held_scanButton, scanButton_eq]
  dsimp only
  unfold fires
  by_cases hclick : s.clicks (stateOf s.butList ms level i)
  · rw [if_pos hclick]
    apply iff_of_true (Or.inr (Nat.succ_ne_zero s.click))
    obtain hstate | ⟨_, hcount⟩ := hclick
    · exact Or.inr (Or.inr hstate)
    · exact Or.inl hcount
  · rw [if_neg hclick]
    have hstate : stateOf s.butList ms level i ≠ .click := fun h => hclick (Or.inl h)
    simp only [hstate, or_false]
    exact or_right_comm

theorem scannedTo_zero (butList : ButList) (ms : UInt32) (level : Nat → Bool) :
    ScannedTo butList ms level 0 ⟨butList, 0, 0, 0⟩ := by
  constructor <;> simp

/-- The loop has not touched the button that comes next. -/
theorem ScannedTo.get_self {s : Scan} (h : ScannedTo butList ms level i.val s) :
    s.butList.get i = butList.get i := by
  rw [h.get i, if_neg (Nat.lt_irrefl _)]

theorem ScannedTo.stateOf_self {s : Scan} (h : ScannedTo butList ms level i.val s) :
    stateOf s.butList ms level i = stateOf butList ms level i := by
  unfold stateOf
  rw [h.get_self]

/-- An active button counts as clicked beside a button in front of it. -/
theorem ScannedTo.clicks_iff {s : Scan} (h : ScannedTo butList ms level i.val s) :
    s.clicks (stateOf butList ms level i) ↔ stateOf butList ms level i = .click ∨
      stateOf butList ms level i = .active ∧ ∃ j < i, fires butList ms level j := by
  unfold Scan.clicks
  rw [h.ne_zero]
  rfl

/-- A pass of the loop adds what there is to know about one more button. -/
theorem ScannedTo.scanButton {s : Scan} (h : ScannedTo butList ms level i.val s) :
    ScannedTo butList ms level (i.val + 1) (scanButton ms level s i) := by
  have hfires : fires s.butList ms level i ↔ fires butList ms level i := by
    unfold fires
    rw [h.stateOf_self]
  have hlt (j : Fin butCount) : j.val < i.val + 1 ↔ j.val < i.val ∨ i = j := by
    rw [Fin.ext_iff]
    omega
  have hi : i.val < 3 := i.isLt
  constructor
  · intro j
    rw [scanButton_eq, h.get_self, SlotTable.get_set, h.get j]
    by_cases hji : j = i
    · simp [hji]
    · simp [hji, hlt, Ne.symm hji]
  · intro j
    -- the bits of holds are the odd ones
    have hne : j.val * 2 + 1 ≠ i.val * 2 := by omega
    have heq : j.val * 2 + 1 = i.val * 2 + 1 ↔ i = j := by omega
    rw [getLsbD_bits_scanButton, h.hold j, h.stateOf_self, hlt, or_and_right]
    simp only [heq, hne, false_and, or_false]
    apply or_congr Iff.rfl
    exact and_congr_right fun hij => by rw [hij]
  · intro j
    have hne : j.val * 2 ≠ i.val * 2 + 1 := by omega
    have heq : j.val * 2 = i.val * 2 ↔ i = j := by omega
    rw [getLsbD_bits_scanButton, h.click j, h.stateOf_self, h.clicks_iff, hlt, or_and_right]
    simp only [heq, hne, false_and, false_or]
    apply or_congr Iff.rfl
    exact and_congr_right fun hij => by rw [hij]
  · intro n hn
    have hnone : ¬(Button.scanButton ms level s i).bits.getLsbD n = true := by
      rw [getLsbD_bits_scanButton, h.rest n hn]
      simp only [Bool.false_eq_true, false_or]
      omega
    simpa using hnone
  · rw [held_scanButton, h.held_ne_zero, h.stateOf_self]
    simp only [hlt, or_and_right, exists_or, exists_eq_left']
  · rw [counts_scanButton, h.ne_zero, hfires]
    simp only [hlt, or_and_right, exists_or, exists_eq_left']

theorem scannedTo_scanButtons (butList : ButList) (ms : UInt32) (level : Nat → Bool) :
    ScannedTo butList ms level butCount (scanButtons butList ms level) :=
  SlotTable.foldl_finRange_invariant (fun _ _ h => h.scanButton) (scannedTo_zero butList ms level)

/-! ## What is reported -/

/-- A click or a hold of the button is in the report. -/
def reportsButton (bits : EventBits) (i : Fin butCount) : Bool :=
  bits.getLsbD (i.val * 2) || bits.getLsbD (i.val * 2 + 1)

/-- A hold of some button is in the report. -/
def reportsHold (bits : EventBits) : Bool :=
  decide (∃ i : Fin butCount, bits.getLsbD (i.val * 2 + 1) = true)

/-- The loop reports something exactly if a button was clicked or held. -/
theorem scanButtons_bits_ne_zero_iff :
    (scanButtons butList ms level).bits ≠ 0 ↔ ∃ i, fires butList ms level i := by
  have hscan := scannedTo_scanButtons butList ms level
  constructor
  · intro hne
    by_contra hnone
    have hnone' (i : Fin butCount) : ¬fires butList ms level i := fun hi => hnone ⟨i, hi⟩
    apply hne
    apply BitVec.eq_of_getLsbD_eq
    intro n _
    rw [show BitVec.getLsbD (0 : EventBits) n = false from BitVec.getLsbD_zero]
    by_cases hn : n < 6
    · -- one of the two bits of a button
      have hlt : n / 2 < butCount := Nat.div_lt_of_lt_mul hn
      have hclick := hscan.click ⟨n / 2, hlt⟩
      have hhold := hscan.hold ⟨n / 2, hlt⟩
      have hfires := hnone' ⟨n / 2, hlt⟩
      unfold fires at hfires
      rw [not_or] at hfires
      simp only [hfires, hnone', and_false, exists_false, or_false, iff_false] at hclick hhold
      rw [Bool.not_eq_true] at hclick hhold
      obtain heven | hodd : n / 2 * 2 = n ∨ n / 2 * 2 + 1 = n := by omega
      · rwa [heven] at hclick
      · rwa [hodd] at hhold
    · exact hscan.rest n (by omega)
  · rintro ⟨i, hi⟩ hzero
    rcases hi with hheld | hclick
    · have hbit := (hscan.hold i).mpr ⟨i.isLt, hheld⟩
      simp [hzero] at hbit
    · have hbit := (hscan.click i).mpr ⟨i.isLt, Or.inl hclick⟩
      simp [hzero] at hbit

/-- A poll at which no button was clicked or held. -/
theorem deviceReadButHandler_of_not_fires (h : ∀ i, ¬fires butList ms level i) :
    (deviceReadButHandler butList ms level).1 = none ∧
      ∀ i, (deviceReadButHandler butList ms level).2.get i =
        (getInpState (butList.get i) level ms).2 := by
  have hzero : (scanButtons butList ms level).bits = 0 := by
    by_contra hne
    obtain ⟨i, hi⟩ := scanButtons_bits_ne_zero_iff.mp hne
    exact h i hi
  unfold deviceReadButHandler
  simp only [hzero, bne_self_eq_false, Bool.false_eq_true, if_false, true_and]
  intro i
  rw [(scannedTo_scanButtons butList ms level).get i, if_pos i.isLt]

/-- The mark of several buttons lies behind the bits of the buttons. -/
theorem getLsbD_mark (s : Scan) {n : Nat} (hn : n < 6) :
    (if s.held + s.click > 1 then Flags.set s.bits butMultiPress else s.bits).getLsbD n =
      s.bits.getLsbD n := by
  split
  · rw [Flags.getLsbD_set, Flags.getLsbD_bit (by omega), decide_eq_false (by omega),
      Bool.or_false]
  · rfl

/-- A poll at which a button was clicked or held. -/
theorem deviceReadButHandler_of_fires {j : Fin butCount} (h : fires butList ms level j) :
    ∃ bits, (deviceReadButHandler butList ms level).1 = some bits ∧
      (∀ i, reportsButton bits i = true ↔ fires butList ms level i ∨
        stateOf butList ms level i = .active ∧ ∃ k < i, fires butList ms level k) ∧
      ∀ i, ((deviceReadButHandler butList ms level).2.get i).startActiveTime =
        ms + if reportsHold bits then heldTime else debounceTime := by
  have hscan := scannedTo_scanButtons butList ms level
  have hne := scanButtons_bits_ne_zero_iff.mpr ⟨j, h⟩
  unfold deviceReadButHandler
  generalize scanButtons butList ms level = s at hscan hne
  simp only [bne_iff_ne, hne, ne_eq, not_false_eq_true, if_true, Option.some.injEq,
    exists_eq_left']
  constructor
  · intro i
    have hi : i.val < 3 := i.isLt
    unfold reportsButton
    rw [getLsbD_mark s (by omega), getLsbD_mark s (by omega), Bool.or_eq_true, hscan.click i,
      hscan.hold i]
    simp only [i.isLt, true_and]
    rw [or_comm, ← or_assoc]
    rfl
  · intro i
    rw [SlotTable.get_map]
    have hhold : reportsHold (if s.held + s.click > 1 then
        Flags.set s.bits butMultiPress else s.bits) = (s.held != 0) := by
      unfold reportsHold
      rw [Bool.eq_iff_iff, decide_eq_true_eq, bne_iff_ne, hscan.held_ne_zero]
      apply exists_congr
      intro k
      have hk : k.val < 3 := k.isLt
      rw [getLsbD_mark s (by omega), hscan.hold k]
    rw [hhold]
    simp only [bne_iff_ne, ne_eq]

/-! ## Runs -/

/-- A poll: the time, and the levels of the pins. -/
structure Poll where
  ms : UInt32
  level : Nat → Bool

/-- The pin of the button is at its active level. -/
def Poll.atActive (p : Poll) (conf : GpioCtx) : Bool := p.level conf.pinNum = conf.activeLevel

/-- The pin of the button is read, and is at its active level. -/
def Poll.readsActive (p : Poll) (conf : GpioCtx) : Bool :=
  conf.startActiveTime ≤ p.ms && p.atActive conf

/-- The buttons, beside what happened since the last report: the buttons whose pin was read at
    its active level, and the time of the last poll that looked at the buttons or, if there was
    none, from which on they are looked at. -/
structure Polling where
  butList : ButList
  pressed : Fin butCount → Bool
  idleSince : UInt32

/-- The start. -/
def Polling.boot : Polling := ⟨butListInit, fun _ => false, startTime⟩

/-- A poll. -/
def Polling.step (s : Polling) (p : Poll) : Polling :=
  match deviceReadButHandler s.butList p.ms p.level with
  | (some bits, butList) =>
    { butList
      pressed := fun _ => false
      idleSince := p.ms + if reportsHold bits then heldTime else debounceTime }
  | (none, butList) =>
    { butList
      pressed := fun i => s.pressed i || p.readsActive (s.butList.get i)
      idleSince := if s.idleSince ≤ p.ms then p.ms else s.idleSince }

/-- Every button in the report of the poll was pressed since the last report. -/
def NoClickWithoutPress (s : Polling) (p : Poll) : Prop :=
  ∀ bits, (deviceReadButHandler s.butList p.ms p.level).1 = some bits →
    ∀ i, reportsButton bits i = true →
      p.readsActive (s.butList.get i) = true ∨ s.pressed i = true

/-- The poll is in time for the buttons that were not pressed: it does not come more than
    `debounceTime` after the last look at them. -/
def OnTime (s : Polling) (p : Poll) : Prop :=
  ∀ i, s.pressed i = false → p.atActive (s.butList.get i) = false →
    s.idleSince ≤ p.ms → p.ms - s.idleSince ≤ debounceTime

/-- The time stored for a button that was not pressed is the same for all of them. -/
def Polling.Idle (s : Polling) : Prop :=
  ∀ i, s.pressed i = false → (s.butList.get i).startActiveTime = s.idleSince

variable {s : Polling} {p : Poll}

theorem idle_boot : Polling.boot.Idle := by
  intro i _
  have hget : butListInit.get i = deviceConfGpioIn (gpioInitDataList.get i).1
      (gpioInitDataList.get i).2 := SlotTable.get_map _ _ i
  show (butListInit.get i).startActiveTime = startTime
  rw [hget]
  rfl

/-! ## A poll -/

/-- What `get_inp_state` does with a button that it does not find pressed. -/
theorem getInpState_of_not_readsActive {conf : GpioCtx} (h : p.readsActive conf = false) :
    getInpState conf p.level p.ms =
      if conf.startActiveTime ≤ p.ms then
        if debounceTime < p.ms - conf.startActiveTime then (.click, conf)
        else (.inactive, { conf with startActiveTime := p.ms })
      else (.inactive, conf) := by
  unfold getInpState
  by_cases hle : conf.startActiveTime ≤ p.ms
  · have hactive : ¬p.level conf.pinNum = conf.activeLevel := by
      simpa [Poll.readsActive, Poll.atActive, hle] using h
    simp only [gt_iff_lt, UInt32.not_lt.mpr hle, hle, hactive, if_true, if_false]
  · simp only [gt_iff_lt, UInt32.not_le.mp hle, hle, if_true, if_false]

theorem stateOf_ne_active (h : p.readsActive (s.butList.get i) = false) :
    stateOf s.butList p.ms p.level i ≠ .active := by
  unfold stateOf
  rw [getInpState_of_not_readsActive h]
  split
  · split
    · exact GpioState.noConfusion
    · exact GpioState.noConfusion
  · exact GpioState.noConfusion

/-- A button that was not pressed is clicked at a poll that is late. -/
theorem fires_iff_of_idle (hidle : s.Idle) (hpressed : s.pressed i = false)
    (hread : p.readsActive (s.butList.get i) = false) :
    fires s.butList p.ms p.level i ↔
      s.idleSince ≤ p.ms ∧ debounceTime < p.ms - s.idleSince := by
  unfold fires stateOf
  rw [getInpState_of_not_readsActive hread, hidle i hpressed]
  split
  · rename_i hle
    split
    · rename_i hlate
      simp [hle, hlate]
    · rename_i hlate
      simp [hlate]
  · rename_i hle
    simp [hle]

/-- A click without a press is reported exactly at a poll that is late. -/
theorem noClickWithoutPress_iff (hidle : s.Idle) : NoClickWithoutPress s p ↔ OnTime s p := by
  constructor
  · intro h i hpressed hactive hle
    by_contra hlate
    have hread : p.readsActive (s.butList.get i) = false := by
      unfold Poll.readsActive
      rw [hactive, Bool.and_false]
    have hfires := (fires_iff_of_idle hidle hpressed hread).mpr ⟨hle, UInt32.not_le.mp hlate⟩
    obtain ⟨bits, hbits, hreports, _⟩ := deviceReadButHandler_of_fires hfires
    rcases h bits hbits i ((hreports i).mpr (Or.inl hfires)) with hread' | hpressed'
    · exact absurd (hread'.symm.trans hread) Bool.noConfusion
    · exact absurd (hpressed'.symm.trans hpressed) Bool.noConfusion
  · intro h bits hbits i hreport
    cases hread : p.readsActive (s.butList.get i) with
    | true => exact Or.inl rfl
    | false =>
      cases hpressed : s.pressed i with
      | true => exact Or.inr rfl
      | false =>
        -- a report that has the button has it as clicked
        have hfires : fires s.butList p.ms p.level i := by
          by_contra hnot
          by_cases hany : ∃ j, fires s.butList p.ms p.level j
          · obtain ⟨j, hj⟩ := hany
            obtain ⟨bits', hbits', hreports, _⟩ := deviceReadButHandler_of_fires hj
            rw [hbits] at hbits'
            rw [Option.some.inj hbits', hreports i] at hreport
            rcases hreport with hfires | ⟨hactive, _⟩
            · exact hnot hfires
            · exact stateOf_ne_active hread hactive
          · have hnone := (deviceReadButHandler_of_not_fires fun j hj => hany ⟨j, hj⟩).1
            exact absurd (hbits.symm.trans hnone) (Option.some_ne_none bits)
        obtain ⟨hle, hlate⟩ := (fires_iff_of_idle hidle hpressed hread).mp hfires
        have hactive : p.atActive (s.butList.get i) = false := by
          simpa [Poll.readsActive, hidle i hpressed, hle] using hread
        exact absurd (h i hpressed hactive hle) (UInt32.not_le.mpr hlate)

theorem Polling.Idle.step (hidle : s.Idle) (p : Poll) : (s.step p).Idle := by
  unfold Polling.step
  by_cases hany : ∃ j, fires s.butList p.ms p.level j
  · obtain ⟨j, hj⟩ := hany
    obtain ⟨bits, hbits, _, htimes⟩ := deviceReadButHandler_of_fires hj
    generalize deviceReadButHandler s.butList p.ms p.level = r at hbits htimes
    obtain ⟨report, butList⟩ := r
    simp only at hbits htimes
    rw [hbits]
    exact fun i _ => htimes i
  · have hnone (j : Fin butCount) : ¬fires s.butList p.ms p.level j := fun hj => hany ⟨j, hj⟩
    obtain ⟨hreport, hget⟩ := deviceReadButHandler_of_not_fires hnone
    generalize deviceReadButHandler s.butList p.ms p.level = r at hreport hget
    obtain ⟨report, butList⟩ := r
    simp only at hreport hget
    rw [hreport]
    intro i hi
    simp only [Bool.or_eq_false_iff] at hi
    show (butList.get i).startActiveTime = _
    rw [hget i, getInpState_of_not_readsActive hi.2, hidle i hi.1]
    have hfires := (fires_iff_of_idle hidle hi.1 hi.2).not.mp (hnone i)
    split
    · rename_i hle
      -- in time, so the time of this poll is stored
      rw [if_neg fun hlate => hfires ⟨hle, hlate⟩]
    · exact hidle i hi.1

/-- No button is reported without having been pressed since the last report in exactly the runs
    in which every poll is in time for the buttons that were not. -/
theorem button_noClick_iff (polls : List Poll) :
    Machine.Meets Polling.step NoClickWithoutPress .boot polls ↔
      Machine.Meets Polling.step OnTime .boot polls :=
  Machine.meets_iff_of_invariant (I := Polling.Idle) (fun _ p hidle => hidle.step p)
    (fun _ _ hidle => noClickWithoutPress_iff hidle) idle_boot polls

/-- Two polls of buttons that nobody touches, 76 ms apart. -/
theorem button_click_without_press : ¬Machine.Meets Polling.step NoClickWithoutPress .boot
    [⟨1000, fun _ => true⟩, ⟨1076, fun _ => true⟩] := by
  intro h
  -- the report has a click of each button
  have hpress := h.2.1 0x55 (by decide +kernel) 0 (by decide)
  exact absurd hpress (by decide +kernel)

end EspTesting.Button
