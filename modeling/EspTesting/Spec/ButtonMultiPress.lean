import EspTesting.Spec.ButtonPress
import Mathlib.Logic.Equiv.Basic

/-!
# Several buttons at once

The loop over the buttons decides about an active button when it comes to it, so the button
counts as clicked only if one in front of it was clicked or held. An active button in front of
the first such one is left out of the report, and of the count of the buttons.

## Key results

- `reportOf_of_fires`: all that a report says
- `completeReport_iff`: when no button is left out
- `multiPress_iff`
-/

namespace EspTesting.Button

variable {butList : ButList} {ms : UInt32} {level : Nat → Bool} {i j : Fin butCount}

/-! ## The count of the buttons -/

/-- The loop counts the button. -/
def counted (butList : ButList) (ms : UInt32) (level : Nat → Bool) (i : Fin butCount) : Prop :=
  fires butList ms level i ∨
    stateOf butList ms level i = .active ∧ ∃ j < i, fires butList ms level j

/-- Two of the first `k` buttons are counted. -/
def Several (butList : ButList) (ms : UInt32) (level : Nat → Bool) (k : Nat) : Prop :=
  ∃ i j : Fin butCount, i < j ∧ j.val < k ∧ counted butList ms level i ∧ counted butList ms level j

/-- What the count says about the first `k` buttons. -/
structure CountedTo (butList : ButList) (ms : UInt32) (level : Nat → Bool) (k : Nat) (s : Scan) :
    Prop where
  scanned : ScannedTo butList ms level k s
  several : s.held + s.click > 1 ↔ Several butList ms level k

/-- The first button that is counted was clicked or held. -/
theorem exists_counted_iff {k : Nat} :
    (∃ i : Fin butCount, i.val < k ∧ counted butList ms level i) ↔
      ∃ i : Fin butCount, i.val < k ∧ fires butList ms level i := by
  constructor
  · rintro ⟨i, hi, hfires | ⟨_, j, hj, hfires⟩⟩
    · exact ⟨i, hi, hfires⟩
    · exact ⟨j, Nat.lt_trans hj hi, hfires⟩
  · rintro ⟨i, hi, hfires⟩
    exact ⟨i, hi, Or.inl hfires⟩

/-- One button more. -/
theorem several_succ (i : Fin butCount) : Several butList ms level (i.val + 1) ↔
    Several butList ms level i.val ∨
      counted butList ms level i ∧
        ∃ j : Fin butCount, j.val < i.val ∧ fires butList ms level j := by
  rw [← exists_counted_iff]
  constructor
  · -- the pair has this button as its second one, or was there before
    rintro ⟨a, b, hab, hb, ha, hb'⟩
    by_cases hbi : b = i
    · subst hbi
      exact Or.inr ⟨hb', a, hab, ha⟩
    · have hne : b.val ≠ i.val := fun h => hbi (Fin.ext h)
      exact Or.inl ⟨a, b, hab, by omega, ha, hb'⟩
  · rintro (⟨a, b, hab, hb, ha, hb'⟩ | ⟨hi, a, ha, ha'⟩)
    · exact ⟨a, b, hab, by omega, ha, hb'⟩
    · exact ⟨a, i, ha, Nat.lt_succ_self _, ha', hi⟩

/-- Before the scan nothing is counted. -/
theorem countedTo_zero (butList : ButList) (ms : UInt32) (level : Nat → Bool) :
    CountedTo butList ms level 0 ⟨butList, 0, 0, 0⟩ := by
  refine ⟨scannedTo_zero butList ms level, iff_of_false (Nat.not_lt_zero 1) ?_⟩
  rintro ⟨_, j, _, hj, _⟩
  exact absurd hj (Nat.not_lt_zero _)

/-- A pass of the loop counts at most one button. -/
theorem count_scanButton {s : Scan} (h : ScannedTo butList ms level i.val s) :
    (counted butList ms level i ∧ (scanButton ms level s i).held + (scanButton ms level s i).click =
        s.held + s.click + 1) ∨
      (¬counted butList ms level i ∧
        (scanButton ms level s i).held + (scanButton ms level s i).click = s.held + s.click) := by
  -- a button counts if it is held or clicked
  have hcounted : counted butList ms level i ↔
      stateOf butList ms level i = .held ∨ s.clicks (stateOf butList ms level i) := by
    rw [h.clicks_iff]
    exact or_assoc
  rw [scanButton_eq, h.stateOf_self, hcounted]
  dsimp only
  by_cases hheld : stateOf butList ms level i = .held
  · rw [hheld]
    simp only [not_clicks_held, if_true, if_false]
    exact Or.inl ⟨Or.inl trivial, by omega⟩
  · simp only [hheld, false_or, if_false]
    by_cases hclick : s.clicks (stateOf butList ms level i)
    · exact Or.inl ⟨hclick, by rw [if_pos hclick]; rfl⟩
    · exact Or.inr ⟨hclick, by rw [if_neg hclick]⟩

/-- The turn of a button keeps the count right. -/
theorem CountedTo.scanButton {s : Scan} (h : CountedTo butList ms level i.val s) :
    CountedTo butList ms level (i.val + 1) (scanButton ms level s i) := by
  refine ⟨h.scanned.scanButton, ?_⟩
  have hseveral := h.several
  have hany := h.scanned.ne_zero
  rw [several_succ, ← hseveral, ← hany]
  -- the button counts, or it does not
  obtain ⟨hcounted, hcount⟩ | ⟨hcounted, hcount⟩ := count_scanButton h.scanned
  · rw [hcount]
    simp only [hcounted, true_and]
    omega
  · rw [hcount]
    simp only [hcounted, false_and, or_false]

/-- The scan counts the buttons it reports. -/
theorem countedTo_scanButtons (butList : ButList) (ms : UInt32) (level : Nat → Bool) :
    CountedTo butList ms level butCount (scanButtons butList ms level) :=
  SlotTable.foldl_finRange_invariant (fun _ _ h => h.scanButton) (countedTo_zero butList ms level)

/-! ## The report -/

/-- All that a report says. -/
structure ReportOf (butList : ButList) (ms : UInt32) (level : Nat → Bool) (bits : EventBits) :
    Prop where
  held : ∀ i : Fin butCount, bits.getLsbD (i.val * 2 + 1) = true ↔
    stateOf butList ms level i = .held
  click : ∀ i : Fin butCount, bits.getLsbD (i.val * 2) = true ↔
    stateOf butList ms level i = .click ∨
      stateOf butList ms level i = .active ∧ ∃ j < i, fires butList ms level j
  multi : bits.getLsbD 6 = true ↔ Several butList ms level butCount

/-- If a button fires there is a report, and it is the report of the state. -/
theorem reportOf_of_fires (h : fires butList ms level j) :
    ∃ bits, (deviceReadButHandler butList ms level).1 = some bits ∧
      ReportOf butList ms level bits := by
  obtain ⟨hscan, hseveral⟩ := countedTo_scanButtons butList ms level
  have hne := scanButtons_bits_ne_zero_iff.mpr ⟨j, h⟩
  unfold deviceReadButHandler
  generalize scanButtons butList ms level = s at hscan hseveral hne
  simp only [bne_iff_ne, hne, ne_eq, not_false_eq_true, if_true, Option.some.injEq,
    exists_eq_left']
  constructor
  · intro i
    have hi : i.val < 3 := i.isLt
    rw [getLsbD_mark s (by omega), hscan.hold i]
    simp only [i.isLt, true_and]
  · intro i
    have hi : i.val < 3 := i.isLt
    rw [getLsbD_mark s (by omega), hscan.click i]
    simp only [i.isLt, true_and]
  · rw [← hseveral]
    split
    · rename_i hcount
      rw [Flags.getLsbD_set_bit (by decide)]
      exact iff_of_true (Or.inr rfl) hcount
    · rename_i hcount
      rw [hscan.rest 6 (Nat.le_refl 6)]
      exact iff_of_false Bool.noConfusion hcount

/-- Something is reported only if a button was clicked or held. -/
theorem reportOf_of_eq_some {bits : EventBits}
    (h : (deviceReadButHandler butList ms level).1 = some bits) :
    (∃ j, fires butList ms level j) ∧ ReportOf butList ms level bits := by
  by_cases hany : ∃ j, fires butList ms level j
  · obtain ⟨j, hj⟩ := hany
    obtain ⟨bits', hbits', hreport⟩ := reportOf_of_fires hj
    rw [h] at hbits'
    rw [Option.some.inj hbits']
    exact ⟨⟨j, hj⟩, hreport⟩
  · have hnone := (deviceReadButHandler_of_not_fires fun j hj => hany ⟨j, hj⟩).1
    rw [hnone] at h
    exact nomatch h

/-- A button is in the report exactly if it counts. -/
theorem ReportOf.reportsButton_iff {bits : EventBits} (h : ReportOf butList ms level bits)
    (i : Fin butCount) : reportsButton bits i = true ↔ counted butList ms level i := by
  unfold reportsButton
  rw [Bool.or_eq_true, h.click i, h.held i, or_comm, ← or_assoc]
  rfl

/-- The mark of several buttons fits the rest of the report. -/
theorem ReportOf.multi_iff {bits : EventBits} (h : ReportOf butList ms level bits) :
    bits.getLsbD 6 = true ↔
      ∃ i j, i ≠ j ∧ reportsButton bits i = true ∧ reportsButton bits j = true := by
  simp only [h.reportsButton_iff]
  rw [h.multi]
  constructor
  · rintro ⟨i, j, hij, _, hi, hj⟩
    exact ⟨i, j, Fin.ne_of_lt hij, hi, hj⟩
  · -- the scan looks at the pair in its own order
    rintro ⟨i, j, hij, hi, hj⟩
    obtain hlt | hlt := Fin.lt_or_lt_of_ne hij
    · exact ⟨i, j, hlt, j.isLt, hi, hj⟩
    · exact ⟨j, i, hlt, i.isLt, hj, hi⟩

/-! ## Complete reports -/

/-- What is reported has every button that is not inactive, held or else clicked, and is marked
    exactly if it has more than one. -/
def CompleteReport (butList : ButList) (ms : UInt32) (level : Nat → Bool) : Prop :=
  ∀ bits, (deviceReadButHandler butList ms level).1 = some bits →
    (∀ i, stateOf butList ms level i ≠ .inactive →
      if stateOf butList ms level i = .held then bits.getLsbD (i.val * 2 + 1) = true
      else bits.getLsbD (i.val * 2) = true) ∧
    (bits.getLsbD 6 = true ↔
      ∃ i j, i ≠ j ∧ reportsButton bits i = true ∧ reportsButton bits j = true)

/-- A report is complete exactly if no active button stands in front of all those that were
    clicked or held. -/
theorem completeReport_iff : CompleteReport butList ms level ↔
    ∀ i j, stateOf butList ms level i = .active → fires butList ms level j →
      ∃ k < i, fires butList ms level k := by
  constructor
  · -- a button that is active is only taken in behind one that fires
    intro h i j hactive hfires
    obtain ⟨bits, hbits, hreport⟩ := reportOf_of_fires hfires
    have hincluded := (h bits hbits).1 i (by rw [hactive]; exact GpioState.noConfusion)
    rw [hactive, if_neg GpioState.noConfusion, hreport.click i, hactive] at hincluded
    obtain hclick | ⟨_, hbefore⟩ := hincluded
    · exact nomatch hclick
    · exact hbefore
  · intro h bits hbits
    obtain ⟨⟨j, hj⟩, hreport⟩ := reportOf_of_eq_some hbits
    refine ⟨fun i hi => ?_, hreport.multi_iff⟩
    rw [hreport.held i, hreport.click i]
    cases hstate : stateOf butList ms level i with
    | inactive => exact absurd hstate hi
    | active => exact Or.inr ⟨rfl, h i j hstate hj⟩
    | click => exact Or.inl rfl
    | held => rfl

/-! ## The order of the buttons -/

/-- The buttons in another order. -/
def reorder (π : Equiv.Perm (Fin butCount)) (butList : ButList) : ButList :=
  Vector.ofFn fun i => butList.get (π i)

/-- The reports say the same, when the buttons of the second are ordered by `π`. -/
structure SameReport (π : Equiv.Perm (Fin butCount)) (report report' : Option EventBits) :
    Prop where
  isSome : report'.isSome = report.isSome
  same : ∀ bits, report = some bits → ∀ bits', report' = some bits' →
    (∀ i : Fin butCount, bits'.getLsbD (i.val * 2) = bits.getLsbD ((π i).val * 2) ∧
      bits'.getLsbD (i.val * 2 + 1) = bits.getLsbD ((π i).val * 2 + 1)) ∧
    bits'.getLsbD 6 = bits.getLsbD 6

/-- The report does not depend on the order of the buttons. -/
def OrderFree (butList : ButList) (ms : UInt32) (level : Nat → Bool) : Prop :=
  ∀ π, SameReport π (deviceReadButHandler butList ms level).1
    (deviceReadButHandler (reorder π butList) ms level).1

variable {π : Equiv.Perm (Fin butCount)}

/-- The state of a button does not depend on its place. -/
theorem stateOf_reorder (i : Fin butCount) :
    stateOf (reorder π butList) ms level i = stateOf butList ms level (π i) := by
  have hget : (reorder π butList).get i = butList.get (π i) := Vector.getElem_ofFn i.isLt
  unfold stateOf
  rw [hget]

/-- Whether a button fires does not depend on its place. -/
theorem fires_reorder (i : Fin butCount) :
    fires (reorder π butList) ms level i ↔ fires butList ms level (π i) := by
  unfold fires
  rw [stateOf_reorder]

/-- Whether any button fires does not depend on the order. -/
theorem exists_fires_reorder :
    (∃ i, fires (reorder π butList) ms level i) ↔ ∃ i, fires butList ms level i := by
  simp only [fires_reorder]
  exact π.surjective.exists.symm

/-- There is a report exactly if a button fires. -/
theorem isSome_report_iff :
    (deviceReadButHandler butList ms level).1.isSome = true ↔ ∃ i, fires butList ms level i := by
  constructor
  · intro h
    obtain ⟨bits, hbits⟩ := Option.isSome_iff_exists.mp h
    exact (reportOf_of_eq_some hbits).1
  · rintro ⟨i, hi⟩
    obtain ⟨bits, hbits, _⟩ := reportOf_of_fires hi
    rw [hbits]
    rfl

/-- Without an active button, a button is counted if it was clicked or held. -/
theorem several_iff_of_not_active (h : ∀ i, stateOf butList ms level i ≠ .active) :
    Several butList ms level butCount ↔
      ∃ i j, i ≠ j ∧ fires butList ms level i ∧ fires butList ms level j := by
  have hcounted (i : Fin butCount) : counted butList ms level i ↔ fires butList ms level i :=
    or_iff_left fun hactive => h i hactive.1
  constructor
  · rintro ⟨i, j, hij, _, hi, hj⟩
    exact ⟨i, j, Fin.ne_of_lt hij, (hcounted i).mp hi, (hcounted j).mp hj⟩
  · rintro ⟨i, j, hij, hi, hj⟩
    obtain hlt | hlt := Fin.lt_or_lt_of_ne hij
    · exact ⟨i, j, hlt, j.isLt, (hcounted i).mpr hi, (hcounted j).mpr hj⟩
    · exact ⟨j, i, hlt, i.isLt, (hcounted j).mpr hj, (hcounted i).mpr hi⟩

/-- An active button moved to where it is counted, or to where it is not. -/
theorem exists_reorder_click_ne (hi : stateOf butList ms level i = .active)
    (hj : fires butList ms level j) : ∃ π : Equiv.Perm (Fin butCount), ∃ k : Fin butCount, π k = i ∧
      ((∃ l < k, fires (reorder π butList) ms level l) ↔ ¬∃ l < i, fires butList ms level l) := by
  by_cases hbefore : ∃ l < i, fires butList ms level l
  · refine ⟨Equiv.swap 0 i, 0, Equiv.swap_apply_left 0 i, ?_⟩
    apply iff_of_false _ (not_not_intro hbefore)
    rintro ⟨l, hl, _⟩
    exact absurd hl (Nat.not_lt_zero _)
  · -- the button behind it goes in front of it
    have hne : i ≠ j := by
      rintro rfl
      obtain h | h := hj
      · rw [hi] at h
        exact nomatch h
      · rw [hi] at h
        exact nomatch h
    have hlt : i < j := by
      obtain h | h := Fin.lt_or_lt_of_ne hne
      · exact h
      · exact absurd ⟨j, h, hj⟩ hbefore
    refine ⟨Equiv.swap i j, j, Equiv.swap_apply_right i j, ?_⟩
    apply iff_of_true _ hbefore
    refine ⟨i, hlt, ?_⟩
    rw [fires_reorder, Equiv.swap_apply_left]
    exact hj

/-- The order of the buttons makes no difference exactly if no button is active while another is
    clicked or held. -/
theorem orderFree_iff : OrderFree butList ms level ↔
    ∀ i j, stateOf butList ms level i = .active → ¬fires butList ms level j := by
  constructor
  · intro h i j hactive hfires
    -- put the active button behind the one that fires, or in front of it
    obtain ⟨π, k, hk, hclick⟩ := exists_reorder_click_ne hactive hfires
    have hany : ∃ l, fires (reorder π butList) ms level l := exists_fires_reorder.mpr ⟨j, hfires⟩
    obtain ⟨l, hl⟩ := hany
    obtain ⟨bits, hbits, hreport⟩ := reportOf_of_fires hfires
    obtain ⟨bits', hbits', hreport'⟩ := reportOf_of_fires hl
    have hsame := (((h π).same bits hbits bits' hbits').1 k).1
    rw [Bool.eq_iff_iff, hreport'.click k, hk, hreport.click i, stateOf_reorder, hk, hactive,
      hclick] at hsame
    simp only [reduceCtorEq, false_or, true_and] at hsame
    exact not_iff_self hsame
  · intro h π
    -- no button is active: only the buttons that fire are in the report
    have hisSome : (deviceReadButHandler (reorder π butList) ms level).1.isSome =
        (deviceReadButHandler butList ms level).1.isSome := by
      rw [Bool.eq_iff_iff, isSome_report_iff, isSome_report_iff, exists_fires_reorder]
    refine ⟨hisSome, fun bits hbits bits' hbits' => ?_⟩
    obtain ⟨⟨j, hj⟩, hreport⟩ := reportOf_of_eq_some hbits
    obtain ⟨_, hreport'⟩ := reportOf_of_eq_some hbits'
    have hactive (i : Fin butCount) : stateOf butList ms level i ≠ .active := fun hi => h i j hi hj
    have hactive' (i : Fin butCount) : stateOf (reorder π butList) ms level i ≠ .active := by
      rw [stateOf_reorder]
      exact hactive (π i)
    refine ⟨fun i => ⟨?_, ?_⟩, ?_⟩
    · rw [Bool.eq_iff_iff, hreport'.click i, hreport.click (π i), stateOf_reorder]
      simp [hactive (π i)]
    · rw [Bool.eq_iff_iff, hreport'.held i, hreport.held (π i), stateOf_reorder]
    · rw [Bool.eq_iff_iff, hreport'.multi, hreport.multi, several_iff_of_not_active hactive,
        several_iff_of_not_active hactive']
      simp only [fires_reorder]
      constructor
      · rintro ⟨i, j, hij, hi, hj⟩
        exact ⟨π i, π j, π.injective.ne hij, hi, hj⟩
      · rintro ⟨i, j, hij, hi, hj⟩
        refine ⟨π.symm i, π.symm j, π.symm.injective.ne hij, ?_, ?_⟩
        · rw [Equiv.apply_symm_apply]
          exact hi
        · rw [Equiv.apply_symm_apply]
          exact hj

/-- A report has all buttons that are not inactive exactly if no active button stands in front
    of all those that were clicked or held, and is the same in every order of the buttons exactly
    if there is no active one beside them. -/
theorem multiPress_iff (butList : ButList) (ms : UInt32) (level : Nat → Bool) :
    (CompleteReport butList ms level ↔
      ∀ i j, stateOf butList ms level i = .active → fires butList ms level j →
        ∃ k < i, fires butList ms level k) ∧
    (OrderFree butList ms level ↔
      ∀ i j, stateOf butList ms level i = .active → ¬fires butList ms level j) :=
  ⟨completeReport_iff, orderFree_iff⟩

/-- The left button is down while the right one is released. -/
theorem multiPress_left_fails :
    ¬CompleteReport #v[⟨40, false, 1000⟩, ⟨42, false, 1000⟩, ⟨41, false, 1100⟩] 1100
      (fun pin => pin != 40) := by
  intro h
  have hleft := (h 4 (by decide +kernel)).1 0 (by decide)
  exact absurd hleft (by decide)

end EspTesting.Button
