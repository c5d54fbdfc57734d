import EspTesting.Spec.BgcpBlockParam
import EspTesting.Spec.BgcpParamMap

/-!
# The parameter number 0

`NO_PARAM`, the number of a free slot, can be bound and asked for like any other number. A call
that binds it takes the first free slot, leaves it free, and loses it to the next new number;
a request for it finds a free slot. Only a table without free slots keeps it apart.

## Key results

- `bindsZero_iff`, `answersNotSupported_iff`: binding the number and asking for it
- `numberZeroApart_iff`
-/

namespace EspTesting.Bgcp

open SlotTable

variable {H : Handlers} {tbl : ParamList} {calls : List BindCall}

/-- No slot is free. -/
def ParamList.Full (tbl : ParamList) : Prop := ∀ i : Fin paramNumMax, (tbl.get i).paramNum ≠ noParam

instance (tbl : ParamList) : Decidable tbl.Full := Nat.decidableForallFin _

theorem getParam_eq_none_iff {num : UInt16} :
    getParam tbl num = none ↔ ∀ i : Fin paramNumMax, (tbl.get i).paramNum ≠ num := by
  show find tbl (fun x => x.paramNum = num) = none ↔ _
  rw [find_eq_none_iff]
  simp only [decide_eq_false_iff_not, ne_eq]

theorem full_iff : tbl.Full ↔ getParam tbl noParam = none := getParam_eq_none_iff.symm

/-! ## Binding the number -/

/-- Calls that bind the number 0 fail, or bind it for good. -/
def BindsZero (calls : List BindCall) : Prop :=
  ∀ c : BindCall, c.num = noParam → c.run (buildTable calls) = (false, buildTable calls) ∨
    ∀ later : List BindCall, (∀ c' ∈ later, c'.num ≠ noParam) →
      paramAt (buildTable (calls ++ c :: later)) noParam = some c.param

theorem buildTable_append_two (calls : List BindCall) (c c' : BindCall) :
    buildTable (calls ++ [c, c']) = (c'.run (c.run (buildTable calls)).2).2 := by
  simp only [buildTable, List.foldl_append, List.foldl_cons, List.foldl_nil]

/-- An address that no parameter of the table is bound to. -/
theorem exists_fresh_address (tbl : ParamList) :
    ∃ a : Nat, ∀ i : Fin paramNumMax, (tbl.get i).linkedData ≠ some a := by
  obtain ⟨k, hk⟩ := exists_forall_ne (fun i : Fin paramNumMax => (tbl.get i).linkedData)
    (g := fun k => some k.val) fun k k' h => Fin.ext (Option.some.inj h)
  exact ⟨k, hk⟩

/-- A number other than 0 that the table does not hold. -/
theorem exists_fresh_number (tbl : ParamList) :
    ∃ num : UInt16, num ≠ noParam ∧ getParam tbl num = none := by
  have hinj : ∀ k k' : Fin (paramNumMax + 1),
      UInt16.ofNat (k.val + 1) = UInt16.ofNat (k'.val + 1) → k = k' := by decide
  have hne : ∀ k : Fin (paramNumMax + 1), UInt16.ofNat (k.val + 1) ≠ noParam := by decide
  obtain ⟨k, hk⟩ := exists_forall_ne (fun i : Fin paramNumMax => (tbl.get i).paramNum)
    (g := fun k => UInt16.ofNat (k.val + 1)) fun k k' h => hinj k k' h
  exact ⟨_, hne k, getParam_eq_none_iff.mpr hk⟩

/-- A new number takes the slot in which the number 0 was bound. -/
theorem run_new_number {i : Fin paramNumMax} (hi : getParam tbl noParam = some i) {c c' : BindCall}
    (hc : c.num = noParam) (hnew : getParam tbl c'.num = none) (hc' : c'.num ≠ noParam) :
    (c'.run (c.run tbl).2).2 = tbl.set i c'.param i.isLt := by
  have hfirst := find_eq_some_iff.mp
    (show find tbl (fun x => x.paramNum = noParam) = some i from hi)
  have hrun : c.run tbl = (true, tbl.set i c.param i.isLt) := by
    rw [c.run_eq, hc, bindSlot, hi]
  have hnone : getParam (tbl.set i c.param i.isLt) c'.num = none := by
    rw [getParam_eq_none_iff]
    intro j
    rw [get_set]
    split
    · show c.num ≠ c'.num
      rw [hc]
      exact hc'.symm
    · exact getParam_eq_none_iff.mp hnew j
  -- the slot bound to number zero is still the first free one
  have hslot : getParam (tbl.set i c.param i.isLt) noParam = some i :=
    find_set_self (p := fun x : Param => x.paramNum = noParam) hfirst.2 (decide_eq_true hc)
  rw [hrun, c'.run_eq, bindSlot, hnone, hslot]
  apply Vector.ext
  intro k hk
  have hget := get_set (tbl.set i c.param i.isLt) i ⟨k, hk⟩ c'.param
  have hget' := get_set tbl i ⟨k, hk⟩ c'.param
  have hget'' := get_set tbl i ⟨k, hk⟩ c.param
  show ((tbl.set i c.param i.isLt).set i c'.param i.isLt).get ⟨k, hk⟩ =
    (tbl.set i c'.param i.isLt).get ⟨k, hk⟩
  rw [hget, hget', hget'']
  split
  · rfl
  · rfl

/-- A binding of the number 0 is overwritten by the next new number. -/
theorem not_bindsZero_of_free (h : ¬(buildTable calls).Full) : ¬BindsZero calls := by
  intro hbinds
  rw [full_iff] at h
  obtain ⟨i, hi⟩ := Option.ne_none_iff_exists'.mp h
  obtain ⟨a, ha⟩ := exists_fresh_address (buildTable calls)
  obtain ⟨num, hnum, hnew⟩ := exists_fresh_number (buildTable calls)
  have hrun : ((BindCall.bool noParam (some a)).run (buildTable calls)).1 = true := by
    have hslot : bindSlot (buildTable calls) (BindCall.bool noParam (some a)).num = some i := by
      show bindSlot (buildTable calls) noParam = some i
      rw [bindSlot, hi]
    rw [BindCall.run_eq, hslot]
  -- bind number zero, and then a new number
  have hkept := (hbinds (.bool noParam (some a)) rfl).resolve_left (by
    intro heq
    rw [heq] at hrun
    exact Bool.false_ne_true hrun) [.bool num none] fun c' hc' => by
      rw [List.mem_singleton.mp hc']
      exact hnum
  rw [buildTable_append_two,
    @run_new_number _ i hi (.bool noParam (some a)) (.bool num none) rfl hnew hnum] at hkept
  obtain ⟨j, _, hj⟩ := getParam_of_paramAt hkept
  rw [get_set] at hj
  split at hj
  · exact hnum (congrArg Param.paramNum hj)
  · exact ha j (by rw [hj]; rfl)

/-- The number 0 is bound as it should be exactly in a table without free slots. -/
theorem bindsZero_iff : BindsZero calls ↔ (buildTable calls).Full := by
  constructor
  · intro hbinds
    by_contra hfree
    exact not_bindsZero_of_free hfree hbinds
  · intro hfull c hc
    apply Or.inl
    rw [full_iff] at hfull
    rw [c.run_eq, hc, bindSlot, hfull]

/-! ## Requests for the number -/

/-- The response queue behind the perform steps `evs` of a message. -/
def BgcpState.rqBehind (H : Handlers) (s : BgcpState) (evs : List PerformEvent) : BGCPQueue :=
  (World.applyAll H s.paramList ⟨s.mem, s.rq.resetReqQueue⟩ evs).rq

/-- Every request for the number that asks for an answer, in any message, is answered with the
    not-supported mark. -/
def AnswersNotSupported (H : Handlers) (tbl : ParamList) (num : UInt16) : Prop :=
  ∀ (s : BgcpState) (msg : List UInt8) (evs : List PerformEvent) (f : UInt8) (block : PerformBlock)
    (rest : List PerformEvent), s.paramList = tbl → decode msg = evs ++ ⟨f, num, block⟩ :: rest →
    isReadFunc f = true →
    s.rqBehind H (evs ++ [⟨f, num, block⟩]) = (s.rqBehind H evs).queuePushNoSupParam num

/-- A number that no slot has is answered so. -/
theorem answersNotSupported_of_none (H : Handlers) {num : UInt16} (h : getParam tbl num = none) :
    AnswersNotSupported H tbl num := by
  intro s msg evs f block rest htbl _ hread
  simp only [BgcpState.rqBehind, World.applyAll, List.foldl_append, List.foldl_cons, List.foldl_nil,
    htbl]
  generalize List.foldl (World.apply H tbl) _ evs = w
  simp only [World.apply, h, hread, if_true]

/-- As long as no call has bound the number 0, the free slots are as they were at the start. -/
theorem get_of_not_bound (hnone : lastBound calls noParam = none) {i : Fin paramNumMax}
    (hi : ((buildTable calls).get i).paramNum = noParam) :
    (buildTable calls).get i = Param.zero := by
  have hstep (s : ParamList × (UInt16 → Option BindCall)) (c : BindCall)
      (h : s.2 noParam = none → ∀ i : Fin paramNumMax, (s.1.get i).paramNum = noParam →
        s.1.get i = Param.zero) :
      (noteCall s c).2 noParam = none → ∀ i : Fin paramNumMax,
        ((noteCall s c).1.get i).paramNum = noParam → (noteCall s c).1.get i = Param.zero := by
    cases hclaim : claim Param.paramNum isFree s.1 c.num with
    | none =>
      have hsame : noteCall s c = s := by simp [noteCall, c.run_of_claim_none hclaim]
      rw [hsame]
      exact h
    | some i =>
      have hnext : noteCall s c =
          (s.1.set i c.param i.isLt, Function.update s.2 c.num (some c)) := by
        simp [noteCall, c.run_of_claim_some hclaim]
      rw [hnext]
      intro hnone j hj
      -- the call was for another number
      have hne : noParam ≠ c.num := by
        intro heq
        simp [heq] at hnone
      simp only [Function.update_of_ne hne] at hnone
      simp only [get_set] at hj ⊢
      split at hj
      · exact absurd hj.symm hne
      · rename_i hji
        rw [if_neg hji]
        exact h hnone j hj
  -- by the calls that built the table
  have hrun := @Machine.run_invariant _ _ noteCall (fun s => s.2 noParam = none →
    ∀ i : Fin paramNumMax, (s.1.get i).paramNum = noParam → s.1.get i = Param.zero) hstep
    (ParamList.zero, fun _ => none) (fun _ i _ => Vector.getElem_replicate i.isLt) calls hnone i
  have htbl : (Machine.run noteCall (ParamList.zero, fun _ => none) calls).1 = buildTable calls :=
    fst_run_noteCall _ calls
  rw [htbl] at hrun
  exact hrun hi

/-- A request for a slot as it was at the start is not answered. -/
theorem process_zero (H : Handlers) (w : World) : w.process H Param.zero none bgcpFuncR = w := rfl

/-- While it is not bound, the number 0 is answered as it should be exactly in a table without
    free slots. -/
theorem answersNotSupported_iff (H : Handlers) (hnone : lastBound calls noParam = none) :
    AnswersNotSupported H (buildTable calls) noParam ↔ (buildTable calls).Full := by
  rw [full_iff]
  constructor
  · intro hanswers
    cases hparam : getParam (buildTable calls) noParam with
    | none => rfl
    | some i =>
      have hzero := get_of_not_bound hnone (paramNum_of_getParam hparam)
      -- with a free slot the command on number zero is lost
      have hlost : (World.mk (fun _ => 0) BGCPQueue.zero.resetReqQueue).apply H
          (buildTable calls) ⟨bgcpFuncR, noParam, .data []⟩ = ⟨fun _ => 0, BGCPQueue.zero⟩ := by
        simp only [World.apply, hparam, hzero]
        exact process_zero H _
      have hsaid := hanswers ⟨.zero, .zero, buildTable calls, fun _ => 0⟩
        (encode [.param .r noParam []]) [] bgcpFuncR (.data []) [] rfl (by decide) rfl
      have hqueue : BGCPQueue.zero = BGCPQueue.zero.resetReqQueue.queuePushNoSupParam noParam :=
        (congrArg World.rq hlost).symm.trans hsaid
      exact absurd (congrArg BGCPQueue.queueSize hqueue) (by decide)
  · exact answersNotSupported_of_none H

/-! ## The number as a whole -/

/-- The number 0 is like any other number: it is bound for good or not at all, and while it is
    not bound, requests for it are not supported. -/
structure NumberZeroApart (H : Handlers) (calls : List BindCall) : Prop where
  binds : BindsZero calls
  answers : lastBound calls noParam = none → AnswersNotSupported H (buildTable calls) noParam

/-- Calls leave a table that keeps the number 0 apart exactly if they leave no slot free, and
    each half of this holds only then. Requests for a number that no slot has are not
    supported. -/
theorem numberZeroApart_iff (H : Handlers) (calls : List BindCall) :
    (NumberZeroApart H calls ↔ (buildTable calls).Full) ∧
    (BindsZero calls ↔ (buildTable calls).Full) ∧
    (lastBound calls noParam = none →
      (AnswersNotSupported H (buildTable calls) noParam ↔ (buildTable calls).Full)) ∧
    ∀ num, getParam (buildTable calls) num = none →
      AnswersNotSupported H (buildTable calls) num := by
  refine ⟨⟨fun h => bindsZero_iff.mp h.binds, fun hfull => ?_⟩, bindsZero_iff,
    answersNotSupported_iff H, fun num => answersNotSupported_of_none H⟩
  exact ⟨bindsZero_iff.mpr hfull, fun hnone => (answersNotSupported_iff H hnone).mpr hfull⟩

/-- Bools under the numbers 1 to 15 leave no slot for the number 0. -/
theorem numberZeroApart_iff_full :
    AnswersNotSupported (fun _ _ m => (m, []))
      (buildTable ((List.range 15).map fun i => .bool (UInt16.ofNat (i + 1)) (some i))) noParam :=
  ((numberZeroApart_iff (fun _ _ m => (m, []))
    ((List.range 15).map fun i => .bool (UInt16.ofNat (i + 1)) (some i))).2.2.1
      (by decide +kernel)).mpr (by
        unfold ParamList.Full
        decide +kernel)

/-- In the table at the start, a bool bound under the number 0 is lost to the next one bound. -/
theorem numberZero_not_apart : ¬NumberZeroApart (fun _ _ m => (m, [])) [] := by
  intro h
  have hkept := (h.binds (.bool noParam (some 0)) rfl).resolve_left (by decide)
    [.bool 1 (some 1)] (by decide)
  exact absurd hkept (by decide)

end EspTesting.Bgcp
