import EspTesting.ForStd.Machine
import EspTesting.ForStd.SlotTable
import EspTesting.Spec.BgcpBind

/-!
# The parameter table as a bounded map

A slot of the parameter table is free while its number is `NO_PARAM`. Bound to other numbers
only, the table is the map that sends every number to the parameter of the last successful
call for it.

## Key results

- `Tracks.step`: a call keeps table and map together
- `paramTable_boundedMap`
- `get_of_getParam`: what a number finds was put there by the call in force for it
-/

namespace EspTesting.Bgcp

open SlotTable

/-- The slot is free. -/
abbrev isFree (param : Param) : Bool := param.paramNum = noParam

/-- The parameter in use under a number. -/
abbrev bound (tbl : ParamList) : UInt16 → Option Param := entry Param.paramNum isFree tbl

/-- The parameter that `get_param` finds. -/
def paramAt (tbl : ParamList) (num : UInt16) : Option Param := (getParam tbl num).map tbl.get

/-- A parameter that a request finds under its number. -/
theorem getParam_of_paramAt {tbl : ParamList} {num : UInt16} {param : Param}
    (h : paramAt tbl num = some param) : ∃ i, getParam tbl num = some i ∧ tbl.get i = param :=
  Option.map_eq_some_iff.mp h

/-- The slot filled is the one claimed for the number. -/
theorem bindSlot_eq_claim (tbl : ParamList) (num : UInt16) :
    bindSlot tbl num = claim Param.paramNum isFree tbl num := by
  unfold bindSlot claim
  have hfind : getParam tbl num = find tbl fun x => x.paramNum = num := rfl
  rw [hfind]
  cases find tbl fun x => x.paramNum = num <;> rfl

/-- `get_param` of a number other than `NO_PARAM` finds the parameter in use under it. -/
theorem paramAt_eq_bound (tbl : ParamList) {num : UInt16} (hnum : num ≠ noParam) :
    paramAt tbl num = bound tbl num := by
  have hfound : getParam tbl num = find tbl fun x => x.paramNum = num := rfl
  unfold paramAt bound entry
  rw [hfound]
  cases hfind : find tbl fun x => x.paramNum = num with
  | none => rfl
  | some i =>
    -- the slot found has the number, so it is not free
    have hkey := of_decide_eq_true (find_eq_some_iff.mp hfind).1
    have hlive : isFree (tbl.get i) = false := decide_eq_false (hkey ▸ hnum)
    simp only [Option.map_some, Option.filter_some, hlive, Bool.not_false, if_true]

/-- With no slot to claim the call fails. -/
theorem BindCall.run_of_claim_none {tbl : ParamList} {c : BindCall}
    (h : claim Param.paramNum isFree tbl c.num = none) : c.run tbl = (false, tbl) := by
  rw [c.run_eq, bindSlot_eq_claim, h]

/-- The call puts the parameter into the slot it claims. -/
theorem BindCall.run_of_claim_some {tbl : ParamList} {c : BindCall} {i : Fin paramNumMax}
    (h : claim Param.paramNum isFree tbl c.num = some i) :
    c.run tbl = (true, tbl.set i c.param i.isLt) := by
  rw [c.run_eq, bindSlot_eq_claim, h]

/-- What is put into the slot claimed for its number is found under the number. -/
theorem getParam_set_claim {tbl : ParamList} {c : BindCall} {i : Fin paramNumMax}
    (h : claim Param.paramNum isFree tbl c.num = some i) :
    getParam (tbl.set i c.param i.isLt) c.num = some i :=
  find_set_claim h rfl

/-- What a successful call has bound is found under its number. -/
theorem BindCall.paramAt_run {tbl : ParamList} {c : BindCall} (h : (c.run tbl).1 = true) :
    paramAt (c.run tbl).2 c.num = some c.param := by
  cases hclaim : claim Param.paramNum isFree tbl c.num with
  | none =>
    rw [c.run_of_claim_none hclaim] at h
    contradiction
  | some i =>
    rw [c.run_of_claim_some hclaim]
    unfold paramAt
    rw [getParam_set_claim hclaim, Option.map_some, get_set, if_pos rfl]

/-! ## The calls that succeeded -/

/-- The last successful call for each number, after another call on the table. -/
def noteCall (s : ParamList × (UInt16 → Option BindCall)) (c : BindCall) :
    ParamList × (UInt16 → Option BindCall) :=
  ((c.run s.1).2, if (c.run s.1).1 then Function.update s.2 c.num (some c) else s.2)

/-- The last successful call for a number among calls from the zero-initialised table on. -/
def lastBound (calls : List BindCall) : UInt16 → Option BindCall :=
  (Machine.run noteCall (ParamList.zero, fun _ => none) calls).2

/-- The table behind the calls. -/
theorem fst_run_noteCall (s : ParamList × (UInt16 → Option BindCall)) (calls : List BindCall) :
    (Machine.run noteCall s calls).1 = calls.foldl (fun tbl c => (c.run tbl).2) s.1 := by
  induction calls generalizing s with
  | nil => rfl
  | cons c calls ih =>
    rw [Machine.run_cons, ih]
    rfl

/-- A table in which every slot in use is the first with its number, and which is the map of
    the last successful calls. -/
structure Tracks (s : ParamList × (UInt16 → Option BindCall)) : Prop where
  firstLive : FirstLive Param.paramNum isFree s.1
  bound_eq : ∀ num, bound s.1 num = (s.2 num).map BindCall.param

/-- An empty table has no parameters. -/
theorem tracks_zero : Tracks (ParamList.zero, fun _ => none) := by
  have hfree : ∀ i, isFree (ParamList.zero.get i) = true := by
    intro i
    have hslot : ParamList.zero.get i = Param.zero := Vector.getElem_replicate i.isLt
    rw [hslot]
    rfl
  have hfirst : FirstLive Param.paramNum isFree ParamList.zero := by
    intro i hi
    rw [hfree i] at hi
    contradiction
  refine ⟨hfirst, fun num => ?_⟩
  exact (entry_eq_none_iff hfirst).mpr fun i _ => hfree i

/-- A call keeps table and map together. -/
theorem Tracks.step {s : ParamList × (UInt16 → Option BindCall)} (h : Tracks s) {c : BindCall}
    (hc : c.num ≠ noParam) : Tracks (noteCall s c) := by
  cases hclaim : claim Param.paramNum isFree s.1 c.num with
  | none =>
    -- no slot: nothing changes, and the call does not count
    have hsame : noteCall s c = s := by simp [noteCall, c.run_of_claim_none hclaim]
    rw [hsame]
    exact h
  | some i =>
    -- the slot claimed gets the parameter, and the map changes at its number only
    have hnext : noteCall s c =
        (s.1.set i c.param i.isLt, Function.update s.2 c.num (some c)) := by
      simp [noteCall, c.run_of_claim_some hclaim]
    rw [hnext]
    refine ⟨h.firstLive.set_claim hclaim rfl, fun num => ?_⟩
    have hlive : isFree c.param = false := decide_eq_false hc
    have hbound := entry_set_claim h.firstLive hclaim (x := c.param) rfl
    rw [hlive, if_neg Bool.false_ne_true] at hbound
    rw [bound, hbound]
    by_cases hnum : num = c.num
    · rw [hnum]
      simp
    · simp only [Function.update_of_ne hnum]
      exact h.bound_eq num

/-- The table and what is in force stay together. -/
theorem Tracks.run {s : ParamList × (UInt16 → Option BindCall)} (h : Tracks s)
    {calls : List BindCall} (hcalls : ∀ c ∈ calls, c.num ≠ noParam) :
    Tracks (Machine.run noteCall s calls) := by
  induction calls generalizing s with
  | nil => exact h
  | cons c calls ih =>
    rw [Machine.run_cons]
    exact ih (h.step (hcalls c List.mem_cons_self))
      fun c' hc' => hcalls c' (List.mem_cons_of_mem _ hc')

/-- The table holds what is in force. -/
theorem tracks_buildTable {calls : List BindCall} (hcalls : ∀ c ∈ calls, c.num ≠ noParam) :
    Tracks (buildTable calls, lastBound calls) := by
  have hrun := tracks_zero.run hcalls
  have htbl : (Machine.run noteCall (ParamList.zero, fun _ => none) calls).1 = buildTable calls :=
    fst_run_noteCall _ calls
  rw [← htbl]
  exact hrun

/-! ## The calls in force -/

/-- What a number finds was put there by the last successful call for it, or by none. This holds
    of the number `NO_PARAM` as well, since only the first free slot can be bound to it. -/
structure InForce (s : ParamList × (UInt16 → Option BindCall)) : Prop where
  found : ∀ num i, getParam s.1 num = some i →
    s.1.get i = Param.zero ∨ ∃ c, s.2 num = some c ∧ s.1.get i = c.param
  free : ∀ i, (s.1.get i).paramNum = noParam →
    s.1.get i = Param.zero ∨ getParam s.1 noParam = some i

/-- An empty table holds zeroed slots only. -/
theorem inForce_zero : InForce (ParamList.zero, fun _ => none) where
  found _ i _ := .inl (Vector.getElem_replicate i.isLt)
  free i _ := .inl (Vector.getElem_replicate i.isLt)

/-- A number other than that of the call finds what it found before, or a free slot behind the
    one that was claimed. -/
theorem getParam_of_set_claim {tbl : ParamList} {c : BindCall} {i j : Fin paramNumMax}
    {num : UInt16} (hclaim : claim Param.paramNum isFree tbl c.num = some j) (hnum : num ≠ c.num)
    (h : getParam (tbl.set j c.param j.isLt) num = some i) :
    (tbl.set j c.param j.isLt).get i = tbl.get i ∧ (tbl.get i).paramNum = num ∧
      (getParam tbl num = some i ∨ num = noParam) := by
  have hfirst := find_eq_some_iff.mp
    (show find (tbl.set j c.param j.isLt) (fun x => x.paramNum = num) = some i from h)
  simp only [get_set, decide_eq_true_eq, decide_eq_false_iff_not] at hfirst ⊢
  have hij : i ≠ j := by
    rintro rfl
    rw [if_pos rfl] at hfirst
    exact hnum hfirst.1.symm
  rw [if_neg hij] at hfirst ⊢
  refine ⟨rfl, hfirst.1, ?_⟩
  by_cases hj : (tbl.get j).paramNum = num
  · -- the slot claimed had the number, so it was free
    obtain hfind | ⟨-, hfree⟩ := claim_eq_some hclaim
    · have hkey := of_decide_eq_true (find_eq_some_iff.mp hfind).1
      exact absurd (hj.symm.trans hkey) hnum
    · exact .inr (hj.symm.trans (of_decide_eq_true hfree))
  · left
    show find tbl (fun x => x.paramNum = num) = some i
    rw [find_eq_some_iff]
    refine ⟨decide_eq_true hfirst.1, fun k hk => decide_eq_false ?_⟩
    have hbefore := hfirst.2 k hk
    split at hbefore
    · rename_i hkj
      rwa [hkj]
    · exact hbefore

/-- A call keeps the slots in force. -/
theorem InForce.step {s : ParamList × (UInt16 → Option BindCall)} (h : InForce s)
    (c : BindCall) : InForce (noteCall s c) := by
  cases hclaim : claim Param.paramNum isFree s.1 c.num with
  | none =>
    have hsame : noteCall s c = s := by simp [noteCall, c.run_of_claim_none hclaim]
    rw [hsame]
    exact h
  | some j =>
    have hnext : noteCall s c =
        (s.1.set j c.param j.isLt, Function.update s.2 c.num (some c)) := by
      simp [noteCall, c.run_of_claim_some hclaim]
    rw [hnext]
    have hclaimed := getParam_set_claim hclaim
    constructor
    · intro num i hi
      by_cases hnum : num = c.num
      · -- the number of the call finds the slot claimed
        subst hnum
        obtain rfl : j = i := Option.some.inj (hclaimed.symm.trans hi)
        exact .inr ⟨c, Function.update_self .., by simp only [get_set, if_true]⟩
      · obtain ⟨hslot, hkey, hbefore⟩ := getParam_of_set_claim hclaim hnum hi
        simp only [hslot, Function.update_of_ne hnum]
        obtain hbefore | rfl := hbefore
        · exact h.found num i hbefore
        · obtain hzero | hfirst := h.free i hkey
          · exact .inl hzero
          · exact h.found noParam i hfirst
    · intro i hi
      simp only [get_set] at hi ⊢
      by_cases hij : i = j
      · rw [if_pos hij] at hi
        have hc : c.num = noParam := hi
        rw [hc] at hclaimed
        exact .inr (hij ▸ hclaimed)
      · rw [if_neg hij] at hi ⊢
        obtain hzero | hfirst := h.free i hi
        · exact .inl hzero
        · -- the first free slot was not the one claimed, and still is the first
          right
          have hc : c.num ≠ noParam := by
            intro hc
            rw [hc, ← bindSlot_eq_claim, bindSlot, hfirst] at hclaim
            exact hij (Option.some.inj hclaim)
          have hfind : find s.1 (fun x => x.paramNum = noParam) = some i := hfirst
          exact find_set_of_ne hfind hij (decide_eq_false hc)

/-- What a number finds in a table was put there by the call in force for it, or by none. -/
theorem get_of_getParam (calls : List BindCall) {num : UInt16} {i : Fin paramNumMax}
    (h : getParam (buildTable calls) num = some i) :
    (buildTable calls).get i = Param.zero ∨
      ∃ c, lastBound calls num = some c ∧ (buildTable calls).get i = c.param := by
  have htbl : (Machine.run noteCall (ParamList.zero, fun _ => none) calls).1 = buildTable calls :=
    fst_run_noteCall _ calls
  have hrun : InForce (Machine.run noteCall (ParamList.zero, fun _ => none) calls) :=
    Machine.run_invariant (fun s c hs => hs.step c) inForce_zero calls
  have hfound := hrun.found num i
  rw [htbl] at hfound
  exact hfound h

/-! ## The bounded map -/

/-- A call, successful or not, leaves the other numbers alone. -/
theorem Tracks.bound_of_ne {s : ParamList × (UInt16 → Option BindCall)} (h : Tracks s)
    {c : BindCall} (hc : c.num ≠ noParam) {num : UInt16} (hne : num ≠ c.num) :
    bound (c.run s.1).2 num = bound s.1 num := by
  have hnext := (h.step hc).bound_eq num
  rw [h.bound_eq]
  simp only [noteCall] at hnext
  rw [hnext]
  split
  · rw [Function.update_of_ne hne]
  · rfl

/-- A call returns true exactly if its number is in use or a number can be added. -/
theorem Tracks.run_fst_iff {s : ParamList × (UInt16 → Option BindCall)} (h : Tracks s)
    (c : BindCall) : (c.run s.1).1 = true ↔ (s.2 c.num).isSome = true ∨
      {num | (s.2 num).isSome = true}.ncard < paramNumMax := by
  have hsome : ∀ num, (s.2 num).isSome = true ↔ (bound s.1 num).isSome = true := by
    intro num
    rw [h.bound_eq, Option.isSome_map]
  simp only [hsome]
  rw [← claim_ne_none_iff h.firstLive]
  -- a call succeeds exactly if there is a slot to claim
  cases hclaim : claim Param.paramNum isFree s.1 c.num with
  | none => simp [c.run_of_claim_none hclaim]
  | some i => simp [c.run_of_claim_some hclaim]

/-- The parameter table is a bounded map from the numbers bound to their last successful
    calls. -/
theorem paramTable_boundedMap (calls : List BindCall) (hcalls : ∀ c ∈ calls, c.num ≠ noParam)
    (c : BindCall) (hc : c.num ≠ noParam) :
    let tbl := buildTable calls
    ((c.run tbl).1 = true ↔ (lastBound calls c.num).isSome = true ∨
      {num | (lastBound calls num).isSome = true}.ncard < paramNumMax) ∧
    (∀ num, num ≠ noParam → paramAt tbl num = (lastBound calls num).map BindCall.param) ∧
    (∀ num, num ≠ noParam → num ≠ c.num → paramAt (c.run tbl).2 num = paramAt tbl num) ∧
    (∀ i j, (tbl.get i).paramNum ≠ noParam → (tbl.get i).paramNum = (tbl.get j).paramNum →
      i = j) := by
  intro tbl
  have htracks : Tracks (tbl, lastBound calls) := tracks_buildTable hcalls
  refine ⟨htracks.run_fst_iff c, ?_, ?_, ?_⟩
  · intro num hnum
    rw [paramAt_eq_bound tbl hnum]
    exact htracks.bound_eq num
  · intro num hnum hne
    rw [paramAt_eq_bound _ hnum, paramAt_eq_bound _ hnum]
    exact htracks.bound_of_ne hc hne
  · intro i j hi hij
    refine htracks.firstLive.unique (decide_eq_false hi) (decide_eq_false ?_) hij
    rw [← hij]
    exact hi

/-- A number bound anew, with another type: the last call counts. -/
theorem paramTable_boundedMap_rebound :
    paramAt (buildTable [.uint8T 5 (some 40) 0 9, .bool 7 (some 41), .ranked 5 (some 42) [1, 3]])
      5 = some (BindCall.ranked 5 (some 42) [1, 3]).param :=
  ((paramTable_boundedMap
    [.uint8T 5 (some 40) 0 9, .bool 7 (some 41), .ranked 5 (some 42) [1, 3]] (by decide)
    (.cmd 8 none) (by decide)).2.1 5 (by decide)).trans (by decide)

end EspTesting.Bgcp
