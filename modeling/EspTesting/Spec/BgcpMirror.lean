import EspTesting.Spec.BgcpParamMap
import EspTesting.Spec.BgcpResponse

/-!
# Mirroring values by responses

The answer of device A to a read request is a message of responses. Parsed on a device B
with the same bindings it stores A's bytes in B's variables: for each type the update
handler is the inverse of the response handler on the values of the binding
(`storeOf_of_holds`). The bindings are compared number by number, so the devices may have
bound them in any order. A response asks for nothing, so B answers nothing.
-/

namespace EspTesting.Bgcp

/-! ## One value -/

/-- The bytes are a value of the binding. -/
def Param.Holds (param : Param) (v : List UInt8) : Prop :=
  match param.dataType with
  | .type8B | .type16B => v.length = param.size ∧
    param.limits.min ≤ Mem.leValue v ∧ (Mem.leValue v : Int) ≤ param.limits.max
  | .type1B => v = [off] ∨ v = [on]
  | .type8BRange => ∃ x ∈ param.validValues, v = [x]
  | .typeBin => v.length = param.size ∧ (v.length : Int) = param.limits.max
  | _ => False

instance (param : Param) (v : List UInt8) : Decidable (param.Holds v) := by
  obtain ⟨num, type, linked, time, data⟩ := param
  unfold Param.Holds
  cases type <;> infer_instance

/-- A value of the binding fills its variable. -/
theorem Param.Holds.length {param : Param} {v : List UInt8} (h : param.Holds v) :
    v.length = param.size := by
  unfold Param.Holds at h
  unfold Param.size
  cases htype : param.dataType with
  | type8B | type16B | typeBin =>
    rw [htype] at h
    rw [h.1, Param.size, htype]
  | type1B =>
    rw [htype] at h
    rcases h with rfl | rfl
    · rfl
    · rfl
  | type8BRange =>
    rw [htype] at h
    obtain ⟨x, _, rfl⟩ := h
    rfl
  | _ =>
    rw [htype] at h
    exact h.elim

/-- A value of the binding passes the clamping of its handler unchanged. -/
private theorem numStore_of_mem {size : Nat} {d : NumDescription} {v old : List UInt8}
    (hlen : v.length = size) (hmin : 0 ≤ d.min) (hmax : d.max < 256 ^ size)
    (hlo : d.min ≤ Mem.leValue v) (hhi : (Mem.leValue v : Int) ≤ d.max) :
    numStore size d 0 (some v) old = some v := by
  have hle := Int.le_trans hlo hhi
  have hlo' := toUnsigned_of_mem hmin (Int.lt_of_le_of_lt hle hmax)
  have hhi' := toUnsigned_of_mem (Int.le_trans hmin hle) hmax
  have hzero : ¬ BgcpState.toUnsigned size 0 ≠ 0 := by
    simp only [BgcpState.toUnsigned, Int.zero_emod, Int.toNat_zero, ne_eq, not_true_eq_false,
      not_false_eq_true]
  have hclamp : clamp (BgcpState.toUnsigned size d.min) (BgcpState.toUnsigned size d.max)
      (Mem.leValue v) = Mem.leValue v := by
    unfold clamp
    rw [if_neg (by omega), if_neg (by omega)]
  simp only [numStore, if_neg hzero, if_pos hlen, hclamp]
  rw [← hlen, Mem.leBytes_leValue]

/-- A value of a numeric binding is stored as it is. -/
private theorem Param.Holds.numStore_eq {param : Param} {size : Nat} {v : List UInt8}
    (h : param.Holds v) (htype : param.dataType = .type8B ∨ param.dataType = .type16B)
    (hsize : param.size = size) (hbounded : param.Bounded) (old : List UInt8) :
    numStore size param.limits 0 (some v) old = some v := by
  have hbounds := hbounded htype
  rw [hsize] at hbounds
  have hlen := h.length.trans hsize
  unfold Param.Holds at h
  rcases htype with htype | htype
  · rw [htype] at h
    exact numStore_of_mem hlen hbounds.1 hbounds.2 h.2.1 h.2.2
  · rw [htype] at h
    exact numStore_of_mem hlen hbounds.1 hbounds.2 h.2.1 h.2.2

/-- The update handler of a plain parameter is the one of its type. -/
private theorem Param.Plain.update_eq {param : Param} {f g : UpdateFunc} {r : RespFunc}
    {h : Option RespFunc} {a : Nat} {t : DataType} (hplain : param.Plain f r a)
    (htype : param.dataType = t) (ht : t ≠ .typeAction)
    (hdesc : getDescriptorsOfDataType t = some ⟨some g, h⟩) : f = g := by
  have hproc := hplain.proc
  rw [getParamDataProcessor_of_type htype ht, hdesc] at hproc
  injection hproc with hproc
  injection hproc with hfunc _
  exact (Option.some.inj hfunc).symm

/-- What is in the list is found in it. -/
private theorem seekValInRangeList_of_mem {x : UInt8} {values : List UInt8} (h : x ∈ values) :
    ∃ idx, BgcpState.seekValInRangeList x values = some idx := by
  cases hseek : BgcpState.seekValInRangeList x values with
  | some idx => exact ⟨idx, rfl⟩
  | none =>
    have hnone := List.findIdx?_eq_none_iff.mp hseek x h
    simp only [decide_true, Bool.true_eq_false] at hnone

/-- On a value of the binding the update handler stores just that value. -/
theorem storeOf_of_holds {param : Param} {f : UpdateFunc} {r : RespFunc} {a : Nat}
    (hplain : param.Plain f r a) (hbounded : param.Bounded) {v : List UInt8}
    (hv : param.Holds v) (m : Mem) : storeOf f param 0 (some v) m a = some v := by
  have hinc : param.incVal 0 = 0 := by
    unfold Param.incVal
    split <;> rfl
  have hvalue := hv
  unfold Param.Holds at hv
  cases htype : param.dataType with
  | type8B =>
    obtain rfl := hplain.update_eq htype (by decide) rfl
    have hsize : param.size = 1 := by rw [Param.size, htype]
    simp only [storeOf, hinc]
    exact hvalue.numStore_eq (Or.inl htype) hsize hbounded _
  | type16B =>
    obtain rfl := hplain.update_eq htype (by decide) rfl
    have hsize : param.size = 2 := by rw [Param.size, htype]
    simp only [storeOf, hinc]
    exact hvalue.numStore_eq (Or.inr htype) hsize hbounded _
  | type1B =>
    obtain rfl := hplain.update_eq htype (by decide) rfl
    rw [htype] at hv
    -- `OFF` and `ON` are the two values a `bool` can hold
    rcases hv with rfl | rfl
    · rfl
    · rfl
  | type8BRange =>
    obtain rfl := hplain.update_eq htype (by decide) rfl
    rw [htype] at hv
    obtain ⟨x, hx, rfl⟩ := hv
    obtain ⟨idx, hidx⟩ := seekValInRangeList_of_mem hx
    simp only [storeOf, rangeStore, List.length_singleton, if_true, List.headD_cons, hidx,
      Option.map_some]
  | typeBin =>
    obtain rfl := hplain.update_eq htype (by decide) rfl
    rw [htype] at hv
    simp only [storeOf, binStore, if_pos hv.2]
  | _ =>
    rw [htype] at hv
    exact hv.elim

/-! ## The request and the reply -/

/-- The entries of a read request. -/
def readRequest (nums : List UInt16) : List Entry := nums.map fun n => .param .r n []

/-- The entry that answers a read request for a number. -/
def reply (tbl : ParamList) (m : Mem) (n : UInt16) : Entry :=
  match getParam tbl n with
  | none => .notSup n
  | some i => .param .resp n ((tbl.get i).value m)

/-- A read request changes no variable, so all its replies come from the same memory. -/
theorem answersFrom_readRequest {H : Handlers} {tbl : ParamList} (htbl : tbl.Plain)
    (w : World) {nums : List UInt16} (hnums : ∀ n ∈ nums, n ≠ noParam) :
    w.answersFrom H tbl (readRequest nums) = nums.map (reply tbl w.mem) := by
  induction nums generalizing w with
  | nil => rfl
  | cons n nums ih =>
    -- a read request changes no variable, so each answer is of the first memory
    have hmem : (w.apply H tbl (Entry.param .r n []).event).mem = w.mem := by
      simp only [World.apply, Entry.event]
      cases hparam : getParam tbl n with
      | none => rfl
      | some i =>
        have hslot := paramNum_of_getParam hparam
        obtain ⟨f, r, a, hplain⟩ := htbl i (by rw [hslot]; exact hnums n (List.mem_cons_self ..))
        dsimp only
        rw [World.process_of_builtin H hplain.proc hplain.builtin hplain.linked]
        show (World.answer H (tbl.get i) _ r _).mem = w.mem
        rw [hplain.answer]
        rfl
    have hhead : answerOf tbl w.mem (.param .r n []) = [reply tbl w.mem n] := by
      have hasks : Func.r.asksAnswer = true := rfl
      simp only [answerOf, Entry.func, hasks, Entry.num, reply, if_true]
      cases getParam tbl n with
      | none => rfl
      | some i => rfl
    have htail := ih (w.apply H tbl (Entry.param .r n []).event)
      fun n' h => hnums n' (List.mem_cons_of_mem _ h)
    show answerOf tbl (w.apply H tbl (Entry.param .r n []).event).mem _ ++
      World.answersFrom H tbl _ (readRequest nums) = _
    rw [htail, hmem, hhead]
    rfl

/-! ## Two devices -/

/-- The type of a parameter, and the limits or the list it was bound with. -/
def Param.binding (param : Param) : DataType × ParamUnion := (param.dataType, param.data)

/-- The tables bind a number alike, or neither of them binds it. -/
def ParamList.SameAt (tA tB : ParamList) (n : UInt16) : Prop :=
  (paramAt tA n).map Param.binding = (paramAt tB n).map Param.binding

instance (tA tB : ParamList) (n : UInt16) : Decidable (tA.SameAt tB n) := by
  unfold ParamList.SameAt; infer_instance

/-- The tables have the same bindings. The variables may lie at different addresses, and the
    parameters in different slots. -/
def ParamList.SameBindings (tA tB : ParamList) : Prop := ∀ n, n ≠ noParam → tA.SameAt tB n

/-- Only the numbers in use have to be compared. -/
theorem sameBindings_iff {tA tB : ParamList} : tA.SameBindings tB ↔
    (∀ i : Fin paramNumMax, (tA.get i).paramNum ≠ noParam → tA.SameAt tB (tA.get i).paramNum) ∧
    ∀ i : Fin paramNumMax, (tB.get i).paramNum ≠ noParam → tA.SameAt tB (tB.get i).paramNum := by
  constructor
  · exact fun h => ⟨fun i => h _, fun i => h _⟩
  · rintro ⟨hA, hB⟩ n hn
    -- a number that one of the tables finds is in use there
    cases hiA : getParam tA n with
    | some i =>
      have hkey := paramNum_of_getParam hiA
      have hsame := hA i (by rwa [hkey])
      rwa [hkey] at hsame
    | none =>
      cases hiB : getParam tB n with
      | some i =>
        have hkey := paramNum_of_getParam hiB
        have hsame := hB i (by rwa [hkey])
        rwa [hkey] at hsame
      | none => simp only [ParamList.SameAt, paramAt, hiA, hiB, Option.map_none]

instance (tA tB : ParamList) : Decidable (tA.SameBindings tB) :=
  decidable_of_iff _ sameBindings_iff.symm

/-- A number that is bound on B is bound on A, to the same type with the same limits. -/
theorem ParamList.SameBindings.found {tA tB : ParamList} (h : tA.SameBindings tB) {n : UInt16}
    (hn : n ≠ noParam) {q : Param} (hq : paramAt tB n = some q) :
    ∃ p, paramAt tA n = some p ∧ p.dataType = q.dataType ∧ p.data = q.data := by
  have hsame := h n hn
  rw [ParamList.SameAt, hq, Option.map_some] at hsame
  obtain ⟨p, hp, hbinding⟩ := Option.map_eq_some_iff.mp hsame
  exact ⟨p, hp, congrArg Prod.fst hbinding, congrArg Prod.snd hbinding⟩

/-- A number that is not bound on B is not bound on A. -/
theorem ParamList.SameBindings.not_found {tA tB : ParamList} (h : tA.SameBindings tB)
    {n : UInt16} (hn : n ≠ noParam) (hB : paramAt tB n = none) : paramAt tA n = none := by
  have hsame := h n hn
  rw [ParamList.SameAt, hB, Option.map_none] at hsame
  exact Option.map_eq_none_iff.mp hsame

/-- A value of the binding is one on both devices. -/
private theorem holds_of_sameBindings {p q : Param} (htype : p.dataType = q.dataType)
    (hdata : p.data = q.data) {v : List UInt8} (h : p.Holds v) : q.Holds v := by
  obtain ⟨num, type, linked, time, data⟩ := p
  obtain ⟨num', type', linked', time', data'⟩ := q
  obtain rfl : type = type' := htype
  obtain rfl : data = data' := hdata
  exact h

/-- The address is none of the parameter's variable. -/
def Param.Outside (param : Param) (x : Nat) : Prop :=
  ∀ b ∈ param.linkedData, x < b ∨ b + param.size ≤ x

/-- What changes the variables of some numbers only keeps the values of the others. -/
theorem ParamList.Distinct.value_eq {tbl : ParamList} (hdist : tbl.Distinct) {m m' : Mem}
    {nums : List UInt16}
    (hkept : ∀ x, (∀ n ∈ nums, ∀ q, paramAt tbl n = some q → q.Outside x) → m' x = m x)
    {n : UInt16} (hn : n ∉ nums) {q : Param} (hq : paramAt tbl n = some q) :
    q.value m' = q.value m := by
  obtain ⟨i, hi, rfl⟩ := getParam_of_paramAt hq
  unfold Param.value
  cases hlinked : (tbl.get i).linkedData with
  | none => rfl
  | some a =>
    apply Mem.load_eq_iff.mpr
    intro x hlo hhi
    refine hkept x fun n' hn' q' hq' b hb => ?_
    obtain ⟨j, hj, rfl⟩ := getParam_of_paramAt hq'
    -- the slots have different numbers, so the variables lie apart
    have hij : i ≠ j := by
      rintro rfl
      rw [← paramNum_of_getParam hi, paramNum_of_getParam hj] at hn
      exact hn hn'
    rcases hdist i j hij a hlinked b hb with h | h
    · exact Or.inl (by omega)
    · exact Or.inr (by omega)

/-- Every variable of the table holds a value of its binding. -/
def ParamList.Holds (tbl : ParamList) (m : Mem) : Prop :=
  ∀ i : Fin paramNumMax, (tbl.get i).paramNum ≠ noParam →
    (tbl.get i).Holds ((tbl.get i).value m)

instance (tbl : ParamList) (m : Mem) : Decidable (tbl.Holds m) := by
  unfold ParamList.Holds; infer_instance

section

variable {H : Handlers} {tA tB : ParamList} (hsame : tA.SameBindings tB) (hB : tB.Plain)
  (hbounded : ∀ i : Fin paramNumMax, (tB.get i).Bounded) {mA : Mem} (hvals : tA.Holds mA)

include hsame hB hbounded hvals

/-- On B the reply for a number stores A's value in B's variable, if the number is bound. -/
theorem apply_reply {n : UInt16} (hn : n ≠ noParam) {q : Param} (hq : paramAt tB n = some q)
    (w : World) : ∃ p b, paramAt tA n = some p ∧ q.linkedData = some b ∧ q.Holds (p.value mA) ∧
      w.apply H tB (reply tA mA n).event = { w with mem := w.mem.store b (p.value mA) } := by
  obtain ⟨p, hp, htype, hdata⟩ := hsame.found hn hq
  obtain ⟨i, hiA, rfl⟩ := getParam_of_paramAt hp
  obtain ⟨j, hjB, rfl⟩ := getParam_of_paramAt hq
  -- both tables bind the number alike, so what A sends is a value B accepts
  have hholds : (tB.get j).Holds ((tA.get i).value mA) :=
    holds_of_sameBindings htype hdata (hvals i (by rwa [paramNum_of_getParam hiA]))
  obtain ⟨f, r, b, hplain⟩ := hB j (by rwa [paramNum_of_getParam hjB])
  have hstore := storeOf_of_holds hplain (hbounded j) hholds w.mem
  have hne : (tA.get i).value mA ≠ [] := by
    intro hnil
    have hlen := hholds.length
    rw [hnil, List.length_nil] at hlen
    have := hplain.size_pos
    omega
  -- it comes as the block of the request and is stored as it is
  have hinput : inputOf bgcpFuncResp ((tA.get i).value mA) = some ((tA.get i).value mA) :=
    if_pos ⟨rfl, hne⟩
  refine ⟨_, b, hp, hplain.linked, hholds, ?_⟩
  simp only [reply, hiA, World.apply, Entry.event, hjB, Func.code, hinput]
  rw [World.process_of_builtin H hplain.proc hplain.builtin hplain.linked]
  show World.mk (memAfter f (tB.get j) bgcpFuncResp _ w.mem b) w.rq = _
  have hmem : memAfter f (tB.get j) bgcpFuncResp (some ((tA.get i).value mA)) w.mem b =
      w.mem.store b ((tA.get i).value mA) := memAfter_of_store rfl hstore
  rw [hmem]

/-- One reply copies A's value if the number is bound, and nothing else. -/
theorem apply_reply_spec {n : UInt16} (hn : n ≠ noParam) (w : World) :
    let w' := w.apply H tB (reply tA mA n).event
    w'.rq = w.rq ∧
    (∀ q, paramAt tB n = some q → ∃ p, paramAt tA n = some p ∧ q.value w'.mem = p.value mA) ∧
    ∀ x, (∀ q, paramAt tB n = some q → q.Outside x) → w'.mem x = w.mem x := by
  cases hfound : paramAt tB n with
  | none =>
    -- neither device has the number: the reply is a mark
    have hgetB := Option.map_eq_none_iff.mp hfound
    have hgetA := Option.map_eq_none_iff.mp (hsame.not_found hn hfound)
    have happly : w.apply H tB (reply tA mA n).event = w := by
      simp only [reply, hgetA, World.apply, Entry.event, hgetB]
      rfl
    rw [happly]
    refine ⟨rfl, ?_, fun _ _ => rfl⟩
    intro q hq
    cases hq
  | some q =>
    obtain ⟨p, b, hp, hlinked, hholds, happly⟩ :=
      apply_reply (H := H) hsame hB hbounded hvals hn hfound w
    rw [happly]
    refine ⟨rfl, ?_, ?_⟩
    · intro q' hq'
      obtain rfl := Option.some.inj hq'
      refine ⟨p, hp, ?_⟩
      simp only [Param.value, hlinked]
      rw [← hholds.length]
      exact Mem.load_store ..
    · intro x hx
      apply Mem.store_of_not_mem
      rw [hholds.length]
      exact hx q rfl b hlinked

/-- The replies for a list of numbers copy A's values of the numbers that are bound, and
    nothing else. -/
theorem applyAll_replies (hdist : tB.Distinct) {nums : List UInt16}
    (hnums : ∀ n ∈ nums, n ≠ noParam) (w : World) :
    let w' := w.applyAll H tB ((nums.map (reply tA mA)).map Entry.event)
    w'.rq = w.rq ∧
    (∀ n ∈ nums, ∀ q, paramAt tB n = some q →
      ∃ p, paramAt tA n = some p ∧ q.value w'.mem = p.value mA) ∧
    ∀ x, (∀ n ∈ nums, ∀ q, paramAt tB n = some q → q.Outside x) → w'.mem x = w.mem x := by
  induction nums generalizing w with
  | nil => exact ⟨rfl, List.forall_mem_nil _, fun _ _ => rfl⟩
  | cons n nums ih =>
    obtain ⟨hrq₁, hcopied₁, hkept₁⟩ := apply_reply_spec (H := H) hsame hB hbounded hvals
      (hnums n (List.mem_cons_self ..)) w
    obtain ⟨hrq, hcopied, hkept⟩ :=
      ih (fun n' h => hnums n' (List.mem_cons_of_mem _ h)) (w.apply H tB (reply tA mA n).event)
    refine ⟨hrq.trans hrq₁, ?_, ?_⟩
    · intro n' hn' q hq
      by_cases hmem : n' ∈ nums
      · exact hcopied n' hmem q hq
      · -- the later replies are for other numbers, whose variables lie apart
        obtain rfl : n' = n := by
          cases hn' with
          | head => rfl
          | tail _ h => exact absurd h hmem
        obtain ⟨p, hp, hvalue⟩ := hcopied₁ q hq
        exact ⟨p, hp, (hdist.value_eq hkept hmem hq).trans hvalue⟩
    · intro x hx
      have hlater := hkept x fun n' h => hx n' (List.mem_cons_of_mem _ h)
      exact hlater.trans (hkept₁ x (hx n (List.mem_cons_self ..)))

end

/-- A answers a read request with the replies for its numbers. -/
theorem answers_readRequest (H : Handlers) {binds : List BindCall} (hplain : ∀ c ∈ binds, c.Plain)
    (parser : ParserData) (rq : BGCPQueue) (mem : Mem) {nums : List UInt16}
    (hnums : ∀ n ∈ nums, n ≠ noParam ∧ n.toUInt8 < bgcpCmdFunc) :
    answers H ⟨parser, rq, buildTable binds, mem⟩ (readRequest nums) =
      nums.map (reply (buildTable binds) mem) := by
  have hwf : ∀ e ∈ readRequest nums, e.WellFormed := by
    intro e he
    obtain ⟨n, hn, rfl⟩ := List.mem_map.mp he
    exact ⟨(hnums n hn).2, rfl⟩
  have hfrom : answers H ⟨parser, rq, buildTable binds, mem⟩ (readRequest nums) = _ :=
    BgcpState.answersAfter_eq _ [] _ hwf
  exact hfrom.trans
    (answersFrom_readRequest (plain_buildTable hplain) _ fun n hn => (hnums n hn).1)

/-- A's response to a read request, parsed on B, makes B's value of every number of the
    request that is bound equal to A's, leaves all other bytes of B unchanged and leaves
    B's response queue empty. The devices need not have bound their parameters in the same
    order. -/
theorem parse_response_mirrors (HA HB : Handlers) {bindsA bindsB : List BindCall}
    (hA : ∀ c ∈ bindsA, c.Plain) (hB : ∀ c ∈ bindsB, c.Plain)
    (hsame : (buildTable bindsA).SameBindings (buildTable bindsB))
    (hdist : (buildTable bindsB).Distinct) (pA pB : ParserData) (rqA rqB : BGCPQueue)
    (mA mB : Mem) (hvals : (buildTable bindsA).Holds mA)
    {nums : List UInt16} (hne : nums ≠ [])
    (hnums : ∀ n ∈ nums, n ≠ noParam ∧ n.toUInt8 < bgcpCmdFunc)
    (hfit : (encode (answers HA ⟨pA, rqA, buildTable bindsA, mA⟩ (readRequest nums))).length ≤
      queueBufSize - 1) :
    let response := (BgcpState.parse HA (encode (readRequest nums))
      ⟨pA, rqA, buildTable bindsA, mA⟩).rq.bytes
    let B := BgcpState.parse HB response ⟨pB, rqB, buildTable bindsB, mB⟩
    (∀ n ∈ nums, ∀ q, paramAt (buildTable bindsB) n = some q →
      ∃ p, paramAt (buildTable bindsA) n = some p ∧ q.value B.mem = p.value mA) ∧
    (∀ x, (∀ n ∈ nums, ∀ q, paramAt (buildTable bindsB) n = some q → q.Outside x) →
      B.mem x = mB x) ∧
    B.rq.bytes = [] := by
  have htblA := plain_buildTable hA
  have htblB := plain_buildTable hB
  -- A answers with the replies for the numbers
  have hreq : ∀ e ∈ readRequest nums, e.IsRequest := by
    intro e he
    obtain ⟨n, hn, rfl⟩ := List.mem_map.mp he
    exact ⟨⟨(hnums n hn).2, rfl⟩, (hnums n hn).1⟩
  have hanswers := answers_readRequest HA hA pA rqA mA hnums
  have hwf : ∀ e ∈ answers HA ⟨pA, rqA, buildTable bindsA, mA⟩ (readRequest nums),
      e.WellFormed :=
    wellFormed_answers htblA (fun e he => (hreq e he).spec.2.1) fun e he => (hreq e he).spec.2.2
  have hresponse := @BgcpState.bytes_parse_encode HA ⟨pA, rqA, buildTable bindsA, mA⟩
    htblA (readRequest nums) (fun h => hne (List.map_eq_nil_iff.mp h))
    (fun e he => (hreq e he).spec.1) (fun e he => (hreq e he).spec.2.2) hwf
    (Nat.lt_of_le_of_lt hfit (by decide))
  -- B applies them one after the other
  rw [hanswers] at hresponse hwf
  have hB' := @BgcpState.world_parse_encode HB ⟨pB, rqB, buildTable bindsB, mB⟩
    (nums.map (reply (buildTable bindsA) mA)) (fun h => hne (List.map_eq_nil_iff.mp h)) hwf
  obtain ⟨hrq, hcopied, hkept⟩ := applyAll_replies (H := HB) hsame htblB
    (bounded_buildTable bindsB) hvals hdist (fun n hn => (hnums n hn).1)
    ⟨mB, rqB.resetReqQueue⟩
  rw [← hB'] at hrq hcopied hkept
  simp only [hresponse]
  refine ⟨hcopied, hkept, ?_⟩
  show (BgcpState.world _).rq.bytes = []
  rw [hrq]
  rfl

/-- The devices have bound their parameters in different orders, to different addresses. -/
theorem parse_response_mirrors_mixed :
    let bindsA : List BindCall := [.uint16T 0x0102 (some 0) 10 600, .bool 3 (some 2),
      .ranked 4 (some 3) [1, 2, 4], .binary 0x0105 (some 4) 3]
    let bindsB : List BindCall := [.binary 0x0105 (some 50) 3, .ranked 4 (some 40) [1, 2, 4],
      .uint16T 0x0102 (some 20) 10 600, .bool 3 (some 30)]
    let H : Handlers := fun _ _ m => (m, [])
    let mA : Mem := fun a => [0x2C, 1, 1, 4, 0xFC, 0xFD, 0xFE].getD a 0
    let nums : List UInt16 := [0x0105, 3, 0x0207, 4, 0x0102]
    let response := (BgcpState.parse H (encode (readRequest nums))
      ⟨.zero, .zero, buildTable bindsA, mA⟩).rq.bytes
    let B := BgcpState.parse H response ⟨.zero, .zero, buildTable bindsB, fun _ => 7⟩
    (∀ n ∈ nums, ∀ q, paramAt (buildTable bindsB) n = some q →
      ∃ p, paramAt (buildTable bindsA) n = some p ∧ q.value B.mem = p.value mA) ∧
    (∀ x, (∀ n ∈ nums, ∀ q, paramAt (buildTable bindsB) n = some q → q.Outside x) →
      B.mem x = 7) ∧
    B.rq.bytes = [] :=
  parse_response_mirrors _ _ (by decide) (by decide) (by decide +kernel) (by decide +kernel)
    _ _ _ _ _ _ (by decide +kernel) (by decide)
    (by simp only [List.forall_mem_cons, List.not_mem_nil, false_implies, implies_true]; decide)
    (by decide +kernel)

end EspTesting.Bgcp
