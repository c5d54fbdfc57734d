import EspTesting.Spec.BgcpParamMap
import EspTesting.Spec.BgcpValidity

/-!
# Steps of a number

The requests that increment and decrement a number add one, or the largest value of its type
for minus one, and then compare with the limits. A step past a limit that is also a limit of
the type wraps around in the type before the comparison, and is taken for a step past the
other limit.

## Key results

- `wrap_succ`, `wrap_pred`: the two steps, with the values they leave at the limits
- `value_parse`: the value that a request leaves
- `increment_cyclic_iff`
-/

namespace EspTesting.Bgcp

/-! ## Steps within the type -/

section

variable {lo hi M v : Nat}

/-- A step up goes on at the lower limit, unless it wraps around below it. -/
theorem wrap_succ (hlt : lo < hi) (hM : hi < M) (hlo : lo ≤ v) (hhi : v ≤ hi) :
    wrap lo hi ((v + 1) % M) =
      if v = hi then (if hi + 1 = M ∧ lo ≠ 0 then hi else lo) else v + 1 := by
  have hmod : (v + 1) % M = if v + 1 = M then 0 else v + 1 := by
    split
    · rename_i heq
      rw [heq, Nat.mod_self]
    · exact Nat.mod_eq_of_lt (by omega)
  unfold wrap
  rw [hmod]
  split_ifs <;> omega

/-- A step down goes on at the upper limit, unless it wraps around above it. -/
theorem wrap_pred (hlt : lo < hi) (hM : hi < M) (hlo : lo ≤ v) (hhi : v ≤ hi) :
    wrap lo hi ((v + (M - 1)) % M) =
      if v = lo then (if lo = 0 ∧ hi + 1 ≠ M then lo else hi) else v - 1 := by
  have hmod : (v + (M - 1)) % M = if v = 0 then M - 1 else v - 1 := by
    split
    · rename_i hzero
      rw [hzero, Nat.zero_add, Nat.mod_eq_of_lt (by omega)]
    · rw [show v + (M - 1) = v - 1 + M by omega, Nat.add_mod_right, Nat.mod_eq_of_lt (by omega)]
  unfold wrap
  rw [hmod]
  split_ifs <;> omega

end

/-! ## The value a request leaves -/

/-- The unsigned types of numbers. -/
inductive NumType where
  | uint8T
  | uint16T
  deriving DecidableEq, Repr

/-- `sizeof` -/
def NumType.size : NumType → Nat
  | uint8T => 1
  | uint16T => 2

/-- The call that binds a number at `a`, with its limits. -/
def NumType.bind (t : NumType) (num : UInt16) (a min max : Nat) : BindCall :=
  match t with
  | uint8T => .uint8T num (some a) min.toUInt8 max.toUInt8
  | uint16T => .uint16T num (some a) min.toUInt16 max.toUInt16

/-- The handlers of the type. -/
def NumType.updateFunc : NumType → UpdateFunc
  | uint8T => .updateUint8T
  | uint16T => .updateUint16T

/-- The message is a request for the number, of a function without a block. -/
def IsRequestFor (f : Func) (num : UInt16) (msg : List UInt8) : Prop :=
  decode msg = [⟨f.code, num, .data []⟩]

instance (f : Func) (num : UInt16) (msg : List UInt8) : Decidable (IsRequestFor f num msg) :=
  inferInstanceAs (Decidable (_ = _))

/-- The number bound. -/
def NumType.value (t : NumType) (a : Nat) (s : BgcpState) : Nat := Mem.leValue (s.mem.load a t.size)

variable {t : NumType} {num : UInt16} {a min max : Nat} {binds : List BindCall} {s : BgcpState}
  {f : Func} {msg : List UInt8}

theorem NumType.limits_bind (hmin : min < 256 ^ t.size) (hmax : max < 256 ^ t.size) :
    (t.bind num a min max).param.limits = ⟨min, max⟩ := by
  cases t with
  | uint8T =>
    have hmin' : min.toUInt8.toNat = min := Nat.mod_eq_of_lt hmin
    have hmax' : max.toUInt8.toNat = max := Nat.mod_eq_of_lt hmax
    show (⟨(min.toUInt8.toNat : Int), (max.toUInt8.toNat : Int)⟩ : NumDescription) = _
    rw [hmin', hmax']
  | uint16T =>
    have hmin' : min.toUInt16.toNat = min := Nat.mod_eq_of_lt hmin
    have hmax' : max.toUInt16.toNat = max := Nat.mod_eq_of_lt hmax
    show (⟨(min.toUInt16.toNat : Int), (max.toUInt16.toNat : Int)⟩ : NumDescription) = _
    rw [hmin', hmax']

/-- What a step stores over the bytes `old`. -/
theorem NumType.storeOf_step (hmin : min < 256 ^ t.size) (hmax : max < 256 ^ t.size)
    {inc : Int} (hinc : BgcpState.toUnsigned t.size inc ≠ 0) (m : Mem) :
    storeOf t.updateFunc (t.bind num a min max).param inc none m a =
      some (Mem.leBytes t.size (wrap min max
        ((Mem.leValue (m.load a t.size) + BgcpState.toUnsigned t.size inc) % 256 ^ t.size))) := by
  have hlimits := @NumType.limits_bind t num a min max hmin hmax
  have hto (v : Nat) (hv : v < 256 ^ t.size) : BgcpState.toUnsigned t.size (v : Int) = v := by
    exact Int.ofNat_inj.mp (toUnsigned_of_mem (Int.natCast_nonneg v) (by exact_mod_cast hv))
  have hnum : numStore t.size (t.bind num a min max).param.limits inc none (m.load a t.size) =
      some (Mem.leBytes t.size (wrap min max
        ((Mem.leValue (m.load a t.size) + BgcpState.toUnsigned t.size inc) % 256 ^ t.size))) := by
    unfold numStore
    rw [hlimits]
    simp only [hinc, ne_eq, not_false_eq_true, if_true, hto min hmin, hto max hmax]
  cases t with
  | uint8T => exact hnum
  | uint16T => exact hnum

/-- The response handler of the type. -/
def NumType.respFunc : NumType → RespFunc
  | uint8T => .sendUint8T
  | uint16T => .sendUint16T

/-- The last successful call for a number is found under it. -/
theorem getParam_of_lastBound (hbinds : ∀ c ∈ binds, c.num ≠ noParam)
    (hlast : lastBound binds num = some (t.bind num a min max)) :
    ∃ i, getParam (buildTable binds) num = some i ∧
      (buildTable binds).get i = (t.bind num a min max).param := by
  have hbound : bound (buildTable binds) num = (lastBound binds num).map BindCall.param :=
    (tracks_buildTable hbinds).bound_eq num
  rw [hlast, Option.map_some] at hbound
  have hnum : num ≠ noParam := by
    have hlive := (Option.filter_eq_some_iff.mp hbound).2
    have hsame : (t.bind num a min max).param.paramNum = num := by cases t <;> rfl
    rw [isFree, hsame] at hlive
    simpa using hlive
  rw [← paramAt_eq_bound _ hnum] at hbound
  exact getParam_of_paramAt hbound

/-- A request to step has its effect on the number only through the update handler. -/
theorem mem_parse (H : Handlers) (htbl : s.paramList = buildTable binds)
    (hbinds : ∀ c ∈ binds, c.num ≠ noParam)
    (hlast : lastBound binds num = some (t.bind num a min max)) (hmsg : IsRequestFor f num msg)
    (hdata : hasDataBlock f.code = false) :
    (s.parse H msg).paramList = s.paramList ∧ (s.parse H msg).mem =
      memAfter t.updateFunc (t.bind num a min max).param f.code none s.mem a := by
  have hfresh : s.paramList.Fresh := htbl ▸ fresh_buildTable binds
  have hdecode : decode msg ≠ [] := by
    rw [show decode msg = _ from hmsg]
    exact List.cons_ne_nil _ _
  refine ⟨BgcpState.paramList_parse H msg hfresh, ?_⟩
  have hmem : (s.parse H msg).mem = _ :=
    congrArg World.mem (BgcpState.world_parse_of_decode H hdecode)
  obtain ⟨i, hfound, hslot⟩ := getParam_of_lastBound hbinds hlast
  have hproc : getParamDataProcessor (t.bind num a min max).param =
      some ⟨some t.updateFunc, some t.respFunc⟩ := by cases t <;> rfl
  have hbuiltin : t.updateFunc.isBuiltin = true ∧ t.respFunc.isBuiltin = true := by
    cases t <;> decide
  have hlinked : (t.bind num a min max).param.linkedData = some a := by cases t <;> rfl
  have hinput : inputOf f.code [] = none := by
    unfold inputOf
    rw [hdata]
    rfl
  rw [hmem, show decode msg = _ from hmsg, htbl]
  simp only [World.applyAll, List.foldl_cons, List.foldl_nil, World.apply, hfound, hslot, hinput]
  rw [World.process_of_builtin H hproc hbuiltin.1 hlinked]
  -- the answer leaves the memory alone
  cases isReadFunc f.code with
  | false => rfl
  | true => exact World.mem_answer hbuiltin.2

/-- The value that a request to step leaves. -/
theorem value_parse (H : Handlers) (htbl : s.paramList = buildTable binds)
    (hbinds : ∀ c ∈ binds, c.num ≠ noParam)
    (hlast : lastBound binds num = some (t.bind num a min max))
    (hlt : min < max) (hmax : max < 256 ^ t.size) (hmsg : IsRequestFor f num msg)
    (hwrite : isWriteFunc f.code = true) (hdata : hasDataBlock f.code = false)
    (hinc : BgcpState.toUnsigned t.size (incOf f.code) ≠ 0) :
    (s.parse H msg).paramList = s.paramList ∧ t.value a (s.parse H msg) =
      wrap min max ((t.value a s + BgcpState.toUnsigned t.size (incOf f.code)) % 256 ^ t.size) := by
  obtain ⟨hlist, hmem⟩ := mem_parse H htbl hbinds hlast hmsg hdata
  refine ⟨hlist, ?_⟩
  have hstore := @NumType.storeOf_step t num a min max (by omega) hmax _ hinc s.mem
  unfold NumType.value
  rw [hmem, memAfter_of_store hwrite hstore]
  -- the bytes stored read back as the value
  have hload := Mem.load_store s.mem a (Mem.leBytes t.size (wrap min max
    ((Mem.leValue (s.mem.load a t.size) + BgcpState.toUnsigned t.size (incOf f.code)) %
      256 ^ t.size)))
  rw [Mem.length_leBytes] at hload
  have hin := wrap_mem (Nat.le_of_lt hlt)
    ((Mem.leValue (s.mem.load a t.size) + BgcpState.toUnsigned t.size (incOf f.code)) %
      256 ^ t.size)
  rw [hload, Mem.leValue_leBytes, Nat.mod_eq_of_lt (by omega)]

/-! ## Cyclic steps -/

/-- The two requests, from the state `s`, step through the range in a cycle and undo each
    other. -/
structure CyclicSteps (value : BgcpState → Nat) (inc dec : BgcpState → BgcpState)
    (min max : Nat) (s : BgcpState) : Prop where
  up : value (inc s) = if value s = max then min else value s + 1
  down : value (dec s) = if value s = min then max else value s - 1
  down_up : value (dec (inc s)) = value s
  up_down : value (inc (dec s)) = value s

/-- Requests that step as `wrap` does are cyclic steps exactly for the values between the limits,
    and for all values if both limits or neither are limits of the type. -/
theorem cyclicSteps_iff {value : BgcpState → Nat} {inc dec : BgcpState → BgcpState} {M : Nat}
    (hlt : min < max) (hM : max < M) (hmin : min ≤ value s) (hmax : value s ≤ max)
    (hinc : value (inc s) = wrap min max ((value s + 1) % M))
    (hdec : value (dec s) = wrap min max ((value s + (M - 1)) % M))
    (hdecInc : value (dec (inc s)) = wrap min max ((value (inc s) + (M - 1)) % M))
    (hincDec : value (inc (dec s)) = wrap min max ((value (dec s) + 1) % M)) :
    CyclicSteps value inc dec min max s ↔
      (value s ≠ min ∧ value s ≠ max) ∨ (min = 0 ↔ max + 1 = M) := by
  have hup := wrap_mem (Nat.le_of_lt hlt) ((value s + 1) % M)
  have hdown := wrap_mem (Nat.le_of_lt hlt) ((value s + (M - 1)) % M)
  rw [← hinc] at hup
  rw [← hdec] at hdown
  rw [wrap_succ hlt hM hmin hmax] at hinc
  rw [wrap_pred hlt hM hmin hmax] at hdec
  rw [wrap_pred hlt hM hup.1 hup.2] at hdecInc
  rw [wrap_succ hlt hM hdown.1 hdown.2] at hincDec
  constructor
  · intro h
    have h₁ := h.up
    have h₂ := h.down
    have h₃ := h.down_up
    have h₄ := h.up_down
    grind
  · intro h
    constructor <;> grind

/-- A number bound with limits in the range of its type: increment and decrement are steps in a
    cycle from a value between the limits, and from a limit exactly if the limits are both or
    neither those of the type. -/
theorem increment_cyclic_iff (H : Handlers) {binds : List BindCall}
    (hbinds : ∀ c ∈ binds, c.num ≠ noParam) {s : BgcpState} (htbl : s.paramList = buildTable binds)
    {t : NumType} {num : UInt16} {a min max : Nat}
    (hlast : lastBound binds num = some (t.bind num a min max))
    (hlt : min < max) (hmax : max < 256 ^ t.size)
    (hlo : min ≤ t.value a s) (hhi : t.value a s ≤ max) {msgInc msgDec : List UInt8}
    (hinc : IsRequestFor .incRw num msgInc) (hdec : IsRequestFor .decRw num msgDec) :
    CyclicSteps (t.value a) (BgcpState.parse H msgInc) (BgcpState.parse H msgDec) min max s ↔
      (t.value a s ≠ min ∧ t.value a s ≠ max) ∨ (min = 0 ↔ max + 1 = 256 ^ t.size) := by
  have hone : BgcpState.toUnsigned t.size (incOf Func.incRw.code) = 1 := by cases t <;> decide
  have hminus : BgcpState.toUnsigned t.size (incOf Func.decRw.code) = 256 ^ t.size - 1 := by
    cases t <;> decide
  have hminus_ne : BgcpState.toUnsigned t.size (incOf Func.decRw.code) ≠ 0 := by cases t <;> decide
  -- what a request leaves, in every state with the table
  have hup (s : BgcpState) (htbl : s.paramList = buildTable binds) :=
    value_parse H htbl hbinds hlast hlt hmax hinc (by decide) (by decide) (by rw [hone]; decide)
  have hdown (s : BgcpState) (htbl : s.paramList = buildTable binds) :=
    value_parse H htbl hbinds hlast hlt hmax hdec (by decide) (by decide) hminus_ne
  simp only [hone] at hup
  simp only [hminus] at hdown
  exact cyclicSteps_iff hlt hmax hlo hhi (hup s htbl).2 (hdown s htbl).2
    (hdown _ ((hup s htbl).1.trans htbl)).2 (hup _ ((hdown s htbl).1.trans htbl)).2

/-- The state with a number of one byte at the address 0. -/
def oneNumber (num : UInt16) (min max v : UInt8) : BgcpState :=
  ⟨.zero, .zero, buildTable [.uint8T num (some 0) min max], fun _ => v⟩

/-- A value between limits that are not those of the type. -/
theorem increment_cyclic_iff_between :
    CyclicSteps (NumType.uint8T.value 0)
      (BgcpState.parse (fun _ _ m => (m, [])) (encode [.param .incRw 5 []]))
      (BgcpState.parse (fun _ _ m => (m, [])) (encode [.param .decRw 5 []])) 0 9
      (oneNumber 5 0 9 4) :=
  (@increment_cyclic_iff (fun _ _ m => (m, [])) [.uint8T 5 (some 0) 0 9] (by decide)
    (oneNumber 5 0 9 4) rfl .uint8T 5 0 0 9 (by decide) (by decide) (by decide) (by decide)
    (by decide) _ _ (by decide) (by decide)).mpr (Or.inl ⟨by decide, by decide⟩)

/-- A decrement at the lower limit zero stays there. -/
theorem increment_not_cyclic :
    ¬CyclicSteps (NumType.uint8T.value 0)
      (BgcpState.parse (fun _ _ m => (m, [])) (encode [.param .incRw 5 []]))
      (BgcpState.parse (fun _ _ m => (m, [])) (encode [.param .decRw 5 []])) 0 9
      (oneNumber 5 0 9 0) := by
  intro h
  exact absurd h.down (by decide +kernel)

end EspTesting.Bgcp
