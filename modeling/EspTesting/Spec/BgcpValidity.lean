import EspTesting.Spec.BgcpBind

/-!
# Valid values stay valid

A handler writes to the variable of its own parameter only (`load_process`), and what a
numeric or ranged handler stores there is valid again (`Param.Valid.process`). With distinct
variables the validity of the whole table is therefore an invariant of every perform step,
hence of every message and of every sequence of messages.
-/

namespace EspTesting.Bgcp

/-! ## What a valid value is -/

/-- The value at `a` is one the parameter was bound with: in the limits, if these are in
    order, or in the list of valid values. -/
def Param.ValidAt (param : Param) (m : Mem) (a : Nat) : Prop :=
  match param.dataType with
  | .type8B | .type16B => param.limits.min ≤ param.limits.max →
    param.limits.min ≤ Mem.leValue (m.load a param.size) ∧
      (Mem.leValue (m.load a param.size) : Int) ≤ param.limits.max
  | .type8BRange => m a ∈ param.validValues
  | _ => True

instance (param : Param) (m : Mem) : DecidablePred (param.ValidAt m) := fun a => by
  unfold Param.ValidAt
  cases param.dataType <;> infer_instance

/-- The value of the variable is valid. -/
def Param.Valid (param : Param) (m : Mem) : Prop := ∀ a ∈ param.linkedData, param.ValidAt m a

/-- The limits of a numeric parameter are values of its type. -/
def Param.Bounded (param : Param) : Prop :=
  param.dataType = .type8B ∨ param.dataType = .type16B →
    0 ≤ param.limits.min ∧ param.limits.max < 256 ^ param.size

/-- The parameters of a table are bound to distinct variables. -/
def ParamList.Distinct (tbl : ParamList) : Prop :=
  ∀ i j : Fin paramNumMax, i ≠ j → ∀ a ∈ (tbl.get i).linkedData, ∀ b ∈ (tbl.get j).linkedData,
    Mem.Apart a (tbl.get i).size b (tbl.get j).size

instance (tbl : ParamList) : Decidable tbl.Distinct := by
  unfold ParamList.Distinct; infer_instance

/-- The application's handlers leave the `n` bytes from `a` on alone. -/
def Handlers.Leave (H : Handlers) (a n : Nat) : Prop :=
  ∀ f input m, (H f input m).1.load a n = m.load a n

/-- The application's handlers leave the variables of all parameters alone that have
    built-in handlers. -/
def Handlers.LeaveTable (H : Handlers) (tbl : ParamList) : Prop :=
  ∀ (i : Fin paramNumMax) a, (tbl.get i).dataType ≠ .typeAction → (tbl.get i).linkedData = some a →
    H.Leave a (tbl.get i).size

theorem bounded_buildTable (calls : List BindCall) (i : Fin paramNumMax) :
    ((buildTable calls).get i).Bounded := by
  refine buildTable_induction Param.Bounded (fun _ => by decide) (fun c _ => ?_) i
  intro htype
  cases c with
  -- limits of one byte
  | uint8T n a min max =>
    have := max.toNat_lt
    exact ⟨Int.natCast_nonneg _, Int.ofNat_lt.mpr this⟩
  | uint16T n a min max =>
    have := max.toNat_lt
    exact ⟨Int.natCast_nonneg _, Int.ofNat_lt.mpr this⟩
  | _ => exact htype.elim (fun h => by cases h) (fun h => by cases h)

/-- The handlers of a parameter without handlers of its own are those of its type. -/
theorem getParamDataProcessor_of_type {param : Param} {t : DataType} (h : param.dataType = t)
    (ht : t ≠ .typeAction) : getParamDataProcessor param = getDescriptorsOfDataType t := by
  rw [getParamDataProcessor, h, if_neg ht]

/-- The response handlers of the component. -/
def RespFunc.isBuiltin : RespFunc → Bool
  | .custom _ => false
  | _ => true

/-! ## Other variables -/

namespace World

variable {H : Handlers} {param : Param} {input : Option (List UInt8)} {w : World} {b n : Nat}

theorem load_callHandler (hH : H.Leave b n) (f : HandlerPtr) :
    (w.callHandler H param input f).mem.load b n = w.mem.load b n :=
  hH f _ _

/-- The built-in response handlers leave memory alone. -/
theorem mem_answer {f : RespFunc} (hf : f.isBuiltin = true) :
    (w.answer H param input f).mem = w.mem := by
  cases f with
  | custom f => cases hf
  | sendStrDataType =>
    simp only [answer]
    split
    · rfl
    · rfl
  | _ => rfl

theorem load_answer (hH : H.Leave b n) (f : RespFunc) :
    (w.answer H param input f).mem.load b n = w.mem.load b n := by
  by_cases hf : f.isBuiltin = true
  · rw [mem_answer hf]
  · cases f with
    | custom f => exact load_callHandler hH f
    | _ => exact absurd rfl hf

/-- A fitting update handler leaves every block apart from its variable alone. -/
theorem load_update (hH : H.Leave b n) {f : UpdateFunc} (hfit : f.Fits param)
    (hapart : ∀ a, param.linkedData = some a → Mem.Apart a param.size b n) (inc : Int) :
    (w.update H param inc input f).mem.load b n = w.mem.load b n := by
  -- what the handler stores lies inside the variable
  have hstore (m : Mem) {a d : Nat} {bytes : List UInt8} (ha : param.linkedData = some a)
      (hlo : a ≤ d) (hhi : d + bytes.length ≤ a + param.size) :
      (m.store d bytes).load b n = m.load b n := by
    apply Mem.load_store_of_apart
    cases hapart a ha with
    | inl h => exact Or.inl (Nat.le_trans hhi h)
    | inr h => exact Or.inr (Nat.le_trans h hlo)
  by_cases hf : f.isBuiltin = true
  · cases ha : param.linkedData with
    | none => rw [update_of_none H hf ha]
    | some a =>
      rw [update_of_builtin H hf ha]
      cases hbytes : storeOf f param inc input w.mem a with
      | none => rfl
      | some bytes =>
        exact hstore w.mem ha (Nat.le_refl a)
          (Nat.add_le_add_left (length_storeOf hbytes hfit) a)
  · cases f with
    | custom f => exact load_callHandler hH f
    | updateStrDataType =>
      simp only [update, updateStr]
      split
      · rename_i hrange
        have hsize : BgcpState.toUnsigned 4 param.limits.max ≤ param.size := hfit
        cases ha : param.linkedData with
        | none => rfl
        | some a =>
          refine (hstore _ ha (Nat.le_add_right ..) ?_).trans (hstore _ ha (Nat.le_refl a) ?_)
          · rw [List.length_singleton]
            omega
          · omega
      · rfl
    | _ => exact absurd rfl hf

/-- Processing a parameter leaves every block apart from its variable alone. -/
theorem load_process (hH : H.Leave b n) (hfits : param.Fits)
    (hapart : ∀ a, param.linkedData = some a → Mem.Apart a param.size b n) (func : UInt8) :
    (w.process H param input func).mem.load b n = w.mem.load b n := by
  simp only [process]
  cases hproc : getParamDataProcessor param with
  | none => rfl
  | some funcs =>
    dsimp only
    -- neither the update handler nor the response handler writes there
    have hupdate : (BgcpState.callIf (isWriteFunc func) funcs.dataUpdateFunc
        (update H param (incOf func) input) w).mem.load b n = w.mem.load b n := by
      cases isWriteFunc func with
      | false => rfl
      | true =>
        cases hf : funcs.dataUpdateFunc with
        | none => rfl
        | some f => exact load_update hH (hfits funcs f hproc hf) hapart _
    rw [← hupdate]
    generalize BgcpState.callIf (isWriteFunc func) funcs.dataUpdateFunc
      (update H param (incOf func) input) w = w₁
    cases isReadFunc func with
    | false => rfl
    | true =>
      cases funcs.respFunc with
      | none => rfl
      | some f => exact load_answer hH f

end World

/-! ## The own variable -/

theorem wrap_mem {lo hi : Nat} (h : lo ≤ hi) (v : Nat) : lo ≤ wrap lo hi v ∧ wrap lo hi v ≤ hi := by
  simp only [wrap]
  split
  · omega
  · split <;> omega

theorem clamp_mem {lo hi : Nat} (h : lo ≤ hi) (v : Nat) :
    lo ≤ clamp lo hi v ∧ clamp lo hi v ≤ hi := by
  simp only [clamp]
  split
  · omega
  · split <;> omega

/-- A limit inside the range of the type is converted to itself. -/
theorem toUnsigned_of_mem {size : Nat} {v : Int} (hmin : 0 ≤ v) (hmax : v < 256 ^ size) :
    (BgcpState.toUnsigned size v : Int) = v := by
  have hpow : ((256 ^ size : Nat) : Int) = 256 ^ size := by simp only [Int.natCast_pow]; rfl
  rw [BgcpState.toUnsigned, hpow, Int.emod_eq_of_lt hmin hmax, Int.toNat_of_nonneg hmin]

/-- The value of a numeric variable after its handler ran is in the limits. -/
theorem numStore_mem {size : Nat} {d : NumDescription} {inc : Int}
    {input : Option (List UInt8)} {old bytes : List UInt8} (hmin : 0 ≤ d.min)
    (hle : d.min ≤ d.max) (hmax : d.max < 256 ^ size)
    (h : numStore size d inc input old = some bytes) :
    bytes.length = size ∧ d.min ≤ Mem.leValue bytes ∧ (Mem.leValue bytes : Int) ≤ d.max := by
  have hlo := toUnsigned_of_mem hmin (Int.lt_of_le_of_lt hle hmax)
  have hhi := toUnsigned_of_mem (Int.le_trans hmin hle) hmax
  have hfits : BgcpState.toUnsigned size d.max < 256 ^ size := by
    rw [← Int.ofNat_lt, hhi, Int.natCast_pow]
    exact hmax
  -- both branches store a value between the converted limits
  suffices ∃ v, bytes = Mem.leBytes size v ∧ BgcpState.toUnsigned size d.min ≤ v ∧
      v ≤ BgcpState.toUnsigned size d.max by
    obtain ⟨v, rfl, hv₁, hv₂⟩ := this
    rw [Mem.leValue_leBytes, Nat.mod_eq_of_lt (Nat.lt_of_le_of_lt hv₂ hfits)]
    exact ⟨Mem.length_leBytes .., by omega, by omega⟩
  have hbetween : BgcpState.toUnsigned size d.min ≤ BgcpState.toUnsigned size d.max := by omega
  simp only [numStore] at h
  split at h
  · exact ⟨_, (Option.some.inj h).symm, wrap_mem hbetween _⟩
  · split at h
    · cases h
    · split at h
      · exact ⟨_, (Option.some.inj h).symm, clamp_mem hbetween _⟩
      · cases h

/-- What is found in the list is in it. -/
theorem mem_of_seekValInRangeList {v : UInt8} {values : List UInt8} {idx : Nat}
    (h : BgcpState.seekValInRangeList v values = some idx) : v ∈ values ∧ idx < values.length := by
  obtain ⟨hidx, heq, _⟩ := List.findIdx?_eq_some_iff_getElem.mp h
  have hv : values[idx] = v := of_decide_eq_true heq
  exact ⟨hv ▸ List.getElem_mem hidx, hidx⟩

/-- The value of a ranged variable after its handler ran is in the list. -/
theorem rangeStore_mem {values : List UInt8} {inc : Int} {input : Option (List UInt8)}
    {old : UInt8} {bytes : List UInt8} (h : rangeStore values inc input old = some bytes) :
    ∃ v ∈ values, bytes = [v] := by
  -- the step stays in the list
  have hstep (hs : stepStore values inc old = some bytes) : ∃ v ∈ values, bytes = [v] := by
    simp only [stepStore] at hs
    split at hs
    · split at hs
      · cases hs
      · split at hs
        · rename_i idx _ hnext
          have hlt : (idx + inc).toNat < values.length := by omega
          refine ⟨_, ?_, (Option.some.inj hs).symm⟩
          rw [List.getD_eq_getElem?_getD, List.getElem?_eq_getElem hlt]
          exact List.getElem_mem hlt
        · cases hs
    · cases hs
  simp only [rangeStore] at h
  split at h
  · exact hstep h
  · split at h
    · obtain ⟨idx, hidx, rfl⟩ := Option.map_eq_some_iff.mp h
      exact ⟨_, (mem_of_seekValInRangeList hidx).1, rfl⟩
    · exact hstep h

/-- Validity depends on the bytes of the variable only. -/
theorem Param.Valid.of_load {param : Param} {m m' : Mem} (h : param.Valid m)
    (hload : ∀ a, param.linkedData = some a → m'.load a param.size = m.load a param.size) :
    param.Valid m' := by
  intro a ha
  have hvalid := h a ha
  unfold Param.ValidAt at hvalid ⊢
  cases htype : param.dataType with
  | type8B | type16B =>
    rw [htype] at hvalid
    dsimp only at hvalid ⊢
    rw [hload a ha]
    exact hvalid
  -- one byte
  | type8BRange =>
    rw [htype] at hvalid
    have hone := hload a ha
    rw [show param.size = 1 by rw [Param.size, htype], Mem.load_one, Mem.load_one] at hone
    dsimp only at hvalid ⊢
    rw [List.head_eq_of_cons_eq hone]
    exact hvalid
  | _ => trivial

/-- The built-in response handlers leave memory alone. -/
private theorem mem_callIf_answer {H : Handlers} {param : Param} {input : Option (List UInt8)}
    (need : Bool) {r : RespFunc} (hr : r.isBuiltin = true) (w : World) :
    (BgcpState.callIf need (some r) (World.answer H param input) w).mem = w.mem := by
  cases need with
  | false => rfl
  | true => exact World.mem_answer hr

/-- A request leaves a numeric parameter, of either width, within its limits. -/
theorem numValid_process {param : Param} {w : World} {a : Nat} (ha : param.linkedData = some a)
    (H : Handlers) (input : Option (List UInt8)) (func : UInt8) {f : UpdateFunc} {r : RespFunc}
    {size : Nat} (hsize : param.size = size)
    (hproc : getParamDataProcessor param = some ⟨some f, some r⟩) (hf : f.isBuiltin = true)
    (hr : r.isBuiltin = true)
    (hbounds : 0 ≤ param.limits.min ∧ param.limits.max < 256 ^ param.size)
    (hstore : ∀ m, storeOf f param (incOf func) input m a = numStore size param.limits
      (param.incVal (incOf func)) input (m.load a size))
    (hold : param.limits.min ≤ param.limits.max →
      param.limits.min ≤ Mem.leValue (w.mem.load a param.size) ∧
        (Mem.leValue (w.mem.load a param.size) : Int) ≤ param.limits.max)
    (hle : param.limits.min ≤ param.limits.max) :
    param.limits.min ≤ Mem.leValue ((w.process H param input func).mem.load a param.size) ∧
      (Mem.leValue ((w.process H param input func).mem.load a param.size) : Int) ≤
        param.limits.max := by
  rw [World.process_of_builtin H hproc hf ha, mem_callIf_answer _ hr]
  simp only [memAfter, hstore, hsize] at hold ⊢
  rw [hsize] at hbounds
  split
  · -- a write
    cases hbytes : numStore size param.limits (param.incVal (incOf func)) input
      (w.mem.load a size) with
    | none => exact hold hle
    | some bytes =>
      obtain ⟨hlen, hin⟩ := numStore_mem hbounds.1 hle hbounds.2 hbytes
      dsimp only
      rw [← hlen, Mem.load_store]
      exact hin
  · exact hold hle

/-- A request leaves a ranked parameter in its list. -/
theorem rangeValid_process {param : Param} {w : World} {a : Nat} (ha : param.linkedData = some a)
    (H : Handlers) (input : Option (List UInt8)) (func : UInt8)
    (htype : param.dataType = .type8BRange) (hold : w.mem a ∈ param.validValues) :
    (w.process H param input func).mem a ∈ param.validValues := by
  have hproc : getParamDataProcessor param = some ⟨some .updateRangeData, some .sendUint8T⟩ :=
    getParamDataProcessor_of_type htype (by decide)
  rw [World.process_of_builtin H hproc rfl ha, mem_callIf_answer _ rfl]
  simp only [memAfter, storeOf]
  split
  · cases hbytes : rangeStore param.validValues (param.incVal (incOf func)) input (w.mem a) with
    | none => exact hold
    | some bytes =>
      obtain ⟨v, hv, rfl⟩ := rangeStore_mem hbytes
      dsimp only
      have hload := w.mem.load_store a [v]
      rw [List.length_singleton, Mem.load_one] at hload
      rw [List.head_eq_of_cons_eq hload]
      exact hv
  · exact hold

/-- The update handler of a numeric or ranged parameter keeps its variable valid. -/
theorem Param.Valid.process {param : Param} {w : World} (h : param.Valid w.mem)
    (hbounded : param.Bounded) (H : Handlers) (input : Option (List UInt8)) (func : UInt8) :
    param.Valid (w.process H param input func).mem := by
  intro a ha
  have hvalid := h a ha
  unfold Param.ValidAt at hvalid ⊢
  cases htype : param.dataType with
  | type8B =>
    rw [htype] at hvalid
    exact numValid_process ha H input func (f := .updateUint8T) (by rw [Param.size, htype])
      (getParamDataProcessor_of_type htype (by decide)) rfl rfl (hbounded (Or.inl htype))
      (fun _ => rfl) hvalid
  | type16B =>
    rw [htype] at hvalid
    exact numValid_process ha H input func (f := .updateUint16T) (by rw [Param.size, htype])
      (getParamDataProcessor_of_type htype (by decide)) rfl rfl (hbounded (Or.inr htype))
      (fun _ => rfl) hvalid
  | type8BRange =>
    rw [htype] at hvalid
    exact rangeValid_process ha H input func htype hvalid
  | _ => trivial

/-! ## Messages -/

/-- Every value of the table is valid. -/
def ParamList.Valid (tbl : ParamList) (m : Mem) : Prop := ∀ i : Fin paramNumMax, (tbl.get i).Valid m

instance (tbl : ParamList) (m : Mem) : Decidable (tbl.Valid m) := by
  unfold ParamList.Valid Param.Valid; infer_instance

/-- `m'` agrees with `m` on the variables of the parameters without update function. -/
def ParamList.SameConst (tbl : ParamList) (m m' : Mem) : Prop :=
  ∀ (i : Fin paramNumMax) a, (tbl.get i).dataType = .typeConstBin →
    (tbl.get i).linkedData = some a →
    m'.load a (tbl.get i).size = m.load a (tbl.get i).size

/-- A parameter without update function leaves memory alone. -/
private theorem mem_process_const {H : Handlers} {param : Param}
    (htype : param.dataType = .typeConstBin) (input : Option (List UInt8)) (func : UInt8)
    (w : World) : (w.process H param input func).mem = w.mem := by
  have hproc : getParamDataProcessor param = some ⟨none, some .sendBinDataType⟩ :=
    getParamDataProcessor_of_type htype (by decide)
  simp only [World.process, hproc]
  cases isWriteFunc func with
  | false => exact mem_callIf_answer _ rfl w
  | true => exact mem_callIf_answer _ rfl w

section

variable {H : Handlers} {tbl : ParamList} (hfits : ∀ i : Fin paramNumMax, (tbl.get i).Fits)
  (hbounded : ∀ i : Fin paramNumMax, (tbl.get i).Bounded) (hdist : tbl.Distinct)
  (hleave : H.LeaveTable tbl)

/-- Processing one parameter leaves the variables of the others alone. -/
private theorem load_process_other {i j : Fin paramNumMax} (hij : i ≠ j) {a : Nat}
    (htype : (tbl.get i).dataType ≠ .typeAction) (ha : (tbl.get i).linkedData = some a)
    (hfits : ∀ i : Fin paramNumMax, (tbl.get i).Fits) (hdist : tbl.Distinct)
    (hleave : H.LeaveTable tbl) (input : Option (List UInt8)) (func : UInt8) (w : World) :
    (w.process H (tbl.get j) input func).mem.load a (tbl.get i).size =
      w.mem.load a (tbl.get i).size :=
  World.load_process (hleave i a htype ha) (hfits j)
    (fun b hb => hdist j i (Ne.symm hij) b hb a ha) func

include hfits hbounded hdist hleave

/-- Processing any parameter keeps every value of the table valid. -/
theorem ParamList.Valid.process {w : World} (h : tbl.Valid w.mem) (j : Fin paramNumMax)
    (input : Option (List UInt8)) (func : UInt8) :
    tbl.Valid (w.process H (tbl.get j) input func).mem := by
  intro i
  by_cases hij : i = j
  · subst hij
    exact (h i).process (hbounded i) H input func
  · by_cases htype : (tbl.get i).dataType = .typeAction
    · intro a _
      simp only [Param.ValidAt, htype]
    · exact (h i).of_load fun a ha =>
        load_process_other hij htype ha hfits hdist hleave input func w

omit hbounded in
/-- Processing any parameter leaves the constants of the table alone. -/
theorem sameConst_process (j : Fin paramNumMax) (input : Option (List UInt8)) (func : UInt8)
    (w : World) : tbl.SameConst w.mem (w.process H (tbl.get j) input func).mem := by
  intro i a htype ha
  by_cases hij : i = j
  · subst hij
    rw [mem_process_const htype]
  · exact load_process_other hij (by rw [htype]; decide) ha hfits hdist hleave input func w

/-- What one perform step preserves. -/
theorem valid_apply {w : World} (h : tbl.Valid w.mem) (ev : PerformEvent) :
    tbl.Valid (w.apply H tbl ev).mem ∧ tbl.SameConst w.mem (w.apply H tbl ev).mem := by
  simp only [World.apply]
  cases getParam tbl ev.paramNum with
  | none =>
    dsimp only
    split
    · exact ⟨h, fun _ _ _ _ => rfl⟩
    · exact ⟨h, fun _ _ _ _ => rfl⟩
  | some j =>
    cases ev.block with
    | refused => exact ⟨h, fun _ _ _ _ => rfl⟩
    | notSupported => exact ⟨h, fun _ _ _ _ => rfl⟩
    | data bytes =>
      exact ⟨h.process hfits hbounded hdist hleave j _ _,
        sameConst_process hfits hdist hleave j _ _ w⟩

/-- What the perform steps of a message preserve. -/
theorem valid_applyAll (evs : List PerformEvent) {w : World} (h : tbl.Valid w.mem) :
    tbl.Valid (w.applyAll H tbl evs).mem ∧ tbl.SameConst w.mem (w.applyAll H tbl evs).mem := by
  induction evs generalizing w with
  | nil => exact ⟨h, fun _ _ _ _ => rfl⟩
  | cons ev evs ih =>
    obtain ⟨hvalid, hconst⟩ := valid_apply hfits hbounded hdist hleave h ev
    obtain ⟨hvalid', hconst'⟩ := ih hvalid
    exact ⟨hvalid', fun i a ht ha => (hconst' i a ht ha).trans (hconst i a ht ha)⟩

end

namespace BgcpState

/-- The state after a sequence of messages. -/
def parseAll (H : Handlers) (msgs : List (List UInt8)) (s : BgcpState) : BgcpState :=
  msgs.foldl (fun s msg => s.parse H msg) s

/-- Under any sequence of messages, a table of distinct variables keeps its valid values
    valid and its constants unchanged. -/
theorem valid_parseAll (H : Handlers) {binds : List BindCall} {s : BgcpState}
    (htbl : s.paramList = buildTable binds) (hdist : (buildTable binds).Distinct)
    (hleave : H.LeaveTable (buildTable binds)) (hvalid : (buildTable binds).Valid s.mem)
    (msgs : List (List UInt8)) :
    (buildTable binds).Valid (s.parseAll H msgs).mem ∧
      (buildTable binds).SameConst s.mem (s.parseAll H msgs).mem := by
  induction msgs generalizing s with
  | nil => exact ⟨hvalid, fun _ _ _ _ => rfl⟩
  | cons msg msgs ih =>
    -- one message: the invariant, and the constants against the state before it
    have hlist := paramList_parse H msg (by rw [htbl]; exact fresh_buildTable binds)
    have hworld := world_parse H msg s
    rw [htbl] at hlist hworld
    have hmsg : (buildTable binds).Valid (s.parse H msg).mem ∧
        (buildTable binds).SameConst s.mem (s.parse H msg).mem := by
      show (buildTable binds).Valid (s.parse H msg).world.mem ∧
        (buildTable binds).SameConst s.mem (s.parse H msg).world.mem
      rw [hworld]
      split
      · have hstart : (buildTable binds).Valid
            (World.mk s.mem s.rq.resetReqQueue).mem := hvalid
        exact valid_applyAll (fits_buildTable binds) (bounded_buildTable binds) hdist hleave
          (decode msg) hstart
      · exact ⟨hvalid, fun _ _ _ _ => rfl⟩
    obtain ⟨hvalid', hconst'⟩ := ih hlist hmsg.1
    exact ⟨hvalid', fun i a ht ha => (hconst' i a ht ha).trans (hmsg.2 i a ht ha)⟩

theorem valid_parseAll_mixed :
    let binds : List BindCall := [.uint8T 1 (some 0) 2 9, .uint16T 0x0102 (some 2) 10 300,
      .ranked 3 (some 4) [1, 4, 9], .const 4 (some 5) 2]
    let s : BgcpState := ⟨.zero, .zero, buildTable binds, fun a => if a = 3 then 1 else 4⟩
    let msgs : List (List UInt8) :=
      [[bgcpFuncDecRw, 1, 1, 1, 3], [7], [bgcpFuncW, bgcpCmdPage, 1, bgcpCmdSize, 2, 2, 0xFF]]
    (buildTable binds).Valid (s.parseAll (fun _ _ m => (m, [])) msgs).mem ∧
      (buildTable binds).SameConst s.mem (s.parseAll (fun _ _ m => (m, [])) msgs).mem :=
  valid_parseAll _ rfl (by decide +kernel) (fun _ _ _ _ _ _ _ => rfl) (by decide +kernel) _

end BgcpState

end EspTesting.Bgcp
