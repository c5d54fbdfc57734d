import EspTesting.Spec.BgcpQueueCorrect

/-!
# The handlers of the built-in types as functions of values

The update handlers read the current parameter and the input block through the parser
and store to the linked variable. `storeOf` says which bytes a handler stores, as a
function of the parameter's limits, the increment, the input block and the old value
alone, and `callUpdateFunc_updates` that every built-in handler but the string one does
just that.
-/

namespace EspTesting.Bgcp

/-! ## The input block -/

namespace ParserData

/-- The input block `copy_input_data` copies. -/
def input (msg : List UInt8) (p : ParserData) : Option (List UInt8) :=
  match p.inVal with
  | none => none
  | some v => if p.inDataSize = 0 then none else some ((msg.drop v).take p.inDataSize)

/-- The linked input block lies in the message and its size fits a byte. -/
structure Linked (msg : List UInt8) (p : ParserData) : Prop where
  inside : ∀ v, p.inVal = some v → v + p.inDataSize ≤ msg.length
  size_le : p.inDataSize ≤ 255

variable {msg : List UInt8} {p : ParserData}

/-- What `copy_input_data` gives the handler is the linked data of the message. -/
theorem copyInputData_eq (msg : List UInt8) (p : ParserData) :
    p.copyInputData msg = (p.input msg, (p.copyInputData msg).2) := by
  cases hv : p.inVal with
  | none => simp only [copyInputData, input, hv]
  | some v =>
    by_cases hz : p.inDataSize = 0
    · simp only [copyInputData, input, hv, hz, if_true]
    · simp only [copyInputData, input, hv, if_neg hz]

/-- Copying the input block only extends the log of reads. -/
theorem copyInputData_log (msg : List UInt8) (p : ParserData) :
    ∃ reads, (p.copyInputData msg).2 = { p with log := { p.log with reads } } := by
  simp only [copyInputData]
  split
  · exact ⟨p.log.reads, rfl⟩
  · split
    · exact ⟨p.log.reads, rfl⟩
    · exact ⟨_, rfl⟩

/-- The data of a message is as long as its block says, and not empty. -/
theorem Linked.length_input (h : p.Linked msg) {bytes : List UInt8}
    (hin : p.input msg = some bytes) : bytes.length = p.inDataSize ∧ bytes.length ≠ 0 := by
  simp only [input] at hin
  split at hin
  · cases hin
  · rename_i v hv
    split at hin
    · cases hin
    · rename_i hne
      have hin := Option.some.inj hin
      -- the block lies inside the message, so nothing is cut off
      have hlen : bytes.length = p.inDataSize := by
        have := h.inside v hv
        rw [← hin, List.length_take, List.length_drop]
        omega
      exact ⟨hlen, by omega⟩

/-- `get_input_data_size` is the length of the input block. -/
theorem Linked.getInputDataSize_of_some (h : p.Linked msg) {bytes : List UInt8}
    (hin : p.input msg = some bytes) : p.getInputDataSize = bytes.length := by
  have hlen := (h.length_input hin).1
  have hle := h.size_le
  cases hv : p.inVal with
  | none => simp only [input, hv] at hin; cases hin
  | some v => simp only [getInputDataSize, hv]; omega

/-- A command without data says that its size is 0. -/
theorem Linked.getInputDataSize_of_none (h : p.Linked msg) (hin : p.input msg = none) :
    p.getInputDataSize = 0 := by
  have hle := h.size_le
  cases hv : p.inVal with
  | none => simp only [getInputDataSize, hv]
  | some v =>
    simp only [input, hv] at hin
    split at hin
    · rename_i hz
      simp only [getInputDataSize, hv, hz]
    · cases hin

end ParserData

/-! ## What a handler stores -/

/-- The limits of a parameter. -/
def Param.limits (param : Param) : NumDescription :=
  match param.data with
  | .description d => d
  | _ => ⟨0, 0⟩

/-- The valid values of a ranged parameter. -/
def Param.validValues (param : Param) : List UInt8 :=
  match param.dataType, param.data with
  | .type8BRange, .validator v => v.validValuesList
  | _, _ => []

/-- The increment a handler of this parameter sees. -/
def Param.incVal (param : Param) (inc : Int) : Int :=
  if param.dataType = .typeAction then 0 else inc

/-- A value put between two limits, the upper one first. -/
def clamp (minVal maxVal v : Nat) : Nat :=
  if v > maxVal then maxVal else if v < minVal then minVal else v

/-- A stepped value put between two limits, wrapping to the other one. -/
def wrap (minVal maxVal v : Nat) : Nat :=
  if v > maxVal then minVal else if v < minVal then maxVal else v

/-- The bytes `SET_FUNC_NAME(type)` stores over `old`. -/
def numStore (size : Nat) (d : NumDescription) (inc : Int) (input : Option (List UInt8))
    (old : List UInt8) : Option (List UInt8) :=
  let maxVal := BgcpState.toUnsigned size d.max
  let minVal := BgcpState.toUnsigned size d.min
  let incVal := BgcpState.toUnsigned size inc
  if incVal ≠ 0 then
    some (Mem.leBytes size (wrap minVal maxVal ((Mem.leValue old + incVal) % 256 ^ size)))
  else match input with
    | none => none
    | some bytes =>
      if bytes.length = size then
        some (Mem.leBytes size (clamp minVal maxVal (Mem.leValue bytes)))
      else none

/-- The byte `update_bool_data_type` stores over `old`. -/
def boolStore (input : Option (List UInt8)) (old : UInt8) : Option (List UInt8) :=
  match input with
  | none => none
  | some bytes =>
    if bytes.length = 1 then
      if bytes.headD 0 = switch then some [if old = 0 then 1 else 0]
      else if bytes.headD 0 = off then some [0]
      else if bytes.headD 0 = on then some [1]
      else none
    else none

/-- The byte `update_range_data` stores over `old` when it steps through the list. -/
def stepStore (values : List UInt8) (inc : Int) (old : UInt8) : Option (List UInt8) :=
  if inc = 1 ∨ inc = -1 then
    match BgcpState.seekValInRangeList old values with
    | none => none
    | some idx =>
      let next : Int := idx + inc
      if next ≥ 0 ∧ next ≤ (values.length : Int) - 1 then some [values.getD next.toNat 0]
      else none
  else none

/-- The byte `update_range_data` stores over `old`. -/
def rangeStore (values : List UInt8) (inc : Int) (input : Option (List UInt8)) (old : UInt8) :
    Option (List UInt8) :=
  match input with
  | none => stepStore values inc old
  | some bytes =>
    if bytes.length = 1 then
      (BgcpState.seekValInRangeList (bytes.headD 0) values).map fun _ => [bytes.headD 0]
    else stepStore values inc old

/-- The bytes `update_bin_data_type` stores. -/
def binStore (d : NumDescription) (input : Option (List UInt8)) : Option (List UInt8) :=
  match input with
  | none => none
  | some bytes => if (bytes.length : Int) = d.max then some bytes else none

/-- The bytes a built-in update handler stores in the linked variable at `dest`. -/
def storeOf (f : UpdateFunc) (param : Param) (inc : Int) (input : Option (List UInt8))
    (m : Mem) (dest : Nat) : Option (List UInt8) :=
  match f with
  | .updateUint8T => numStore 1 param.limits (param.incVal inc) input (m.load dest 1)
  | .updateUint16T => numStore 2 param.limits (param.incVal inc) input (m.load dest 2)
  | .updateBoolDataType => boolStore input (m dest)
  | .updateRangeData => rangeStore param.validValues (param.incVal inc) input (m dest)
  | .updateBinDataType => binStore param.limits input
  | .updateStrDataType | .custom _ => none

/-- The handlers `storeOf` describes; the string handler stores twice. -/
def UpdateFunc.isBuiltin : UpdateFunc → Bool
  | .updateStrDataType | .custom _ => false
  | _ => true

namespace BgcpState

variable {msg : List UInt8} {s : BgcpState} {param : Param}

/-- What `copy_input_data` gives the handler, in a state of the processor. -/
theorem copyInputData_eq (msg : List UInt8) (s : BgcpState) :
    s.copyInputData msg = (s.parser.input msg, (s.copyInputData msg).2) := by
  simp only [copyInputData]
  rw [s.parser.copyInputData_eq msg]

/-- The variable of the parameter in hand. -/
theorem getLinkedData_of_curParam (h : s.curParam = some param) :
    s.getLinkedData = param.linkedData := by
  simp only [getLinkedData, h]

/-- The number of the parameter in hand. -/
theorem getParamNum_of_curParam (h : s.curParam = some param) :
    s.getParamNum = param.paramNum := by
  simp only [getParamNum, h]

/-- The step for the parameter in hand. -/
theorem getIncVal_of_curParam (h : s.curParam = some param) :
    s.getIncVal = param.incVal s.parser.incVal := by
  simp only [getIncVal, h, Param.incVal]

/-- The limits of the parameter in hand. -/
theorem getDescription_of_curParam (h : s.curParam = some param) :
    s.getDescription = param.limits := by
  obtain ⟨num, type, linked, time, data⟩ := param
  cases data <;> simp only [getDescription, h, Param.limits]

/-- The valid values of the parameter in hand. -/
theorem getValidValList_of_curParam (h : s.curParam = some param) :
    s.getValidValList = param.validValues := by
  obtain ⟨num, type, linked, time, data⟩ := param
  cases data <;> cases type <;> simp only [getValidValList, h, Param.validValues]

/-- `s'` is `s` after a handler that stored `store dest`, if anything, in the linked
    variable at `dest`; on the way it may have copied the input block. -/
def Updates (msg : List UInt8) (s s' : BgcpState) (store : Nat → Option (List UInt8)) : Prop :=
  ∃ s₀, (s₀ = s ∨ s₀ = (s.copyInputData msg).2) ∧
    s' = match s.getLinkedData with
      | none => s₀
      | some dest => match store dest with
        | none => s₀
        | some bytes => s₀.storeLinked dest bytes

/-- A handler that ran on a variable: the three ways it can end. -/
private theorem updates_of_linked {s' : BgcpState} {store : Nat → Option (List UInt8)} {dest : Nat}
    (hlinked : s.getLinkedData = some dest)
    (h : (store dest = none ∧ (s' = s ∨ s' = (s.copyInputData msg).2)) ∨
      ∃ bytes, store dest = some bytes ∧
        (s' = s.storeLinked dest bytes ∨
          s' = (s.copyInputData msg).2.storeLinked dest bytes)) :
    Updates msg s s' store := by
  rcases h with ⟨hs, rfl | rfl⟩ | ⟨bytes, hs, rfl | rfl⟩
  · exact ⟨_, Or.inl rfl, by simp only [hlinked, hs]⟩
  · exact ⟨_, Or.inr rfl, by simp only [hlinked, hs]⟩
  · exact ⟨_, Or.inl rfl, by simp only [hlinked, hs]⟩
  · exact ⟨_, Or.inr rfl, by simp only [hlinked, hs]⟩

/-- A handler that does nothing because nothing is linked. -/
private theorem updates_of_null {store : Nat → Option (List UInt8)}
    (hlinked : s.getLinkedData = none) : Updates msg s s store :=
  ⟨s, Or.inl rfl, by simp only [hlinked]⟩

/-- The update of a number stores what `numStore` says. -/
theorem updateNum_updates {size : Nat} (hsize : size ≠ 0) (h : s.curParam = some param)
    (hin : s.parser.Linked msg) :
    Updates msg s (updateNum size msg s) fun dest =>
      numStore size param.limits (param.incVal s.parser.incVal) (s.parser.input msg)
        (s.mem.load dest size) := by
  cases hlinked : s.getLinkedData with
  | none =>
    simp only [updateNum, hlinked]
    exact updates_of_null hlinked
  | some dest =>
    apply updates_of_linked hlinked
    simp only [updateNum, hlinked, getMaxNumParamVal, getMinNumParamVal,
      getDescription_of_curParam h, getIncVal_of_curParam h, numStore]
    -- with an increment the input is not looked at
    by_cases hinc : toUnsigned size (param.incVal s.parser.incVal) ≠ 0
    · simp only [if_pos hinc]
      exact Or.inr ⟨_, rfl, Or.inl rfl⟩
    · simp only [if_neg hinc]
      rw [copyInputData_eq]
      cases hinput : s.parser.input msg with
      | none =>
        rw [if_neg (by rw [hin.getInputDataSize_of_none hinput]; exact Ne.symm hsize)]
        exact Or.inl ⟨rfl, Or.inl rfl⟩
      | some bytes =>
        -- without one the input counts, if it has the size of the number
        rw [hin.getInputDataSize_of_some hinput]
        by_cases hlen : bytes.length = size
        · simp only [if_pos hlen]
          exact Or.inr ⟨_, rfl, Or.inr rfl⟩
        · simp only [if_neg hlen]
          exact Or.inl ⟨trivial, Or.inl trivial⟩

/-- The update of a bool stores what `boolStore` says. -/
theorem updateBoolDataType_updates (hin : s.parser.Linked msg) :
    Updates msg s (updateBoolDataType msg s) fun dest =>
      boolStore (s.parser.input msg) (s.mem dest) := by
  cases hlinked : s.getLinkedData with
  | none =>
    simp only [updateBoolDataType, hlinked]
    exact updates_of_null hlinked
  | some dest =>
    apply updates_of_linked hlinked
    simp only [updateBoolDataType, hlinked]
    rw [copyInputData_eq]
    cases hinput : s.parser.input msg with
    | none =>
      -- a bool is only set from one byte
      rw [if_neg (by rw [hin.getInputDataSize_of_none hinput]; decide)]
      exact Or.inl ⟨rfl, Or.inl rfl⟩
    | some bytes =>
      rw [hin.getInputDataSize_of_some hinput]
      simp only [boolStore]
      by_cases hlen : bytes.length = 1
      · rw [if_pos hlen, if_pos hlen]
        -- the three codes in the order the source tests them
        split
        · exact Or.inr ⟨_, rfl, Or.inr rfl⟩
        · split
          · exact Or.inr ⟨_, rfl, Or.inr rfl⟩
          · split
            · exact Or.inr ⟨_, rfl, Or.inr rfl⟩
            · exact Or.inl ⟨rfl, Or.inr rfl⟩
      · rw [if_neg hlen, if_neg hlen]
        exact Or.inl ⟨rfl, Or.inl rfl⟩

/-- Without a block of one byte `update_range_data` steps through the list. -/
private theorem updateRangeData_step (h : s.curParam = some param) {dest : Nat}
    (hlinked : s.getLinkedData = some dest) (hsize : s.parser.getInputDataSize ≠ 1) :
    updateRangeData msg s =
      match stepStore param.validValues (param.incVal s.parser.incVal) (s.mem dest) with
      | none => s
      | some bytes => s.storeLinked dest bytes := by
  simp only [updateRangeData, hlinked, if_neg hsize, getIncVal_of_curParam h,
    getValidValList_of_curParam h, stepStore]
  split
  · -- a step from a value that is not in the list goes nowhere
    cases seekValInRangeList (s.mem dest) param.validValues with
    | none => rfl
    | some idx =>
      dsimp only
      split
      · rfl
      · rfl
  · rfl

/-- The update of a value out of a list stores what `rangeStore` says. -/
theorem updateRangeData_updates (h : s.curParam = some param) (hin : s.parser.Linked msg) :
    Updates msg s (updateRangeData msg s) fun dest =>
      rangeStore param.validValues (param.incVal s.parser.incVal) (s.parser.input msg)
        (s.mem dest) := by
  cases hlinked : s.getLinkedData with
  | none =>
    simp only [updateRangeData, hlinked]
    exact updates_of_null hlinked
  | some dest =>
    apply updates_of_linked hlinked
    -- an input that is not one byte is as good as none: the step through the list remains
    have hstep (hsize : s.parser.getInputDataSize ≠ 1) (store : Option (List UInt8))
        (hstore : store =
          stepStore param.validValues (param.incVal s.parser.incVal) (s.mem dest)) :
        (store = none ∧ (updateRangeData msg s = s ∨
          updateRangeData msg s = (s.copyInputData msg).2)) ∨ ∃ bytes, store = some bytes ∧
          (updateRangeData msg s = s.storeLinked dest bytes ∨
            updateRangeData msg s = (s.copyInputData msg).2.storeLinked dest bytes) := by
      rw [updateRangeData_step h hlinked hsize, ← hstore]
      cases store with
      | none => exact Or.inl ⟨rfl, Or.inl rfl⟩
      | some bytes => exact Or.inr ⟨bytes, rfl, Or.inl rfl⟩
    cases hinput : s.parser.input msg with
    | none =>
      exact hstep (by rw [hin.getInputDataSize_of_none hinput]; decide) _ rfl
    | some bytes =>
      have hsize := hin.getInputDataSize_of_some hinput
      by_cases hlen : bytes.length = 1
      · -- one byte: it is stored if it is in the list
        simp only [updateRangeData, hlinked, getValidValList_of_curParam h, hsize, rangeStore,
          if_pos hlen]
        rw [copyInputData_eq, hinput]
        dsimp only
        cases seekValInRangeList (bytes.headD 0) param.validValues with
        | none => exact Or.inl ⟨rfl, Or.inr rfl⟩
        | some idx => exact Or.inr ⟨_, rfl, Or.inr rfl⟩
      · exact hstep (by rw [hsize]; exact hlen) _ (by simp only [rangeStore, if_neg hlen])

/-- The update of binary data stores what `binStore` says. -/
theorem updateBinDataType_updates (h : s.curParam = some param) (hin : s.parser.Linked msg) :
    Updates msg s (updateBinDataType msg s) fun _ =>
      binStore param.limits (s.parser.input msg) := by
  simp only [updateBinDataType, getMaxNumParamVal, getDescription_of_curParam h]
  rw [copyInputData_eq]
  cases hinput : s.parser.input msg with
  | none =>
    -- without input the limit may still be zero, and then nothing is copied
    cases hlinked : s.getLinkedData with
    | none =>
      split
      · exact ⟨_, Or.inr rfl, by simp only [hlinked]⟩
      · exact updates_of_null hlinked
    | some dest =>
      apply updates_of_linked hlinked
      split
      · exact Or.inl ⟨rfl, Or.inr rfl⟩
      · exact Or.inl ⟨rfl, Or.inl rfl⟩
  | some bytes =>
    rw [hin.getInputDataSize_of_some hinput]
    -- copying the input does not move the linked variable
    have hlinked' : (s.copyInputData msg).2.getLinkedData = s.getLinkedData := by
      obtain ⟨reads, hreads⟩ := s.parser.copyInputData_log msg
      simp only [getLinkedData, curParam, copyInputData, hreads]
    simp only [hlinked']
    cases hlinked : s.getLinkedData with
    | none =>
      split
      · exact ⟨_, Or.inr rfl, by simp only [hlinked]⟩
      · exact updates_of_null hlinked
    | some dest =>
      apply updates_of_linked hlinked
      simp only [binStore]
      split
      · exact Or.inr ⟨_, rfl, Or.inr rfl⟩
      · exact Or.inl ⟨rfl, Or.inl rfl⟩

/-- Every built-in update handler but the string one stores what `storeOf` says. -/
theorem callUpdateFunc_updates (H : Handlers) {f : UpdateFunc} (hf : f.isBuiltin = true)
    (h : s.curParam = some param) (hin : s.parser.Linked msg) :
    Updates msg s (callUpdateFunc H msg f s)
      (storeOf f param s.parser.incVal (s.parser.input msg) s.mem) := by
  cases f with
  | updateUint8T => exact updateNum_updates (by decide) h hin
  | updateUint16T => exact updateNum_updates (by decide) h hin
  | updateBoolDataType => exact updateBoolDataType_updates hin
  | updateBinDataType => exact updateBinDataType_updates h hin
  | updateRangeData => exact updateRangeData_updates h hin
  | updateStrDataType => cases hf
  | custom f => cases hf

end BgcpState

end EspTesting.Bgcp
