import EspTesting.Spec.BgcpHandlers

/-!
# The effect of one parameter

`process` is what `data_processing` does to the linked variables and the response queue,
as a function of the parameter, the function in force and the input block, without the
parser. `dataProcessing_spec` ties it to the code, and says with `Frame` what the handlers
leave alone and which accesses they log.
-/

namespace EspTesting.Bgcp

/-- What a message acts on: the memory of the linked variables and the response queue. -/
structure World where
  mem : Mem
  rq : BGCPQueue

/-- The increment that goes with a function. -/
def incOf (func : UInt8) : Int :=
  if func = bgcpFuncDecRw then -1 else if func = bgcpFuncIncRw then 1 else 0

namespace World

variable (H : Handlers) (param : Param) (inc : Int) (input : Option (List UInt8))

/-- Push the blocks of an application's handler as responses for `num`. -/
def respond (num : UInt16) (blocks : List (List UInt8)) (w : World) : World :=
  { w with
    rq := blocks.foldl (fun rq block =>
      rq.queuePushParamData bgcpFuncResp num (some block) block.length.toUInt8) w.rq }

/-- Call an application's handler. -/
def callHandler (f : HandlerPtr) (w : World) : World :=
  let (mem, blocks) := H f ⟨param.paramNum, param.linkedData, input⟩ w.mem
  respond param.paramNum blocks { w with mem }

/-- `update_str_data_type` -/
def updateStr (w : World) : World :=
  let len := (input.getD []).length
  if len < BgcpState.toUnsigned 4 param.limits.max ∧
      len ≥ BgcpState.toUnsigned 4 param.limits.min then
    match param.linkedData with
    | none => w
    | some a => { w with mem := (w.mem.store a (input.getD [])).store (a + len) [0] }
  else w

/-- The effect of an update handler. -/
def update (f : UpdateFunc) (w : World) : World :=
  match f with
  | .custom f => w.callHandler H param input f
  | .updateStrDataType => w.updateStr param input
  | f => match param.linkedData with
    | none => w
    | some dest => match storeOf f param inc input w.mem dest with
      | none => w
      | some bytes => { w with mem := w.mem.store dest bytes }

/-- Answer with the first `size` bytes of the linked variable. -/
def send (size : Nat) (w : World) : World :=
  { w with
    rq := w.rq.queuePushParamData bgcpFuncResp param.paramNum
      (param.linkedData.map fun a => w.mem.load a (size % 256)) size.toUInt8 }

/-- The effect of a response handler. -/
def answer (f : RespFunc) (w : World) : World :=
  match f with
  | .sendUint8T | .sendBoolDataType => w.send param 1
  | .sendUint16T => w.send param 2
  | .sendBinDataType => w.send param (BgcpState.toUnsigned 4 param.limits.max)
  | .sendStrDataType => match param.linkedData with
    | none => w
    | some a => w.send param (BgcpState.strlen w.mem (2 ^ 32) a)
  | .custom f => w.callHandler H param input f

/-- The effect of `data_processing` under the function `func`. -/
def process (func : UInt8) (w : World) : World :=
  match getParamDataProcessor param with
  | none => w
  | some funcs =>
    let w := BgcpState.callIf (isWriteFunc func) funcs.dataUpdateFunc
      (update H param (incOf func) input) w
    BgcpState.callIf (isReadFunc func) funcs.respFunc (answer H param input) w

end World

/-- The block a built-in handler may write to: the variable as its parameter was bound. -/
def Param.size (param : Param) : Nat :=
  match param.dataType with
  | .type8B | .type1B | .type8BRange => 1
  | .type16B => 2
  | .typeBin | .typeConstBin => param.limits.max.toNat
  | .typeStr => BgcpState.toUnsigned 4 param.limits.max
  | .typeAction | .typeUnknown => 0

/-- A logged write stays inside the variable of `param`. -/
def Param.Covers (param : Param) (w : WriteEvent) : Prop :=
  w.paramNum = param.paramNum ∧ ∃ a, param.linkedData = some a ∧ a ≤ w.dest ∧
    w.dest + w.len ≤ a + param.size

/-- The handler belongs to a type at least as wide as what it stores. -/
def UpdateFunc.Fits (f : UpdateFunc) (param : Param) : Prop :=
  match f with
  | .updateUint8T | .updateBoolDataType | .updateRangeData => 1 ≤ param.size
  | .updateUint16T => 2 ≤ param.size
  | .updateBinDataType => param.limits.max.toNat ≤ param.size
  | .updateStrDataType => BgcpState.toUnsigned 4 param.limits.max ≤ param.size
  | .custom _ => True

/-- The update handler of the parameter fits its variable. -/
def Param.Fits (param : Param) : Prop :=
  ∀ funcs f, getParamDataProcessor param = some funcs → funcs.dataUpdateFunc = some f →
    f.Fits param

/-- The update of a number stores the bytes of its type. -/
theorem length_numStore {size : Nat} {d : NumDescription} {inc : Int}
    {input : Option (List UInt8)} {old bytes : List UInt8}
    (h : numStore size d inc input old = some bytes) : bytes.length = size := by
  simp only [numStore] at h
  split at h
  · rw [← Option.some.inj h, Mem.length_leBytes]
  · split at h
    · cases h
    · split at h
      · rw [← Option.some.inj h, Mem.length_leBytes]
      · cases h

/-- The update of a bool stores one byte. -/
theorem length_boolStore {input : Option (List UInt8)} {old : UInt8} {bytes : List UInt8}
    (h : boolStore input old = some bytes) : bytes.length = 1 := by
  simp only [boolStore] at h
  split at h
  · cases h
  · split at h
    · split at h
      · exact Option.some.inj h ▸ rfl
      · split at h
        · exact Option.some.inj h ▸ rfl
        · split at h
          · exact Option.some.inj h ▸ rfl
          · cases h
    · cases h

/-- A step in the list stores one byte. -/
theorem length_stepStore {values : List UInt8} {inc : Int} {old : UInt8} {bytes : List UInt8}
    (h : stepStore values inc old = some bytes) : bytes.length = 1 := by
  simp only [stepStore] at h
  split at h
  · split at h
    · cases h
    · split at h
      · exact Option.some.inj h ▸ rfl
      · cases h
  · cases h

/-- The update of a value out of a list stores one byte. -/
theorem length_rangeStore {values : List UInt8} {inc : Int} {input : Option (List UInt8)}
    {old : UInt8} {bytes : List UInt8} (h : rangeStore values inc input old = some bytes) :
    bytes.length = 1 := by
  simp only [rangeStore] at h
  split at h
  · exact length_stepStore h
  · split at h
    · obtain ⟨_, _, rfl⟩ := Option.map_eq_some_iff.mp h
      rfl
    · exact length_stepStore h

/-- The update of binary data stores as many bytes as the limit says. -/
theorem length_binStore {d : NumDescription} {input : Option (List UInt8)} {bytes : List UInt8}
    (h : binStore d input = some bytes) : bytes.length = d.max.toNat := by
  simp only [binStore] at h
  split at h
  · cases h
  · split at h
    · rename_i hlen
      rw [← Option.some.inj h]
      omega
    · cases h

/-- What a fitting handler stores fits the variable. -/
theorem length_storeOf {f : UpdateFunc} {param : Param} {inc : Int}
    {input : Option (List UInt8)} {m : Mem} {dest : Nat} {bytes : List UInt8}
    (h : storeOf f param inc input m dest = some bytes) (hfit : f.Fits param) :
    bytes.length ≤ param.size := by
  cases f with
  | updateUint8T | updateUint16T => exact Nat.le_trans (Nat.le_of_eq (length_numStore h)) hfit
  | updateBoolDataType => exact Nat.le_trans (Nat.le_of_eq (length_boolStore h)) hfit
  | updateRangeData => exact Nat.le_trans (Nat.le_of_eq (length_rangeStore h)) hfit
  | updateBinDataType => exact Nat.le_trans (Nat.le_of_eq (length_binStore h)) hfit
  | updateStrDataType | custom f => cases h

/-! ## Built-in pairs of handlers -/

/-- The memory after a built-in update handler ran, under the function `func`, for the
    variable at `a`. -/
def memAfter (f : UpdateFunc) (param : Param) (func : UInt8) (input : Option (List UInt8))
    (m : Mem) (a : Nat) : Mem :=
  if isWriteFunc func then
    match storeOf f param (incOf func) input m a with
    | none => m
    | some bytes => m.store a bytes
  else m

/-- A command that writes leaves what its update stores. -/
theorem memAfter_of_store {f : UpdateFunc} {param : Param} {func : UInt8}
    {input : Option (List UInt8)} {m : Mem} {a : Nat} {bytes : List UInt8}
    (hfunc : isWriteFunc func = true)
    (hstore : storeOf f param (incOf func) input m a = some bytes) :
    memAfter f param func input m a = m.store a bytes := by
  simp only [memAfter, hfunc, if_true, hstore]

/-- A built-in update handler stores the bytes of `storeOf` in the linked variable. -/
theorem World.update_of_builtin (H : Handlers) {param : Param} {f : UpdateFunc}
    (hf : f.isBuiltin = true) {a : Nat} (ha : param.linkedData = some a) (inc : Int)
    (input : Option (List UInt8)) (w : World) :
    w.update H param inc input f = (storeOf f param inc input w.mem a).elim w
      fun bytes => { w with mem := w.mem.store a bytes } := by
  cases f with
  | updateStrDataType => cases hf
  | custom f => cases hf
  | _ =>
    simp only [update, ha]
    cases storeOf _ param inc input w.mem a with
    | none => rfl
    | some bytes => rfl

/-- Without a linked variable it stores nothing. -/
theorem World.update_of_none (H : Handlers) {param : Param} {f : UpdateFunc}
    (hf : f.isBuiltin = true) (ha : param.linkedData = none) (inc : Int)
    (input : Option (List UInt8)) (w : World) : w.update H param inc input f = w := by
  cases f with
  | updateStrDataType => cases hf
  | custom f => cases hf
  | _ => simp only [update, ha]

/-- With a built-in update handler, `data_processing` stores and then answers. -/
theorem World.process_of_builtin (H : Handlers) {param : Param} {f : UpdateFunc}
    {r : Option RespFunc} (hproc : getParamDataProcessor param = some ⟨some f, r⟩)
    (hf : f.isBuiltin = true) {a : Nat} (ha : param.linkedData = some a)
    (input : Option (List UInt8)) (func : UInt8) (w : World) :
    w.process H param input func = BgcpState.callIf (isReadFunc func) r (answer H param input)
      ⟨memAfter f param func input w.mem a, w.rq⟩ := by
  simp only [process, hproc, memAfter]
  cases isWriteFunc func with
  | false => rfl
  | true =>
    simp only [BgcpState.callIf, update_of_builtin H hf ha, if_true]
    cases storeOf f param (incOf func) input w.mem a with
    | none => rfl
    | some bytes => rfl

namespace BgcpState

/-- The part of the state a message acts on. -/
def world (s : BgcpState) : World := ⟨s.mem, s.rq⟩

variable {H : Handlers} {msg : List UInt8} {s s' s'' : BgcpState} {param : Param}

/-! ## What the handlers leave alone -/

/-- `s'` differs from `s` in memory, response queue and log only; the new reads lie in the
    input block and the new writes satisfy `W`. -/
structure Frame (W : WriteEvent → Prop) (s s' : BgcpState) : Prop where
  paramList : s'.paramList = s.paramList
  parser : ∃ reads writes, s'.parser = { s.parser with
      log := ⟨s.parser.log.performs, s.parser.log.reads ++ reads,
        s.parser.log.writes ++ writes⟩ } ∧
    (∀ r ∈ reads, ∃ v, s.parser.inVal = some v ∧ r < v + s.parser.inDataSize) ∧
    ∀ w ∈ writes, W w

namespace Frame

variable {W W' : WriteEvent → Prop}

/-- Nothing is done. -/
theorem refl (s : BgcpState) : Frame W s s where
  paramList := rfl
  parser := ⟨[], [], by simp only [List.append_nil],
    fun _ h => absurd h List.not_mem_nil, fun _ h => absurd h List.not_mem_nil⟩

/-- Only memory and response queue differ. -/
theorem of_world (hlist : s'.paramList = s.paramList) (hparser : s'.parser = s.parser) :
    Frame W s s' where
  paramList := hlist
  parser := ⟨[], [], by simp only [List.append_nil, hparser],
    fun _ h => absurd h List.not_mem_nil, fun _ h => absurd h List.not_mem_nil⟩

/-- Two stages one behind the other. -/
theorem trans (h : Frame W s s') (h' : Frame W s' s'') : Frame W s s'' where
  paramList := h'.paramList.trans h.paramList
  parser := by
    obtain ⟨reads, writes, hp, hr, hw⟩ := h.parser
    obtain ⟨reads', writes', hp', hr', hw'⟩ := h'.parser
    refine ⟨reads ++ reads', writes ++ writes', ?_, ?_, ?_⟩
    · -- the logs of both stages
      rw [hp', hp]
      simp only [List.append_assoc]
    · intro r hmem
      rcases List.mem_append.mp hmem with hmem | hmem
      · exact hr r hmem
      · have := hr' r hmem
        rwa [hp] at this
    · intro w hmem
      rcases List.mem_append.mp hmem with hmem | hmem
      · exact hw w hmem
      · exact hw' w hmem

/-- A frame may allow more writes. -/
theorem mono (h : Frame W s s') (hW : ∀ w, W w → W' w) : Frame W' s s' where
  paramList := h.paramList
  parser := by
    obtain ⟨reads, writes, hp, hr, hw⟩ := h.parser
    exact ⟨reads, writes, hp, hr, fun w hmem => hW w (hw w hmem)⟩

/-- The parameter in hand stays. -/
theorem curParam (h : Frame W s s') : s'.curParam = s.curParam := by
  obtain ⟨reads, writes, hp, _⟩ := h.parser
  simp only [BgcpState.curParam, hp, h.paramList]

/-- The data of the command stay. -/
theorem input (h : Frame W s s') (msg : List UInt8) :
    s'.parser.input msg = s.parser.input msg := by
  obtain ⟨reads, writes, hp, _⟩ := h.parser
  simp only [ParserData.input, hp]

/-- The data of the command stay inside the message. -/
theorem linked (h : Frame W s s') (hin : s.parser.Linked msg) : s'.parser.Linked msg := by
  obtain ⟨reads, writes, hp, _⟩ := h.parser
  rw [hp]
  exact ⟨hin.inside, hin.size_le⟩

/-- The step stays. -/
theorem incVal (h : Frame W s s') : s'.parser.incVal = s.parser.incVal := by
  obtain ⟨reads, writes, hp, _⟩ := h.parser
  rw [hp]

end Frame

/-- Copying the input block reads inside it and changes nothing. -/
theorem frame_copyInputData (W : WriteEvent → Prop) (msg : List UInt8) (s : BgcpState) :
    Frame W s (s.copyInputData msg).2 := by
  cases hv : s.parser.inVal with
  | none =>
    refine @Frame.of_world s (s.copyInputData msg).2 W rfl ?_
    simp only [copyInputData, ParserData.copyInputData, hv]
  | some v =>
    by_cases hz : s.parser.inDataSize = 0
    · refine @Frame.of_world s (s.copyInputData msg).2 W rfl ?_
      simp only [copyInputData, ParserData.copyInputData, hv, if_pos hz]
    · -- the bytes of the block are read
      refine ⟨rfl, List.range' v s.parser.inDataSize, [], ?_, ?_,
        fun _ h => absurd h List.not_mem_nil⟩
      · simp only [copyInputData, ParserData.copyInputData, hv, if_neg hz, List.append_nil]
      · intro r hr
        rw [List.mem_range'_1] at hr
        exact ⟨v, hv, hr.2⟩

/-- A store to a linked variable logs the block it writes. -/
theorem frame_storeLinked {W : WriteEvent → Prop} {dest : Nat} {bytes : List UInt8}
    (h : W ⟨s.getParamNum, dest, bytes.length⟩) : Frame W s (s.storeLinked dest bytes) where
  paramList := rfl
  parser := by
    refine ⟨[], [⟨s.getParamNum, dest, bytes.length⟩], ?_,
      fun _ h => absurd h List.not_mem_nil, ?_⟩
    · simp only [storeLinked, List.append_nil]
    · intro w hw
      rwa [List.mem_singleton.mp hw]

/-! ## Application handlers -/

/-- The blocks of an application's handler go to the queue one after the other. -/
private theorem foldl_writeResponse (s : BgcpState) (blocks : List (List UInt8)) :
    blocks.foldl (fun s block => s.writeResponse (some block) block.length.toUInt8) s =
      { s with rq := (World.respond s.getParamNum blocks s.world).rq } := by
  induction blocks generalizing s with
  | nil => rfl
  | cons block blocks ih =>
    rw [List.foldl_cons, ih]
    rfl

private theorem handlerInput_eq (h : s.curParam = some param) :
    s.handlerInput msg =
      (⟨param.paramNum, param.linkedData, s.parser.input msg⟩, (s.copyInputData msg).2) := by
  simp only [handlerInput, getParamNum_of_curParam h, getLinkedData_of_curParam h]
  rw [copyInputData_eq]

/-- A call of an application's handler. -/
theorem callHandler_spec (H : Handlers) (W : WriteEvent → Prop) (f : HandlerPtr)
    (h : s.curParam = some param) :
    (callHandler H msg f s).world = s.world.callHandler H param (s.parser.input msg) f ∧
      Frame W s (callHandler H msg f s) := by
  have hframe := frame_copyInputData W msg s
  have hnum : (s.copyInputData msg).2.getParamNum = param.paramNum :=
    getParamNum_of_curParam (hframe.curParam.trans h)
  simp only [callHandler, handlerInput_eq h, World.callHandler, foldl_writeResponse]
  constructor
  · have : ∀ mem : Mem, getParamNum { (s.copyInputData msg).2 with mem } = param.paramNum :=
      fun _ => hnum
    rw [this]
    rfl
  · exact hframe.trans (Frame.of_world rfl rfl)

/-! ## Built-in handlers -/

section

variable {store : Nat → Option (List UInt8)}

/-- What an update stores is what its specification says. -/
theorem Updates.world_eq (hup : Updates msg s s' store) (h : s.curParam = some param) :
    s'.world = match param.linkedData with
      | none => s.world
      | some dest => match store dest with
        | none => s.world
        | some bytes => { s.world with mem := s.mem.store dest bytes } := by
  obtain ⟨s₀, hs₀, rfl⟩ := hup
  -- copying the input changes neither memory nor queue
  have hworld : s₀.world = s.world := by
    rcases hs₀ with rfl | rfl
    · rfl
    · rfl
  rw [getLinkedData_of_curParam h]
  cases param.linkedData with
  | none => exact hworld
  | some dest =>
    dsimp only
    cases store dest with
    | none => exact hworld
    | some bytes =>
      show World.mk (s₀.world.mem.store dest bytes) s₀.world.rq = _
      rw [hworld]
      rfl

/-- An update writes nothing but what its specification stores. -/
theorem Updates.frame {W : WriteEvent → Prop} (hup : Updates msg s s' store)
    (h : s.curParam = some param)
    (hW : ∀ dest bytes, param.linkedData = some dest → store dest = some bytes →
      W ⟨param.paramNum, dest, bytes.length⟩) : Frame W s s' := by
  obtain ⟨s₀, hs₀, rfl⟩ := hup
  have hframe : Frame W s s₀ := by
    rcases hs₀ with rfl | rfl
    · exact Frame.refl s₀
    · exact frame_copyInputData W msg s
  rw [getLinkedData_of_curParam h]
  cases hlinked : param.linkedData with
  | none => exact hframe
  | some dest =>
    dsimp only
    cases hstore : store dest with
    | none => exact hframe
    | some bytes =>
      refine hframe.trans (frame_storeLinked ?_)
      rw [getParamNum_of_curParam (hframe.curParam.trans h)]
      exact hW dest bytes hlinked hstore

end

/-- The string handler. -/
private theorem updateStrDataType_spec (h : s.curParam = some param)
    (hin : s.parser.Linked msg) :
    (updateStrDataType msg s).world = s.world.updateStr param (s.parser.input msg) ∧
      Frame (fun w => UpdateFunc.updateStrDataType.Fits param → param.Covers w) s
        (updateStrDataType msg s) := by
  -- the size the handler asks for is that of the data
  have hsize : s.parser.getInputDataSize = ((s.parser.input msg).getD []).length := by
    cases hinput : s.parser.input msg with
    | none => exact hin.getInputDataSize_of_none hinput
    | some bytes => exact hin.getInputDataSize_of_some hinput
  simp only [updateStrDataType, World.updateStr, hsize, getMaxNumParamVal, getMinNumParamVal,
    getDescription_of_curParam h]
  split
  · rename_i hrange
    rw [getLinkedData_of_curParam h, copyInputData_eq]
    cases hlinked : param.linkedData with
    | none => exact ⟨rfl, Frame.refl s⟩
    | some a =>
      -- both stores end before `max`
      have hcovers (x : List UInt8) (d : Nat) (hx : d + x.length ≤ a +
          toUnsigned 4 param.limits.max) (hd : a ≤ d) :
          UpdateFunc.updateStrDataType.Fits param →
            param.Covers ⟨param.paramNum, d, x.length⟩ :=
        fun hfit => ⟨rfl, a, hlinked, hd, Nat.le_trans hx (Nat.add_le_add_left hfit a)⟩
      have hframe := frame_copyInputData
        (fun w => UpdateFunc.updateStrDataType.Fits param → param.Covers w) msg s
      have hnum := getParamNum_of_curParam (hframe.curParam.trans h)
      cases hinput : s.parser.input msg with
      | none =>
        rw [hinput] at hrange
        simp only [Option.getD_none, List.length_nil] at hrange
        refine ⟨?_, hframe.trans (frame_storeLinked ?_)⟩
        · simp only [Option.getD_none, Mem.store_nil]
          rfl
        · rw [hnum]
          refine hcovers [0] _ ?_ (Nat.le_add_right ..)
          simp only [Option.getD_none, List.length_nil, List.length_singleton]
          omega
      | some bytes =>
        rw [hinput] at hrange
        simp only [Option.getD_some] at hrange
        -- the text, and the 0 behind it
        refine ⟨rfl, hframe.trans ((frame_storeLinked ?_).trans (frame_storeLinked ?_))⟩
        · rw [hnum]
          exact hcovers bytes a (by omega) (Nat.le_refl a)
        · have hnum' : ((s.copyInputData msg).2.storeLinked a bytes).getParamNum =
              param.paramNum := hnum
          rw [hnum']
          refine hcovers [0] _ ?_ (Nat.le_add_right ..)
          simp only [Option.getD_some, List.length_singleton]
          omega
  · exact ⟨rfl, Frame.refl s⟩

/-- Every update handler has the effect `World.update`, and a fitting one writes inside the
    variable of its parameter only. -/
theorem callUpdateFunc_spec (H : Handlers) (f : UpdateFunc) (h : s.curParam = some param)
    (hin : s.parser.Linked msg) :
    (callUpdateFunc H msg f s).world =
        s.world.update H param s.parser.incVal (s.parser.input msg) f ∧
      Frame (fun w => f.Fits param → param.Covers w) s (callUpdateFunc H msg f s) := by
  by_cases hf : f.isBuiltin = true
  · have hup := callUpdateFunc_updates H hf h hin
    constructor
    · rw [hup.world_eq h]
      cases f with
      | updateStrDataType => cases hf
      | custom f => cases hf
      | _ => rfl
    · refine hup.frame h fun dest bytes hlinked hstore hfit => ⟨rfl, dest, hlinked,
        Nat.le_refl dest, Nat.add_le_add_left (length_storeOf hstore hfit) dest⟩
  · -- a text is stored twice, a handler of the application stores on its own
    cases f with
    | updateStrDataType => exact updateStrDataType_spec h hin
    | custom f => exact callHandler_spec H _ f h
    | _ => exact absurd rfl hf

/-- Every response handler has the effect `World.answer` and writes nothing. -/
theorem callRespFunc_spec (H : Handlers) (W : WriteEvent → Prop) (f : RespFunc)
    (h : s.curParam = some param) :
    (callRespFunc H msg f s).world = s.world.answer H param (s.parser.input msg) f ∧
      Frame W s (callRespFunc H msg f s) := by
  -- all built-in answers are the first bytes of the variable
  have hsend (size : Nat) : (s.sendLinked size).world = s.world.send param size ∧
      Frame W s (s.sendLinked size) := by
    refine ⟨?_, Frame.of_world rfl rfl⟩
    simp only [sendLinked, writeResponse, world, World.send, getParamNum_of_curParam h,
      getLinkedData_of_curParam h]
  cases f with
  | sendUint8T => exact hsend 1
  | sendUint16T => exact hsend 2
  | sendBoolDataType => exact hsend 1
  | sendBinDataType =>
    show (s.sendLinked (toUnsigned 4 s.getDescription.max)).world = _ ∧
      Frame W s (s.sendLinked (toUnsigned 4 s.getDescription.max))
    rw [getDescription_of_curParam h]
    exact hsend _
  | sendStrDataType =>
    simp only [callRespFunc, sendStrDataType, World.answer, getLinkedData_of_curParam h]
    cases param.linkedData with
    | none => exact ⟨rfl, Frame.refl s⟩
    | some a => exact hsend _
  | custom f => exact callHandler_spec H W f h

/-! ## One parameter -/

/-- `data_processing` has the effect `World.process`. -/
theorem dataProcessing_spec (H : Handlers) (h : s.curParam = some param)
    (hin : s.parser.Linked msg) (hinc : s.parser.incVal = incOf s.parser.funcNum) :
    (dataProcessing H msg (isWriteFunc s.parser.funcNum) (isReadFunc s.parser.funcNum) s).world =
        s.world.process H param (s.parser.input msg) s.parser.funcNum ∧
      Frame (fun w => param.Fits → param.Covers w) s
        (dataProcessing H msg (isWriteFunc s.parser.funcNum)
          (isReadFunc s.parser.funcNum) s) := by
  simp only [dataProcessing, World.process, h, Option.bind_some]
  cases hproc : getParamDataProcessor param with
  | none => exact ⟨rfl, Frame.refl s⟩
  | some funcs =>
    dsimp only
    -- the update first, then the answer from the state it leaves
    have hupdate : (callIf (isWriteFunc s.parser.funcNum) funcs.dataUpdateFunc
          (callUpdateFunc H msg) s).world =
        callIf (isWriteFunc s.parser.funcNum) funcs.dataUpdateFunc
          (World.update H param (incOf s.parser.funcNum) (s.parser.input msg)) s.world ∧
        Frame (fun w => param.Fits → param.Covers w) s
          (callIf (isWriteFunc s.parser.funcNum) funcs.dataUpdateFunc
            (callUpdateFunc H msg) s) := by
      cases isWriteFunc s.parser.funcNum with
      | false => exact ⟨rfl, Frame.refl s⟩
      | true =>
        cases hf : funcs.dataUpdateFunc with
        | none => exact ⟨rfl, Frame.refl s⟩
        | some f =>
          obtain ⟨hworld, hframe⟩ := callUpdateFunc_spec H f h hin
          rw [hinc] at hworld
          exact ⟨hworld, hframe.mono fun w hw hfits => hw (hfits funcs f hproc hf)⟩
    obtain ⟨hworld, hframe⟩ := hupdate
    rw [← hworld]
    generalize callIf (isWriteFunc s.parser.funcNum) funcs.dataUpdateFunc
      (callUpdateFunc H msg) s = s₁ at hframe ⊢
    cases isReadFunc s.parser.funcNum with
    | false => exact ⟨rfl, hframe⟩
    | true =>
      cases funcs.respFunc with
      | none => exact ⟨rfl, hframe⟩
      | some f =>
        obtain ⟨hanswer, hframe'⟩ := callRespFunc_spec H
          (fun w => param.Fits → param.Covers w) f (hframe.curParam.trans h)
        rw [hframe.input msg] at hanswer
        exact ⟨hanswer, hframe.trans hframe'⟩

end BgcpState

end EspTesting.Bgcp
