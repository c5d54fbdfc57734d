import EspTesting.Spec.BgcpEffect

/-!
# The parser as a decoder

`decode` reads a message into the list of perform steps, without table, memory or
handlers. `parse_tracks` says that `parse` makes exactly these steps, that its effect on
the linked variables and the response queue is theirs, one after the other, and which
accesses it logs; `performs_parse` and `world_parse` are its parts. Every later result about
`parse` is a result about `decode` and `World.apply`.
-/

namespace EspTesting.Bgcp

/-! ## The decoder -/

/-- The block size a function starts with. -/
def defaultSize (func : UInt8) : Nat := if hasDataBlock func then defaultDataBlockSize else 0

/-- The size of a block is below 256. -/
theorem defaultSize_le (func : UInt8) : defaultSize func ≤ 255 := by
  simp only [defaultSize]
  split <;> decide

/-- The running state of a decoder, the bytes it has still to read and the steps so far. -/
structure Decoder where
  func : UInt8
  page : UInt8
  size : Nat
  rest : List UInt8
  events : List PerformEvent

namespace Decoder

/-- The steps grow by one, and the block size falls back to its default. -/
def emit (d : Decoder) (lbyte : UInt8) (block : PerformBlock) (rest : List UInt8) : Decoder :=
  { d with
    size := defaultSize d.func
    rest
    events := d.events ++
      [⟨d.func, (d.page.toUInt16 <<< 8) ||| lbyte.toUInt16, block⟩] }

/-- Read one command. A missing argument reads as 0. -/
def step (d : Decoder) : Decoder :=
  match d.rest with
  | [] => d
  | b :: rest =>
    if b = bgcpCmdPage then { d with page := rest.headD 0, rest := rest.tail }
    else if b = bgcpCmdFunc then
      let func := if isValidFunc (rest.headD 0) then rest.headD 0 else noFunc
      { d with func, size := defaultSize func, rest := rest.tail }
    else if b = bgcpCmdSize then
      { d with
        size := if hasDataBlock d.func then (rest.headD 0).toNat else d.size
        rest := rest.tail }
    else if b = bgcpCmdNotSup then d.emit (rest.headD 0) .notSupported rest.tail
    else if d.func = noFunc ∨ rest.length < d.size then d.emit b .refused (rest.drop d.size)
    else d.emit b (.data (rest.take d.size)) (rest.drop d.size)

/-- There is something left to read. -/
def cond (d : Decoder) : Bool := !d.rest.isEmpty

/-- The number of bytes left. -/
def measure (d : Decoder) : Nat := d.rest.length

/-- The decoder behind the first function of a message. -/
def start (func : UInt8) (rest : List UInt8) : Decoder := ⟨func, 0, defaultSize func, rest, []⟩

/-- Every step consumes a byte. -/
theorem decreases : Loop.Decreases cond step measure := by
  intro d h
  cases hrest : d.rest with
  | nil => simp only [cond, hrest, List.isEmpty_nil, Bool.not_true, Bool.false_eq_true] at h
  | cons b rest =>
    simp only [step, hrest, measure]
    repeat' split
    all_goals
      simp only [emit, List.length_tail, List.length_drop, List.length_cons]
      omega

end Decoder

/-- The perform steps of a message. -/
def decode : List UInt8 → List PerformEvent
  | [] => []
  | func :: rest =>
    if isValidFunc func then
      (Loop.run Decoder.cond Decoder.step Decoder.measure (.start func rest)).events
    else []

/-- A block that a message carries has a size of one byte, and the low byte of its number is no
    command. -/
structure PerformEvent.InRange (ev : PerformEvent) : Prop where
  length_le : ∀ bytes, ev.block = .data bytes → bytes.length ≤ 255
  low_lt : ∀ bytes, ev.block = .data bytes → ev.paramNum.toUInt8 < bgcpCmdFunc

/-- The blocks read so far, and the next one, are in range. -/
structure Decoder.InRange (d : Decoder) : Prop where
  size_le : d.size ≤ 255
  events : ∀ ev ∈ d.events, ev.InRange

/-- An event that is emitted stays in range. -/
theorem Decoder.InRange.emit {d : Decoder} (h : d.InRange) {lbyte : UInt8}
    {block : PerformBlock} (hlen : ∀ bytes, block = .data bytes → bytes.length ≤ 255)
    (hlow : ∀ bytes, block = .data bytes → lbyte < bgcpCmdFunc) (rest : List UInt8) :
    (d.emit lbyte block rest).InRange where
  size_le := defaultSize_le d.func
  events := by
    intro ev hev
    rcases List.mem_append.mp hev with hpast | hnew
    · exact h.events ev hpast
    · rw [List.mem_singleton.mp hnew]
      refine ⟨hlen, fun bytes hblock => ?_⟩
      show ((d.page.toUInt16 <<< 8) ||| lbyte.toUInt16).toUInt8 < bgcpCmdFunc
      rw [UInt16.toUInt8_join_bytes]
      exact hlow bytes hblock

/-- A step stays in range. -/
theorem Decoder.InRange.step {d : Decoder} (h : d.InRange) : d.step.InRange := by
  unfold Decoder.step
  cases d.rest with
  | nil => exact h
  | cons b rest =>
    dsimp only
    split
    · exact ⟨h.size_le, h.events⟩
    · split
      · exact ⟨defaultSize_le _, h.events⟩
      · split
        · refine ⟨?_, h.events⟩
          dsimp only
          split
          · exact Nat.le_of_lt_succ (rest.headD 0).toNat_lt
          · exact h.size_le
        · split
          · exact h.emit (fun _ => PerformBlock.noConfusion) (fun _ => PerformBlock.noConfusion) _
          · split
            · exact h.emit (fun _ => PerformBlock.noConfusion) (fun _ => PerformBlock.noConfusion) _
            · rename_i hpage hfunc hsize hnotSup _
              refine h.emit (fun bytes hblock => ?_) (fun _ _ => ?_) _
              · rw [← PerformBlock.data.inj hblock]
                exact Nat.le_trans (List.length_take_le _ _) h.size_le
              · -- what is no command is below all of them
                have hne (n : Nat) (hn : n < 256) (h : b ≠ UInt8.ofNat n) : b.toNat ≠ n := by
                  intro heq
                  apply h
                  rw [← heq, UInt8.ofNat_toNat]
                have h₁ := hne 0xFF (by omega) hpage
                have h₂ := hne 0xFC (by omega) hfunc
                have h₃ := hne 0xFE (by omega) hsize
                have h₄ := hne 0xFD (by omega) hnotSup
                have hlt := b.toNat_lt
                rw [UInt8.lt_iff_toNat_lt]
                show b.toNat < 0xFC
                omega

/-- All events of a message are in range. -/
theorem inRange_of_mem_decode {msg : List UInt8} {ev : PerformEvent} (h : ev ∈ decode msg) :
    ev.InRange := by
  cases msg with
  | nil => exact absurd h List.not_mem_nil
  | cons func rest =>
    by_cases hvalid : isValidFunc func = true
    · rw [decode, if_pos hvalid] at h
      have hstart : (Decoder.start func rest).InRange :=
        ⟨defaultSize_le func, fun ev hev => absurd hev List.not_mem_nil⟩
      have hrun : (Loop.run Decoder.cond Decoder.step Decoder.measure
          (.start func rest)).InRange :=
        Loop.iterate_invariant (fun d _ hd => hd.step) _ hstart
      exact hrun.events ev h
    · rw [decode, if_neg hvalid] at h
      exact absurd h List.not_mem_nil

/-! ## The effect of a step -/

/-- The input block a handler sees. -/
def inputOf (func : UInt8) (bytes : List UInt8) : Option (List UInt8) :=
  if hasDataBlock func ∧ bytes ≠ [] then some bytes else none

/-- The effect of a perform step. -/
def World.apply (H : Handlers) (paramList : ParamList) (w : World) (ev : PerformEvent) :
    World :=
  match getParam paramList ev.paramNum with
  | none =>
    if isReadFunc ev.funcNum then { w with rq := w.rq.queuePushNoSupParam ev.paramNum } else w
  | some i => match ev.block with
    | .data bytes => w.process H (paramList.get i) (inputOf ev.funcNum bytes) ev.funcNum
    | .refused | .notSupported => w

/-- The effect of a list of perform steps. -/
def World.applyAll (H : Handlers) (paramList : ParamList) (w : World)
    (evs : List PerformEvent) : World :=
  evs.foldl (World.apply H paramList) w

/-- The tables differ at most in the times of the last updates. -/
def ParamList.SameButTimes (tbl tbl' : ParamList) : Prop :=
  ∀ i : Fin paramNumMax, ∃ t, tbl'.get i = { (tbl.get i) with timeUpdate := t }

/-- A number is found in the same slot of both. -/
theorem ParamList.SameButTimes.getParam_eq {tbl tbl' : ParamList} (h : tbl.SameButTimes tbl')
    (num : UInt16) : getParam tbl' num = getParam tbl num := by
  unfold getParam
  congr 1
  funext i
  obtain ⟨t, ht⟩ := h i
  rw [ht]

/-- No perform step looks at the times. -/
theorem ParamList.SameButTimes.apply_eq {tbl tbl' : ParamList} (h : tbl.SameButTimes tbl')
    (H : Handlers) (w : World) (ev : PerformEvent) : w.apply H tbl' ev = w.apply H tbl ev := by
  unfold World.apply
  rw [h.getParam_eq]
  cases getParam tbl ev.paramNum with
  | none => rfl
  | some i =>
    obtain ⟨t, ht⟩ := h i
    dsimp only
    rw [ht]
    rfl

/-- Every slot of the table was last updated at `GET_TIME()`. -/
def ParamList.Fresh (tbl : ParamList) : Prop :=
  ∀ i : Fin paramNumMax, (tbl.get i).timeUpdate = getTime

/-! ## Reading -/

namespace ParserData

variable {msg : List UInt8} {p : ParserData}

/-- `read_byte` reads the next byte, or 0 behind the end. -/
theorem readByte_fst (hend : p.dataInEnd = msg.length) :
    (p.readByte msg).1 = (msg.drop p.dataIn).headD 0 := by
  simp only [readByte]
  split
  · rw [List.drop_eq_nil_of_le (by omega)]
    rfl
  · rw [List.drop_eq_getElem_cons (by omega), List.headD_cons,
      List.getD_eq_getElem?_getD, List.getElem?_eq_getElem (by omega), Option.getD_some]

/-- `read_byte` moves the cursor to the rest of the message and reads inside it. -/
theorem readByte_snd (hend : p.dataInEnd = msg.length) :
    ∃ n reads, (p.readByte msg).2 = { p with
        dataIn := n, log := { p.log with reads := p.log.reads ++ reads } } ∧
      msg.drop n = (msg.drop p.dataIn).tail ∧
      (p.dataIn ≤ msg.length → n ≤ msg.length) ∧ ∀ r ∈ reads, r < msg.length := by
  simp only [readByte]
  split
  · -- at the end nothing is read
    refine ⟨p.dataIn, [], ?_, ?_, id, List.forall_mem_nil _⟩
    · simp only [List.append_nil]
    · rw [List.drop_eq_nil_of_le (by omega)]
      rfl
  · refine ⟨p.dataIn + 1, [p.dataIn], rfl, ?_, fun _ => by omega, ?_⟩
    · rw [List.tail_drop]
    · intro r hr
      rw [List.mem_singleton.mp hr]
      omega

/-- The increment `set_new_func` sets goes with the function it puts in force. -/
theorem incOf_validated (func : UInt8) :
    (if func = bgcpFuncDecRw then -1 else if func = bgcpFuncIncRw then 1 else 0) =
      incOf (if isValidFunc func then func else noFunc) := by
  by_cases hvalid : isValidFunc func = true
  · rw [if_pos hvalid]
    rfl
  · have hdec : func ≠ bgcpFuncDecRw := by rintro rfl; exact hvalid rfl
    have hinc : func ≠ bgcpFuncIncRw := by rintro rfl; exact hvalid rfl
    rw [if_neg hvalid, if_neg hdec, if_neg hinc]
    rfl

/-- Linking the data sets where they are and how many. -/
theorem linkData_eq (p : ParserData) :
    ∃ inVal, p.linkData = { p with inVal, inDataSize := p.setedDataSize } := by
  simp only [linkData]
  split
  · exact ⟨_, rfl⟩
  · exact ⟨_, rfl⟩

end ParserData

/-! ## One perform step -/

namespace BgcpState

variable {H : Handlers} {msg : List UInt8}

/-- The block of a perform step is what the message holds at the cursor. -/
structure BlockAt (msg : List UInt8) (p : ParserData) (performProcessing : Bool)
    (block : PerformBlock) : Prop where
  data : performProcessing = true → p.dataIn + p.setedDataSize ≤ msg.length ∧
    block = .data ((msg.drop p.dataIn).take p.setedDataSize)
  none : performProcessing = false → block = .refused ∨ block = .notSupported

/-- Linking the block of a parameter. -/
private theorem linkData_spec {p : ParserData} (hval : p.inVal = none)
    (hsize : p.setedDataSize ≤ 255) (hfit : p.dataIn + p.setedDataSize ≤ msg.length) :
    p.linkData.Linked msg ∧
      p.linkData.input msg = inputOf p.funcNum ((msg.drop p.dataIn).take p.setedDataSize) := by
  -- no data if the size is 0
  have hempty : (msg.drop p.dataIn).take p.setedDataSize = [] ↔ p.setedDataSize = 0 := by
    rw [← List.length_eq_zero_iff, List.length_take, List.length_drop]
    omega
  simp only [ParserData.linkData, inputOf, ne_eq, hempty]
  by_cases hdata : hasDataBlock p.funcNum = true
  · simp only [hdata, if_true, true_and]
    refine ⟨⟨?_, hsize⟩, ?_⟩
    · rintro v ⟨⟩
      exact hfit
    · simp only [ParserData.input, ite_not]
  · simp only [hdata, if_false, false_and, Bool.false_eq_true]
    refine ⟨⟨?_, hsize⟩, ?_⟩
    · simp only [hval, reduceCtorEq, false_implies, implies_true]
    · simp only [ParserData.input, hval]

/-- What a parameter command does: nothing, or what its handlers do with the block. -/
theorem performParam_spec (H : Handlers) {s : BgcpState} {paramNum : UInt16}
    {performProcessing : Bool} {block : PerformBlock} (hval : s.parser.inVal = none)
    (hinc : s.parser.incVal = incOf s.parser.funcNum) (hsize : s.parser.setedDataSize ≤ 255)
    (hblock : BlockAt msg s.parser performProcessing block) {s' : BgcpState}
    (hs' : s' = performParam H msg paramNum performProcessing block s) :
    s'.paramList = s.paramList ∧
    s'.world = s.world.apply H s.paramList ⟨s.parser.funcNum, paramNum, block⟩ ∧
    ∃ inVal inDataSize param reads writes, s'.parser = { s.parser with
        dataIn := s.parser.dataIn + s.parser.setedDataSize
        setedDataSize := defaultSize s.parser.funcNum
        inVal, inDataSize, param
        log := ⟨s.parser.log.performs ++ [⟨s.parser.funcNum, paramNum, block⟩],
          s.parser.log.reads ++ reads, s.parser.log.writes ++ writes⟩ } ∧
      (∀ r ∈ reads, r < msg.length) ∧
      ∀ w ∈ writes, ∃ i, getParam s.paramList paramNum = some i ∧
        ((s.paramList.get i).Fits → (s.paramList.get i).Covers w) := by
  subst hs'
  simp only [performParam, World.apply]
  cases hparam : getParam s.paramList paramNum with
  | none =>
    dsimp only
    refine ⟨?_, ?_, s.parser.inVal, s.parser.inDataSize, none, [], [], ?_,
      List.forall_mem_nil _, List.forall_mem_nil _⟩
    · split <;> rfl
    · split <;> rfl
    · split <;> simp only [List.append_nil] <;> rfl
  | some i =>
    cases performProcessing with
    | false =>
      refine ⟨rfl, ?_, s.parser.inVal, s.parser.inDataSize, some i, [], [], ?_,
        List.forall_mem_nil _, List.forall_mem_nil _⟩
      · rcases hblock.none rfl with rfl | rfl
        · rfl
        · rfl
      · simp only [List.append_nil]
        rfl
    | true =>
      obtain ⟨hfit, rfl⟩ := hblock.data rfl
      dsimp only
      -- the parser the handlers see: parameter and block linked, the step logged
      generalize hp : ({ s.parser with
        param := some i
        log := ⟨s.parser.log.performs ++ [⟨s.parser.funcNum, paramNum,
          .data ((msg.drop s.parser.dataIn).take s.parser.setedDataSize)⟩],
          s.parser.log.reads, s.parser.log.writes⟩ } : ParserData) = p
      have hlink := @linkData_spec msg p (by rw [← hp]; exact hval) (by rw [← hp]; exact hsize)
        (by rw [← hp]; exact hfit)
      obtain ⟨inVal, hlinkData⟩ := p.linkData_eq
      have hspec := @dataProcessing_spec msg { s with parser := p.linkData } (s.paramList.get i) H
        (by rw [hlinkData, ← hp]; rfl) hlink.1 (by rw [hlinkData, ← hp]; exact hinc)
      have hfunc : p.linkData.funcNum = s.parser.funcNum := by rw [hlinkData, ← hp]
      simp only [hfunc] at hspec
      obtain ⟨hworld, hlist, reads, writes, hparser, hreads, hwrites⟩ := hspec
      rw [if_pos rfl]
      refine ⟨hlist, ?_, inVal, s.parser.setedDataSize, some i, reads, writes, ?_, ?_, ?_⟩
      · refine hworld.trans ?_
        rw [hlink.2, ← hp]
        rfl
      · rw [hparser, hlinkData, ← hp]
        rfl
      · intro r hr
        obtain ⟨v, hv, hlt⟩ := hreads r hr
        exact Nat.lt_of_lt_of_le hlt (hlink.1.inside v hv)
      · exact fun w hw => ⟨i, rfl, hwrites w hw⟩

/-! ## One iteration of the parser loop -/

/-- `update_param_data_lifetime` touches neither the parser nor the world. -/
theorem parser_updateParamDataLifetime (curTime : UInt32) (s : BgcpState) :
    (s.updateParamDataLifetime curTime).parser = s.parser := by
  unfold updateParamDataLifetime
  split
  · rfl
  · split <;> rfl

/-- The time stamp does not touch memory and queue. -/
theorem world_updateParamDataLifetime (curTime : UInt32) (s : BgcpState) :
    (s.updateParamDataLifetime curTime).world = s.world := by
  unfold updateParamDataLifetime
  split
  · rfl
  · split <;> rfl

/-- `update_param_data_lifetime` changes times only. -/
theorem sameButTimes_updateParamDataLifetime {tbl : ParamList} {s : BgcpState}
    (h : tbl.SameButTimes s.paramList) (curTime : UInt32) :
    tbl.SameButTimes (s.updateParamDataLifetime curTime).paramList := by
  unfold updateParamDataLifetime
  split
  · exact h
  · rename_i j _
    split
    · intro i
      show ∃ t, (s.paramList.set j { (s.paramList.get j) with timeUpdate := curTime } j.isLt)[i] = _
      rw [Fin.getElem_fin, Vector.getElem_set]
      split
      · -- the slot that is stamped
        rename_i hij
        obtain rfl : j = i := Fin.ext hij
        obtain ⟨t, ht⟩ := h j
        exact ⟨curTime, by rw [ht]⟩
      · exact h i
    · exact h

/-- On a fresh table `update_param_data_lifetime` changes nothing. -/
theorem updateParamDataLifetime_of_fresh {s : BgcpState} (h : s.paramList.Fresh) :
    s.updateParamDataLifetime getTime = s := by
  simp only [updateParamDataLifetime]
  split
  · rfl
  · -- the time is the one that is there already
    rename_i i _
    split
    · have hi : { (s.paramList.get i) with timeUpdate := getTime } = (s.paramList.get i) := by
        rw [← h i]
      rw [hi]
      have hset : s.paramList.set i (s.paramList.get i) = s.paramList := Vector.set_getElem_self i.2
      rw [hset]
    · rfl

/-- The parser at a state of the decoder: the running state and the log agree, the effect so far
    is the effect of the steps, and the table has changed in its times at most. -/
structure Tracks (H : Handlers) (msg : List UInt8) (tbl : ParamList) (w₀ : World) (s : BgcpState)
    (d : Decoder) : Prop where
  dataInEnd : s.parser.dataInEnd = msg.length
  rest : d.rest = msg.drop s.parser.dataIn
  func : d.func = s.parser.funcNum
  page : d.page = s.parser.page
  size : d.size = s.parser.setedDataSize
  events : d.events = s.parser.log.performs
  incVal : s.parser.incVal = incOf s.parser.funcNum
  inVal : s.parser.inVal = none
  size_le : s.parser.setedDataSize ≤ 255
  reads : ∀ r ∈ s.parser.log.reads, r < msg.length
  table : tbl.SameButTimes s.paramList
  fresh : tbl.Fresh → s.paramList = tbl
  effect : s.world = w₀.applyAll H tbl d.events
  writes : (∀ i : Fin paramNumMax, (tbl.get i).Fits) →
    ∀ w ∈ s.parser.log.writes, ∃ num i, getParam tbl num = some i ∧ (tbl.get i).Covers w

namespace Tracks

variable {tbl : ParamList} {w₀ : World} {s : BgcpState} {d : Decoder}

/-- A command changes the parser only. -/
theorem setParser (h : Tracks H msg tbl w₀ s d) {p : ParserData} {d' : Decoder}
    (hend : p.dataInEnd = s.parser.dataInEnd) (hrest : d'.rest = msg.drop p.dataIn)
    (hfunc : d'.func = p.funcNum) (hpage : d'.page = p.page)
    (hsize : d'.size = p.setedDataSize) (hinc : p.incVal = incOf p.funcNum)
    (hval : p.inVal = s.parser.inVal) (hle : p.setedDataSize ≤ 255)
    (hreads : ∃ reads, p.log = { s.parser.log with reads := s.parser.log.reads ++ reads } ∧
      ∀ r ∈ reads, r < msg.length)
    (hevents : d'.events = d.events) : Tracks H msg tbl w₀ { s with parser := p } d' := by
  obtain ⟨reads, hlog, hreads⟩ := hreads
  constructor
  case dataInEnd => exact hend.trans h.dataInEnd
  case rest => exact hrest
  case func => exact hfunc
  case page => exact hpage
  case size => exact hsize
  case events => rw [hevents, h.events, hlog]
  case incVal => exact hinc
  case inVal => exact hval.trans h.inVal
  case size_le => exact hle
  case reads =>
    intro r hr
    rw [hlog] at hr
    rcases List.mem_append.mp hr with hr | hr
    · exact h.reads r hr
    · exact hreads r hr
  -- a step of the parser alone has no effect on the world and writes nothing
  case table => exact h.table
  case fresh => exact h.fresh
  case effect =>
    rw [hevents]
    exact h.effect
  case writes =>
    rw [hlog]
    exact h.writes

/-- A perform step emits its event and has its effect. -/
theorem perform (h : Tracks H msg tbl w₀ s d) {lbyte : UInt8} {performProcessing : Bool}
    {block : PerformBlock} (hblock : BlockAt msg s.parser performProcessing block) {s' : BgcpState}
    (hs' : s' = updateParamDataLifetime getTime (performParam H msg
      ((s.parser.page.toUInt16 <<< 8) ||| lbyte.toUInt16) performProcessing block s)) :
    Tracks H msg tbl w₀ { s' with parser := s'.parser.resetParamData }
      (d.emit lbyte block (d.rest.drop d.size)) := by
  obtain ⟨hlist, hworld, inVal, inDataSize, param, reads, writes, hparser, hreads, hwrites⟩ :=
    performParam_spec H h.inVal h.incVal h.size_le hblock rfl
  generalize performParam H msg ((s.parser.page.toUInt16 <<< 8) ||| lbyte.toUInt16)
    performProcessing block s = s₁ at hs' hlist hworld hparser
  have hparser' : s'.parser = s₁.parser := hs' ▸ parser_updateParamDataLifetime getTime s₁
  have hworld' : s'.world = s₁.world := hs' ▸ world_updateParamDataLifetime getTime s₁
  rw [hparser', hparser]
  constructor
  case dataInEnd => exact h.dataInEnd
  case rest =>
    show d.rest.drop d.size = _
    rw [h.rest, h.size, List.drop_drop]
    rfl
  case func => exact h.func
  case page => exact h.page
  case size =>
    show defaultSize d.func = _
    rw [h.func]
    rfl
  case events =>
    simp only [Decoder.emit, ParserData.resetParamData, h.events, h.func, h.page]
  case incVal => exact h.incVal
  case inVal => rfl
  case size_le => exact defaultSize_le s.parser.funcNum
  case reads =>
    intro r hr
    rcases List.mem_append.mp hr with hr | hr
    · exact h.reads r hr
    · exact hreads r hr
  case table =>
    rw [hs']
    exact sameButTimes_updateParamDataLifetime (hlist ▸ h.table) getTime
  case fresh =>
    -- on a fresh table the time stamp changes nothing at all
    intro hfresh
    have hlist₀ := h.fresh hfresh
    show s'.paramList = tbl
    rw [hs', updateParamDataLifetime_of_fresh (by rw [hlist, hlist₀]; exact hfresh), hlist,
      hlist₀]
  case effect =>
    refine hworld'.trans (hworld.trans ?_)
    rw [h.table.apply_eq, h.effect]
    simp only [Decoder.emit, World.applyAll, List.foldl_append, List.foldl_cons, List.foldl_nil,
      h.func, h.page]
  case writes =>
    intro hfits w hw
    rcases List.mem_append.mp hw with hw | hw
    · exact h.writes hfits w hw
    · obtain ⟨i, hi, hcovers⟩ := hwrites w hw
      obtain ⟨t, ht⟩ := h.table i
      rw [h.table.getParam_eq] at hi
      rw [ht] at hcovers
      exact ⟨_, i, hi, hcovers (hfits i)⟩

/-- The loop conditions agree. -/
theorem cond_eq (h : Tracks H msg tbl w₀ s d) : parseCond s = d.cond := by
  simp only [parseCond, Decoder.cond, h.rest, h.dataInEnd]
  by_cases hin : s.parser.dataIn < msg.length
  · rw [decide_eq_true hin, List.drop_eq_getElem_cons hin]
    rfl
  · rw [decide_eq_false hin, List.drop_eq_nil_of_le (by omega)]
    rfl

/-- The command byte. -/
theorem readCommand (h : Tracks H msg tbl w₀ s d) {b : UInt8} {rest : List UInt8}
    (hrest : d.rest = b :: rest) :
    (s.parser.readByte msg).1 = b ∧ (s.parser.readByte msg).2.dataIn ≤ msg.length ∧
      Tracks H msg tbl w₀ { s with parser := (s.parser.readByte msg).2 } { d with rest } := by
  obtain ⟨n, reads, hp, hdrop, hin, hreads⟩ := ParserData.readByte_snd h.dataInEnd
  rw [← h.rest, hrest, List.tail_cons] at hdrop
  refine ⟨?_, ?_, ?_⟩
  · rw [ParserData.readByte_fst h.dataInEnd, ← h.rest, hrest, List.headD_cons]
  · -- the byte was inside the message
    rw [hp]
    refine hin (Nat.le_of_not_lt fun hout => ?_)
    have hnil := h.rest
    rw [hrest, List.drop_eq_nil_of_le (by omega)] at hnil
    cases hnil
  · rw [hp]
    exact h.setParser rfl hdrop.symm h.func h.page h.size h.incVal rfl h.size_le
      ⟨reads, rfl, hreads⟩ rfl

/-- A mark for a number that is not supported. -/
theorem notSupported (h : Tracks H msg tbl w₀ s d) :
    let s' := (s.perform H msg bgcpCmdNotSup).updateParamDataLifetime getTime
    Tracks H msg tbl w₀ { s' with parser := s'.parser.resetParamData }
      (d.emit (d.rest.headD 0) .notSupported d.rest.tail) := by
  obtain ⟨n, reads, hp, hdrop, _, hreads⟩ := ParserData.readByte_snd h.dataInEnd
  have harg : s.parser.readByte msg = (d.rest.headD 0, _) :=
    Prod.ext (by rw [ParserData.readByte_fst h.dataInEnd, ← h.rest]) hp
  rw [← h.rest] at hdrop
  simp only [BgcpState.perform, if_true, harg]
  -- the mark drops the block, so the cursor does not move behind the number
  have hdropped : Tracks H msg tbl w₀ { s with parser := { s.parser with
        dataIn := n, setedDataSize := 0
        log := { s.parser.log with reads := s.parser.log.reads ++ reads } } }
      { d with rest := d.rest.tail, size := 0 } :=
    h.setParser rfl hdrop.symm h.func h.page rfl h.incVal rfl (Nat.zero_le _)
      ⟨reads, rfl, hreads⟩ rfl
  exact @perform H msg tbl w₀ _ _ hdropped (d.rest.headD 0) false .notSupported
    ⟨Bool.noConfusion, fun _ => Or.inr rfl⟩ _ rfl

/-- A number, with its block of data if the message has it. -/
theorem number (h : Tracks H msg tbl w₀ s d) (hin : s.parser.dataIn ≤ msg.length) {b : UInt8}
    (hnotSup : b ≠ bgcpCmdNotSup) :
    let s' := (s.perform H msg b).updateParamDataLifetime getTime
    Tracks H msg tbl w₀ { s' with parser := s'.parser.resetParamData }
      (if d.func = noFunc ∨ d.rest.length < d.size then d.emit b .refused (d.rest.drop d.size)
        else d.emit b (.data (d.rest.take d.size)) (d.rest.drop d.size)) := by
  have hlen : d.rest.length = msg.length - s.parser.dataIn := by rw [h.rest, List.length_drop]
  have hrefused := @perform H msg tbl w₀ _ _ h b false .refused
    ⟨Bool.noConfusion, fun _ => Or.inl rfl⟩ _ rfl
  simp only [BgcpState.perform, if_neg hnotSup, ParserData.checkDataIn, h.dataInEnd]
  by_cases hno : s.parser.funcNum = noFunc
  · rw [if_pos (Or.inl (h.func.trans hno)), if_pos hno]
    exact hrefused
  rw [if_neg hno]
  -- the block is cut off, or inside the message
  by_cases hshort : msg.length < s.parser.dataIn + s.parser.setedDataSize
  · have hsize : d.rest.length < d.size := by
      rw [hlen, h.size]
      omega
    rw [if_pos (Or.inr hsize), if_pos hshort]
    exact hrefused
  · have hsize : ¬ (d.func = noFunc ∨ d.rest.length < d.size) := by
      rw [hlen, h.size, h.func]
      exact not_or.mpr ⟨hno, by omega⟩
    rw [if_neg hsize, if_neg hshort, if_pos rfl]
    have hblock : PerformBlock.data (d.rest.take d.size) =
        .data ((msg.drop s.parser.dataIn).take s.parser.setedDataSize) := by rw [h.rest, h.size]
    rw [← hblock]
    exact @perform H msg tbl w₀ _ _ h b true _
      ⟨fun _ => ⟨by omega, hblock⟩, Bool.noConfusion⟩ _ rfl

/-- One iteration of the loop of `parse` is one command of the decoder. -/
theorem step (h : Tracks H msg tbl w₀ s d) (hcond : d.cond = true) :
    Tracks H msg tbl w₀ (parseStep H msg s) d.step := by
  obtain ⟨b, rest, hrest⟩ : ∃ b rest, d.rest = b :: rest := by
    cases hd : d.rest with
    | nil => simp only [Decoder.cond, hd, List.isEmpty_nil, Bool.not_true,
        Bool.false_eq_true] at hcond
    | cons b rest => exact ⟨b, rest, rfl⟩
  obtain ⟨hbyte, hin₁, h₁⟩ := h.readCommand hrest
  simp only [parseStep, hbyte]
  generalize (s.parser.readByte msg).2 = p₁ at h₁ hin₁ ⊢
  -- the argument byte that some commands read behind the command byte
  obtain ⟨m, reads, hp₂, hdrop, _, hreads⟩ := ParserData.readByte_snd h₁.dataInEnd
  have harg : p₁.readByte msg = (rest.headD 0, _) :=
    Prod.ext (by rw [ParserData.readByte_fst h₁.dataInEnd, ← h₁.rest]) hp₂
  rw [← h₁.rest] at hdrop
  simp only [Decoder.step, hrest]
  by_cases hpage : b = bgcpCmdPage
  · rw [if_pos hpage, if_pos hpage]
    simp only [ParserData.setNewPage, harg]
    exact h₁.setParser rfl hdrop.symm h₁.func rfl h₁.size h₁.incVal rfl h₁.size_le
      ⟨reads, rfl, hreads⟩ rfl
  rw [if_neg hpage, if_neg hpage]
  by_cases hfunc : b = bgcpCmdFunc
  · rw [if_pos hfunc, if_pos hfunc]
    simp only [ParserData.setNewFunc, harg]
    refine h₁.setParser rfl hdrop.symm rfl h₁.page rfl ?_ rfl ?_ ⟨reads, rfl, hreads⟩ rfl
    · exact ParserData.incOf_validated _
    · exact defaultSize_le _
  rw [if_neg hfunc, if_neg hfunc]
  by_cases hsize : b = bgcpCmdSize
  · rw [if_pos hsize, if_pos hsize]
    have hfunc₁ : d.func = p₁.funcNum := h₁.func
    simp only [ParserData.setDataSize, harg, hfunc₁]
    cases hasDataBlock p₁.funcNum with
    | true =>
      exact h₁.setParser rfl hdrop.symm rfl h₁.page rfl h₁.incVal rfl
        (Nat.le_of_lt_succ (rest.headD 0).toNat_lt) ⟨reads, rfl, hreads⟩ rfl
    | false =>
      exact h₁.setParser rfl hdrop.symm rfl h₁.page h₁.size h₁.incVal rfl h₁.size_le
        ⟨reads, rfl, hreads⟩ rfl
  rw [if_neg hsize, if_neg hsize]
  by_cases hnotSup : b = bgcpCmdNotSup
  · rw [if_pos hnotSup, hnotSup]
    exact h₁.notSupported
  · rw [if_neg hnotSup]
    exact h₁.number hin₁ hnotSup

/-- The loop of `parse` starts at the first state of the decoder. -/
theorem start (H : Handlers) (func : UInt8) (rest : List UInt8) (s : BgcpState)
    (hvalid : isValidFunc func = true) :
    Tracks H (func :: rest) s.paramList ⟨s.mem, s.rq.resetReqQueue⟩
      (s.loopStart (func :: rest)) (.start func rest) := by
  have hread (p : ParserData) (hin : p.dataIn = 0) (hend : p.dataInEnd = (func :: rest).length) :
      p.readByte (func :: rest) = (func, { p with
        dataIn := 1, log := { p.log with reads := p.log.reads ++ [0] } }) := by
    simp only [ParserData.readByte, hin, hend, List.length_cons]
    rw [if_neg (by omega)]
    rfl
  simp only [loopStart, beginParse, ParserData.setNewFunc, hread, hvalid, if_true]
  constructor
  case reads =>
    intro r hr
    rw [List.mem_singleton.mp hr]
    exact Nat.zero_lt_succ _
  case size_le => exact defaultSize_le func
  case table => exact fun i => ⟨_, rfl⟩
  case fresh => exact fun _ => rfl
  case writes => exact fun _ => List.forall_mem_nil _
  all_goals rfl

end Tracks

/-! ## The whole message -/

/-- The message is begun if its first byte is a function. -/
theorem beginParse_cons (func : UInt8) (rest : List UInt8) (s : BgcpState) :
    (s.beginParse (func :: rest)).1 = isValidFunc func := rfl

/-- The loop of `parse` on a message that opens with a function leaves after at most one
    iteration for each byte behind it, in a state that tracks the decoder's last one. -/
theorem parse_tracks (H : Handlers) (func : UInt8) (rest : List UInt8) (s : BgcpState)
    (hvalid : isValidFunc func = true) :
    (∃ n, n ≤ rest.length ∧ Loop.Exits parseCond (parseStep H (func :: rest)) n
      (s.loopStart (func :: rest)) (parse H (func :: rest) s)) ∧
    Tracks H (func :: rest) s.paramList ⟨s.mem, s.rq.resetReqQueue⟩ (parse H (func :: rest) s)
      (Loop.run Decoder.cond Decoder.step Decoder.measure (.start func rest)) := by
  have hstart := Tracks.start H func rest s hvalid
  obtain ⟨n, hn, hexit⟩ := Loop.exits_run Decoder.decreases (.start func rest)
  obtain ⟨s', hexit', htracks⟩ :=
    hexit.related (fun s d h => h.cond_eq) (fun s d h => h.step) hstart
  have hparse : parse H (func :: rest) s = s' := by
    simp only [parse, beginParse_cons, hvalid, Bool.not_true, Bool.false_eq_true, if_false]
    refine hexit'.iterate_eq (Nat.le_trans hn (Nat.le_of_eq ?_))
    simp only [parseMeasure, hstart.dataInEnd]
    exact (congrArg List.length hstart.rest).trans List.length_drop
  rw [hparse]
  exact ⟨⟨n, hn, hexit'⟩, htracks⟩

/-- `parse` makes the perform steps of the decoder. -/
theorem performs_parse (H : Handlers) (msg : List UInt8) (s : BgcpState) :
    (parse H msg s).parser.log.performs = decode msg := by
  cases msg with
  | nil => rfl
  | cons func rest =>
    by_cases hvalid : isValidFunc func = true
    · rw [← (parse_tracks H func rest s hvalid).2.events, decode, if_pos hvalid]
    · simp only [parse, beginParse_cons, hvalid, decode]
      rfl

/-- The effect of `parse` is the effect of the perform steps of the decoder, from an empty
    response queue; a message rejected at its first byte changes neither. -/
theorem world_parse (H : Handlers) (msg : List UInt8) (s : BgcpState) :
    (parse H msg s).world = if (s.beginParse msg).1 then
      World.applyAll H s.paramList ⟨s.mem, s.rq.resetReqQueue⟩ (decode msg) else s.world := by
  cases msg with
  | nil => rfl
  | cons func rest =>
    by_cases hvalid : isValidFunc func = true
    · rw [beginParse_cons, if_pos hvalid, decode, if_pos hvalid]
      exact (parse_tracks H func rest s hvalid).2.effect
    · rw [beginParse_cons, if_neg hvalid]
      simp only [parse, beginParse_cons, hvalid]
      rfl

/-- A table whose times are `GET_TIME()` is left as it is. -/
theorem paramList_parse (H : Handlers) (msg : List UInt8) {s : BgcpState}
    (h : s.paramList.Fresh) : (parse H msg s).paramList = s.paramList := by
  cases msg with
  | nil => rfl
  | cons func rest =>
    by_cases hvalid : isValidFunc func = true
    · exact (parse_tracks H func rest s hvalid).2.fresh h
    · simp only [parse, beginParse_cons, hvalid]
      rfl

/-- A message with a perform step is not rejected. -/
theorem world_parse_of_decode (H : Handlers) {msg : List UInt8} {s : BgcpState}
    (hmsg : decode msg ≠ []) :
    (parse H msg s).world =
      World.applyAll H s.paramList ⟨s.mem, s.rq.resetReqQueue⟩ (decode msg) := by
  have hbegin : (s.beginParse msg).1 = true := by
    cases msg with
    | nil => exact absurd rfl hmsg
    | cons func rest =>
      rw [beginParse_cons]
      by_cases hvalid : isValidFunc func = true
      · exact hvalid
      · rw [decode, if_neg hvalid] at hmsg
        exact absurd rfl hmsg
  rw [world_parse, if_pos hbegin]

end BgcpState

end EspTesting.Bgcp
