import EspTesting.Spec.BgcpQueueCorrect
import EspTesting.Spec.BgcpDecoder

/-!
# Encoding and decoding a BGCP message

The decoder reads the message for a list of entries back into these entries. The proof
follows the format: each of the commands an entry may open with puts the decoder into the
state the entry's body is written for, and the body is one perform step that leaves the
decoder at the next entry.
-/

namespace EspTesting.Bgcp

/-- The high and the low byte of a parameter number, joined as the parser does. -/
theorem Entry.join_page_num (e : Entry) :
    (e.page.toUInt16 <<< 8) ||| e.num.toUInt8.toUInt16 = e.num :=
  e.num.join_bytes

namespace Decoder

/-- The loop of the decoder. -/
abbrev run (d : Decoder) : Decoder := Loop.run cond step measure d

/-- A run begins with its first step. -/
private theorem run_cons {d : Decoder} {b : UInt8} {rest : List UInt8} (h : d.rest = b :: rest) :
    d.run = d.step.run := by
  apply Loop.run_step decreases
  simp only [cond, h, List.isEmpty_cons, Bool.not_false]

/-! ### The commands -/

section

variable (func page : UInt8) (size : Nat) (rest : List UInt8) (events : List PerformEvent)

/-- A function byte sets the function. -/
private theorem run_func (f : Func) :
    run ⟨func, page, size, bgcpCmdFunc :: f.code :: rest, events⟩ =
      run ⟨f.code, page, defaultSize f.code, rest, events⟩ := by
  rw [run_cons rfl]
  have hfunc : (if isValidFunc f.code then f.code else noFunc) = f.code :=
    if_pos f.isValidFunc_code
  show run ⟨if isValidFunc f.code then f.code else noFunc, page,
    defaultSize (if isValidFunc f.code then f.code else noFunc), rest, events⟩ = _
  rw [hfunc]

/-- A page byte sets the page. -/
private theorem run_page (page' : UInt8) :
    run ⟨func, page, size, bgcpCmdPage :: page' :: rest, events⟩ =
      run ⟨func, page', size, rest, events⟩ :=
  run_cons rfl

/-- A size byte sets the size of the next block. -/
private theorem run_size {func : UInt8} (h : hasDataBlock func = true) (size' : UInt8) :
    run ⟨func, page, size, bgcpCmdSize :: size' :: rest, events⟩ =
      run ⟨func, page, size'.toNat, rest, events⟩ := by
  rw [run_cons rfl]
  show run ⟨func, page, if hasDataBlock func then size'.toNat else size, rest, events⟩ = _
  rw [if_pos h]

/-- A number that is not supported. -/
private theorem run_notSup (lbyte : UInt8) :
    run ⟨func, page, size, bgcpCmdNotSup :: lbyte :: rest, events⟩ =
      run ⟨func, page, defaultSize func, rest, events ++
        [⟨func, (page.toUInt16 <<< 8) ||| lbyte.toUInt16, .notSupported⟩]⟩ :=
  run_cons rfl

/-- A byte that is no command code is the low byte of a number, with its block behind it. -/
private theorem run_data {lbyte func : UInt8} (hlbyte : lbyte < bgcpCmdFunc)
    (hfunc : func ≠ noFunc) (block : List UInt8) :
    run ⟨func, page, block.length, lbyte :: (block ++ rest), events⟩ =
      run ⟨func, page, defaultSize func, rest, events ++
        [⟨func, (page.toUInt16 <<< 8) ||| lbyte.toUInt16, .data block⟩]⟩ := by
  rw [run_cons rfl]
  -- the command codes are the codes from `BGCP_CMD_FUNC` on
  have hno (code : UInt8) (hcode : bgcpCmdFunc ≤ code) : lbyte ≠ code := by
    rintro rfl
    exact UInt8.not_lt.mpr hcode hlbyte
  have hlen : ¬(func = noFunc ∨ (block ++ rest).length < block.length) := by
    rw [List.length_append]
    exact fun h => h.elim hfunc (by omega)
  simp only [step, if_neg (hno bgcpCmdPage (by decide)), if_neg (hno bgcpCmdFunc (by decide)),
    if_neg (hno bgcpCmdSize (by decide)), if_neg (hno bgcpCmdNotSup (by decide)), if_neg hlen,
    List.take_left, List.drop_left, emit]

end

/-! ### The parts of an entry -/

/-- The pieces of a function leave this function. -/
private theorem run_funcPieces (f : Func) (func page : UInt8) (rest : List UInt8)
    (events : List PerformEvent) :
    run ⟨func, page, defaultSize func, (funcPieces false func f.code).flatten ++ rest, events⟩ =
      run ⟨f.code, page, defaultSize f.code, rest, events⟩ := by
  simp only [funcPieces]
  by_cases h : f.code ≠ func
  · rw [if_pos h]
    exact run_func func page _ rest events f
  · rw [if_neg h, Decidable.not_not.mp h]
    rfl

/-- The pieces of a page leave this page. -/
private theorem run_pagePieces (func curPage page : UInt8) (size : Nat) (rest : List UInt8)
    (events : List PerformEvent) :
    run ⟨func, curPage, size, (pagePieces curPage page).flatten ++ rest, events⟩ =
      run ⟨func, page, size, rest, events⟩ := by
  simp only [pagePieces]
  by_cases h : page ≠ curPage
  · rw [if_pos h]
    exact run_page func curPage size rest events page
  · rw [if_neg h, Decidable.not_not.mp h]
    rfl

/-- The block size command, written for blocks of more than one byte, leaves the decoder
    with the size of the block. -/
private theorem run_sizePieces (f : Func) (page : UInt8) {d : List UInt8} (rest : List UInt8)
    (events : List PerformEvent)
    (hd : if f.hasData then 1 ≤ d.length ∧ d.length ≤ 255 else d = []) :
    run ⟨f.code, page, defaultSize f.code,
        (if d.length > 1 then [[bgcpCmdSize], [d.length.toUInt8]] else []).flatten ++ rest,
        events⟩ =
      run ⟨f.code, page, d.length, rest, events⟩ := by
  have hdefault : defaultSize f.code = if f.hasData then defaultDataBlockSize else 0 := by
    rw [defaultSize, f.hasDataBlock_code]
  by_cases hdata : f.hasData = true
  · rw [if_pos hdata] at hd
    by_cases hlen : d.length > 1
    · -- a block of several bytes has its length in front
      rw [if_pos hlen]
      have hsize : d.length.toUInt8.toNat = d.length := by
        rw [Nat.toUInt8, UInt8.toNat_ofNat']
        omega
      have hrun := run_size page (defaultSize f.code) rest events
        (f.hasDataBlock_code.trans hdata) d.length.toUInt8
      rwa [hsize] at hrun
    · -- a block of one byte has the default size and no length
      have hone : d.length = defaultDataBlockSize := Nat.le_antisymm (Nat.le_of_not_lt hlen) hd.1
      rw [if_neg hlen, hdefault, if_pos hdata, hone]
      rfl
  · rw [if_neg hdata] at hd
    subst hd
    rw [if_neg (by decide), hdefault, if_neg hdata]
    rfl

/-- The body of an entry is one perform step. -/
private theorem run_bodyPieces {e : Entry} (he : e.WellFormed) (rest : List UInt8)
    (events : List PerformEvent) :
    run ⟨e.func.code, e.page, defaultSize e.func.code, e.bodyPieces.flatten ++ rest, events⟩ =
      run ⟨e.func.code, e.page, defaultSize e.func.code, rest, events ++ [e.event]⟩ := by
  have hnum := e.join_page_num
  cases e with
  | notSup n =>
    have hrun := run_notSup bgcpFuncResp (Entry.notSup n).page (defaultSize bgcpFuncResp) rest
      events n.toUInt8
    rwa [show n.toUInt8 = (Entry.notSup n).num.toUInt8 from rfl, hnum] at hrun
  | param f n d =>
    obtain ⟨hlow, hd⟩ := he
    simp only [Entry.bodyPieces, List.flatten_append, List.append_assoc]
    -- an empty block and no block are the same bytes
    have hblock : [[n.toUInt8]].flatten ++
        ((if d.length ≠ 0 then [d] else []).flatten ++ rest) = n.toUInt8 :: (d ++ rest) := by
      by_cases hlen : d.length ≠ 0
      · rw [if_pos hlen]
        simp only [List.flatten_cons, List.flatten_nil, List.append_nil, List.singleton_append]
      · rw [if_neg hlen, List.length_eq_zero_iff.mp (Decidable.not_not.mp hlen)]
        rfl
    have hrun := run_data (Entry.param f n d).page rest events hlow f.code_ne_noFunc d
    rw [show n.toUInt8 = (Entry.param f n d).num.toUInt8 from rfl, hnum] at hrun
    rw [hblock]
    exact (run_sizePieces f _ _ events hd).trans hrun

/-- Reading one entry. -/
theorem run_encode {e : Entry} (he : e.WellFormed) (func page : UInt8) (rest : List UInt8)
    (events : List PerformEvent) :
    run ⟨func, page, defaultSize func, e.encode false func page ++ rest, events⟩ =
      run ⟨e.func.code, e.page, defaultSize e.func.code, rest, events ++ [e.event]⟩ := by
  simp only [Entry.encode, Entry.pieces, List.flatten_append, List.append_assoc]
  rw [run_funcPieces, run_pagePieces, run_bodyPieces he]

/-- Reading a list of entries. -/
theorem events_run_encodeFrom {es : List Entry} (hes : ∀ e ∈ es, e.WellFormed)
    (func page : UInt8) (events : List PerformEvent) :
    (run ⟨func, page, defaultSize func, encodeFrom false func page es, events⟩).events =
      events ++ es.map Entry.event := by
  induction es generalizing func page events with
  | nil =>
    rw [encodeFrom, run, Loop.run_done rfl, List.map_nil, List.append_nil]
  | cons e es ih =>
    rw [encodeFrom, run_encode (hes e (List.mem_cons_self ..)),
      ih fun e' h => hes e' (List.mem_cons_of_mem _ h)]
    rw [List.map_cons, List.append_assoc, List.singleton_append]

end Decoder

/-- The decoder reads a message back into its entries. -/
theorem decode_encode {es : List Entry} (hes : ∀ e ∈ es, e.WellFormed) :
    decode (encode es) = es.map Entry.event := by
  cases es with
  | nil => rfl
  | cons e es =>
    rw [encode_cons, decode, if_pos e.func.isValidFunc_code]
    exact Decoder.events_run_encodeFrom hes e.func.code 0 []

/-- Parsing the message pushed for a list of entries makes one perform step for each entry,
    in order, with its function, its number and its block; and what the handlers do, with the
    input they copy, is what these steps ask for. -/
theorem performs_parse_pushAll (H : Handlers) (rq : BGCPQueue) (s : BgcpState) {es : List Entry}
    (hes : ∀ e ∈ es, e.WellFormed) (hfit : (encode es).length ≤ queueBufSize - 1) :
    let s' := s.parse H (rq.resetReqQueue.pushAll es).bytes
    s'.parser.log.performs = es.map Entry.event ∧
      s'.world = World.applyAll H s.paramList
        ⟨s.mem, if es = [] then s.rq else s.rq.resetReqQueue⟩ (es.map Entry.event) := by
  have hbytes : (rq.resetReqQueue.pushAll es).bytes = encode es :=
    BGCPQueue.bytes_pushAll_reset hes (Nat.lt_of_le_of_lt hfit (by decide))
  intro s'
  have hs' : s' = s.parse H (encode es) := by rw [← hbytes]
  constructor
  · rw [hs', BgcpState.performs_parse, decode_encode hes]
  · rw [hs', ← decode_encode hes]
    by_cases hne : es = []
    · -- nothing was pushed, and nothing is parsed
      subst hne
      rfl
    · rw [if_neg hne]
      apply BgcpState.world_parse_of_decode
      rw [decode_encode hes]
      exact fun h => hne (List.map_eq_nil_iff.mp h)

/-- A handler of the application that keeps what it copies gets the blocks that were pushed. -/
theorem performs_parse_pushAll_mixed :
    let H : Handlers := fun _ input m => (m.store 0 (input.input.getD []), [])
    let es : List Entry := [.param .w 0x0105 [0xFC, 0xFF], .notSup 0xFEFD,
      .param .resp 0x0105 [0xFD], .param .incRw 0x0005 []]
    let s : BgcpState := ⟨.zero, .zero, buildTable [.cmd 0x0105 (some 7)], fun _ => 0⟩
    (s.parse H (BGCPQueue.zero.resetReqQueue.pushAll es).bytes).parser.log.performs =
      [⟨bgcpFuncW, 0x0105, .data [0xFC, 0xFF]⟩, ⟨bgcpFuncResp, 0xFEFD, .notSupported⟩,
        ⟨bgcpFuncResp, 0x0105, .data [0xFD]⟩, ⟨bgcpFuncIncRw, 0x0005, .data []⟩] ∧
      (s.parse H (BGCPQueue.zero.resetReqQueue.pushAll es).bytes).world.mem.load 0 2 =
        [0xFD, 0xFF] := by
  intro H es s
  have hes : ∀ e ∈ es, e.WellFormed := by decide
  obtain ⟨hperforms, hworld⟩ := performs_parse_pushAll H .zero s hes (by decide)
  refine ⟨hperforms, ?_⟩
  rw [hworld]
  decide +kernel

end EspTesting.Bgcp
