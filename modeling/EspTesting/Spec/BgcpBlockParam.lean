import Mathlib.Data.List.TakeWhile
import EspTesting.Spec.BgcpIncrement
import EspTesting.Spec.BgcpRoundTrip

/-!
# Parameters that are blocks of bytes

A variable bound as a block is written by blocks of exactly its size, and an answer carries as
many of its bytes as the low byte of its size says. Strings are bound as blocks, too.

## Key results

- `answer_parse_iff`: the answer carries the whole block exactly for the sizes of one byte
- `blockParam_answer_iff`, `strParam_never`
-/

namespace EspTesting.Bgcp

/-- The parameter is a block of `n` bytes at the address `a`. -/
structure Param.IsBlock (param : Param) (a n : Nat) : Prop where
  linked : param.linkedData = some a
  max : param.limits.max = n
  type : param.dataType = .typeBin ∨ param.dataType = .typeConstBin

/-- Binary data are a block. -/
theorem isBlock_binary (num : UInt16) (a : Nat) (size : UInt16) :
    (BindCall.binary num (some a) size).param.IsBlock a size.toNat := ⟨rfl, rfl, Or.inl rfl⟩

/-- A constant is a block. -/
theorem isBlock_const (num : UInt16) (a : Nat) (size : UInt16) :
    (BindCall.const num (some a) size).param.IsBlock a size.toNat := ⟨rfl, rfl, Or.inr rfl⟩

/-- A text is a block. -/
theorem isBlock_str (num : UInt16) (a : Nat) (minLen size : UInt16) :
    (BindCall.str num (some a) minLen size).param.IsBlock a size.toNat := ⟨rfl, rfl, Or.inl rfl⟩

variable {H : Handlers} {param : Param} {a n : Nat} {num : UInt16}

/-! ## Reading -/

/-- A request to read is answered with the bytes that the low byte of the size says. -/
theorem World.process_read (h : param.IsBlock a n) (hn : n < 2 ^ 16) (w : World) :
    w.process H param none bgcpFuncR = { w with
      rq := w.rq.queuePushParamData bgcpFuncResp param.paramNum
        (some (w.mem.load a (n % 256))) n.toUInt8 } := by
  have hmax : BgcpState.toUnsigned 4 param.limits.max = n := by
    rw [h.max, BgcpState.toUnsigned]
    omega
  have hsend : w.answer H param none .sendBinDataType = w.send param n := by
    rw [← hmax]
    rfl
  -- binary data and texts are answered by one handler
  have hproc : ∃ f, getParamDataProcessor param = some ⟨f, some .sendBinDataType⟩ := by
    rcases h.type with htype | htype
    · exact ⟨_, getParamDataProcessor_of_type htype (by decide)⟩
    · exact ⟨_, getParamDataProcessor_of_type htype (by decide)⟩
  obtain ⟨f, hproc⟩ := hproc
  have hwrite : isWriteFunc bgcpFuncR = false := rfl
  have hread : isReadFunc bgcpFuncR = true := rfl
  simp only [process, hproc, hwrite, hread, BgcpState.callIf, hsend, send, h.linked,
    Option.map_some]

/-- Around an answer there are six bytes at most. -/
theorem length_encode_resp (num : UInt16) (d : List UInt8) :
    (encode [.param .resp num d]).length ≤ d.length + 6 := by
  simp only [encode, encodeFrom, Entry.encode, Entry.pieces, Entry.bodyPieces, funcPieces,
    pagePieces, List.append_nil, List.flatten_append, List.length_append]
  split_ifs <;> simp <;> omega

/-- The parameter found under a number has this number. -/
theorem paramNum_of_paramAt {tbl : ParamList} (h : paramAt tbl num = some param) :
    param.paramNum = num := by
  obtain ⟨i, hfound, rfl⟩ := getParam_of_paramAt h
  exact paramNum_of_getParam hfound

/-- The state after a request to read a block. -/
theorem world_parse_read {s : BgcpState} (hparam : paramAt s.paramList num = some param)
    (h : param.IsBlock a n) (hn : n < 2 ^ 16) {msg : List UInt8} (hmsg : IsRequestFor .r num msg) :
    (s.parse H msg).world = ⟨s.mem, s.rq.resetReqQueue.queuePushParamData bgcpFuncResp num
      (some (s.mem.load a (n % 256))) n.toUInt8⟩ := by
  obtain ⟨i, hfound, hslot⟩ := getParam_of_paramAt hparam
  have hnum := paramNum_of_paramAt hparam
  have hdecode : decode msg = [⟨bgcpFuncR, num, .data []⟩] := hmsg
  rw [BgcpState.world_parse_of_decode H (by rw [hdecode]; exact List.cons_ne_nil _ _), hdecode]
  have hinput : inputOf bgcpFuncR [] = none := rfl
  simp only [World.applyAll, List.foldl_cons, List.foldl_nil, World.apply, hfound, hslot, hinput]
  rw [World.process_read h hn, hnum]

/-- The response to a request to read a block carries the whole block exactly if its size fits a
    byte. -/
theorem answer_parse_iff {s : BgcpState} (hparam : paramAt s.paramList num = some param)
    (h : param.IsBlock a n) (hn : n < 2 ^ 16) (hpos : 0 < n) {msg : List UInt8}
    (hmsg : IsRequestFor .r num msg) :
    decode (s.parse H msg).rq.bytes = [⟨bgcpFuncResp, num, .data (s.mem.load a n)⟩] ↔
      n ≤ 255 := by
  have hrq : (s.parse H msg).rq = _ := congrArg World.rq (world_parse_read hparam h hn hmsg)
  have hlow : num.toUInt8 < bgcpCmdFunc :=
    (@inRange_of_mem_decode msg _ (by rw [hmsg]; exact List.mem_singleton.mpr rfl)).low_lt
      [] rfl
  constructor
  · intro hanswer
    -- no message carries a longer block
    have hin := @inRange_of_mem_decode (s.parse H msg).rq.bytes _
      (by rw [hanswer]; exact List.mem_singleton.mpr rfl)
    have hlen := hin.length_le _ rfl
    rw [Mem.length_load] at hlen
    exact hlen
  · intro hle
    have hwf : (Entry.param .resp num (s.mem.load a n)).WellFormed := by
      refine ⟨hlow, ?_⟩
      show 1 ≤ (s.mem.load a n).length ∧ (s.mem.load a n).length ≤ 255
      rw [Mem.length_load]
      omega
    have hall : ∀ e ∈ [Entry.param .resp num (s.mem.load a n)], e.WellFormed := fun e he => by
      rw [List.mem_singleton.mp he]
      exact hwf
    -- the answer is one entry, and it has room in the empty queue
    have hpush : (s.parse H msg).rq =
        s.rq.resetReqQueue.pushAll [.param .resp num (s.mem.load a n)] := by
      rw [hrq, Nat.mod_eq_of_lt (by omega)]
      show _ = s.rq.resetReqQueue.queuePushParamData bgcpFuncResp num (some (s.mem.load a n))
        (s.mem.load a n).length.toUInt8
      rw [Mem.length_load]
    have hfit := length_encode_resp num (s.mem.load a n)
    rw [Mem.length_load] at hfit
    rw [hpush, BGCPQueue.bytes_pushAll_reset hall (Nat.lt_of_le_of_lt hfit
      (show n + 6 < 512 by omega)), decode_encode hall]
    rfl

/-- A block bound with success is answered in full exactly if its size fits a byte. -/
theorem blockParam_answer_iff (H : Handlers) {binds : List BindCall} {s : BgcpState}
    (htbl : s.paramList = buildTable binds) {c : BindCall} {num : UInt16} {a : Nat}
    {size : UInt16} (hc : c = .binary num (some a) size ∨ c = .const num (some a) size)
    (hbound : paramAt (buildTable binds) num = some c.param) (hsize : size ≠ 0)
    {msg : List UInt8} (hmsg : IsRequestFor .r num msg) :
    decode (s.parse H msg).rq.bytes =
        [⟨bgcpFuncResp, num, .data (s.mem.load a size.toNat)⟩] ↔ size.toNat ≤ 255 := by
  have hblock : c.param.IsBlock a size.toNat := by
    rcases hc with rfl | rfl
    · exact isBlock_binary num a size
    · exact isBlock_const num a size
  have hpos : 0 < size.toNat := by
    rw [Nat.pos_iff_ne_zero]
    exact fun hzero => hsize (UInt16.toNat_inj.mp hzero)
  exact answer_parse_iff (htbl ▸ hbound) hblock size.toNat_lt
    hpos hmsg

/-- A constant of two bytes. -/
theorem blockParam_answer_iff_two :
    decode (BgcpState.parse (fun _ _ m => (m, [])) (encode [.param .r 5 []])
        ⟨.zero, .zero, buildTable [.const 5 (some 0) 2], fun _ => 7⟩).rq.bytes =
      [⟨bgcpFuncResp, 5, .data [7, 7]⟩] :=
  (@blockParam_answer_iff (fun _ _ m => (m, [])) [.const 5 (some 0) 2]
    ⟨.zero, .zero, buildTable [.const 5 (some 0) 2], fun _ => 7⟩ rfl (.const 5 (some 0) 2) 5 0 2
    (Or.inr rfl)
    (@BindCall.paramAt_run ParamList.zero (.const 5 (some 0) 2) (by decide)) (by decide) _
    (by decide)).mpr (by decide)

/-- A block of 256 bytes is bound, and answered with none of them. -/
theorem blockParam_not_answered :
    ((BindCall.binary 5 (some 0) 256).run ParamList.zero).1 = true ∧
    decode (BgcpState.parse (fun _ _ m => (m, [])) (encode [.param .r 5 []])
        ⟨.zero, .zero, buildTable [.binary 5 (some 0) 256], fun _ => 7⟩).rq.bytes ≠
      [⟨bgcpFuncResp, 5, .data (Mem.load (fun _ => 7) 0 256)⟩] := by
  decide +kernel

/-! ## Writing -/

/-- The functions whose entries write a block. -/
def IsBlockWrite (func : UInt8) : Prop := func = bgcpFuncW ∨ func = bgcpFuncRw

instance : DecidablePred IsBlockWrite := fun _ => inferInstanceAs (Decidable (_ ∨ _))

/-- An entry writes a block exactly if it is as long as the variable. -/
theorem World.mem_apply_write {tbl : ParamList} (hparam : paramAt tbl num = some param)
    (h : param.IsBlock a n) (htype : param.dataType = .typeBin) {f : UInt8}
    (hf : IsBlockWrite f) (d : List UInt8) (w : World) :
    (w.apply H tbl ⟨f, num, .data d⟩).mem =
      if d.length = n then w.mem.store a d else w.mem := by
  obtain ⟨i, hfound, hslot⟩ := getParam_of_paramAt hparam
  have hproc : getParamDataProcessor param =
      some ⟨some .updateBinDataType, some .sendBinDataType⟩ :=
    getParamDataProcessor_of_type htype (by decide)
  have hwrite : isWriteFunc f = true ∧ hasDataBlock f = true := by
    rcases hf with rfl | rfl
    · decide
    · decide
  have hmem : (w.apply H tbl ⟨f, num, .data d⟩).mem =
      memAfter .updateBinDataType param f (inputOf f d) w.mem a := by
    simp only [apply, hfound, hslot]
    rw [process_of_builtin H hproc rfl h.linked]
    cases isReadFunc f with
    | false => rfl
    | true => rfl
  rw [hmem, memAfter, if_pos hwrite.1]
  unfold storeOf binStore inputOf
  by_cases hd : d = []
  · -- nothing comes in, and nothing would be stored
    simp [hd]
  · rw [if_pos ⟨hwrite.2, hd⟩, h.max]
    by_cases hlen : d.length = n
    · simp [hlen]
    · simp [hlen]

/-! ## Strings -/

/-- There is a NUL in the buffer. -/
def Terminated (m : Mem) (a n : Nat) : Prop := 0 ∈ m.load a n

/-- The bytes of the buffer in front of the first NUL. -/
def storedString (m : Mem) (a n : Nat) : List UInt8 := (m.load a n).takeWhile (· ≠ 0)

/-- What an entry with the block `d`, which takes the memory from `m` to `m'`, should do to a
    string buffer: a string of a length within the bounds is stored with its NUL, and a block of
    another length is dropped. -/
structure KeepsLengthRule (minLen n a : Nat) (d : List UInt8) (m m' : Mem) : Prop where
  stores : 1 ≤ d.length → minLen ≤ d.length → d.length < n → 0 ∉ d →
    m'.load a (d.length + 1) = d ++ [0]
  keeps : ¬(1 ≤ d.length ∧ minLen ≤ d.length ∧ d.length < n) → m'.load a n = m.load a n

/-- The memory behind the perform steps `evs` of a message. -/
def BgcpState.memBehind (H : Handlers) (s : BgcpState) (evs : List PerformEvent) : Mem :=
  (World.applyAll H s.paramList ⟨s.mem, s.rq.resetReqQueue⟩ evs).mem

/-- What a string parameter should do under the messages `msgs` and a request `msg` to read
    it. -/
structure StrRules (H : Handlers) (num : UInt16) (minLen n a : Nat) (s : BgcpState)
    (msgs : List (List UInt8)) (msg : List UInt8) : Prop where
  write : ∀ past m rest, msgs = past ++ m :: rest → ∀ evs f d evs',
    decode m = evs ++ ⟨f, num, .data d⟩ :: evs' → IsBlockWrite f →
    KeepsLengthRule minLen n a d ((s.parseAll H past).memBehind H evs)
      ((s.parseAll H past).memBehind H (evs ++ [⟨f, num, .data d⟩]))
  terminated : ∀ past rest, msgs = past ++ rest → Terminated (s.parseAll H past).mem a n
  read : decode ((s.parseAll H msgs).parse H msg).rq.bytes =
    [⟨bgcpFuncResp, num, .data (storedString (s.parseAll H msgs).mem a n)⟩]

/-- A string that ends in its buffer is shorter than the buffer. -/
theorem length_storedString_lt {m : Mem} (h : Terminated m a n) :
    (storedString m a n).length < n := by
  have hle : (storedString m a n).length ≤ (m.load a n).length :=
    (List.takeWhile_prefix _).length_le
  rw [Mem.length_load] at hle
  apply Nat.lt_of_le_of_ne hle
  intro hlen
  -- a string as long as the buffer is the whole of it
  have hall : storedString m a n = m.load a n :=
    (List.takeWhile_prefix _).eq_of_length (hlen.trans (Mem.length_load m a n).symm)
  have hne := List.takeWhile_eq_self_iff.mp hall 0 h
  simp at hne

/-- Messages never touch the table. -/
theorem paramList_parseAll (H : Handlers) {s : BgcpState} (h : s.paramList.Fresh)
    (msgs : List (List UInt8)) : (s.parseAll H msgs).paramList = s.paramList := by
  induction msgs generalizing s with
  | nil => rfl
  | cons msg msgs ih =>
    have hlist := BgcpState.paramList_parse H msg h
    exact (ih (hlist ▸ h)).trans hlist

/-- What it takes that a block is stored only if it fills the buffer. -/
theorem keepsLengthRule_iff {m : Mem} {d : List UInt8} {minLen : Nat} :
    KeepsLengthRule minLen n a d m (if d.length = n then m.store a d else m) ↔
      (1 ≤ d.length → minLen ≤ d.length → d.length < n → 0 ∉ d →
        m.load a (d.length + 1) = d ++ [0]) ∧
      (d.length = n → m.load a n = d) := by
  constructor
  · intro h
    refine ⟨fun hpos hmin hlt hnul => ?_, fun hlen => ?_⟩
    · have hstored := h.stores hpos hmin hlt hnul
      rw [if_neg (Nat.ne_of_lt hlt)] at hstored
      exact hstored
    · have hkept := h.keeps (by omega)
      rw [if_pos hlen, ← hlen, Mem.load_store] at hkept
      rw [← hlen]
      exact hkept.symm
  · -- a text shorter than the block, or as long as it
    rintro ⟨hheld, hfull⟩
    refine ⟨fun hpos hmin hlt hnul => ?_, fun hother => ?_⟩
    · rw [if_neg (Nat.ne_of_lt hlt)]
      exact hheld hpos hmin hlt hnul
    · split
      · rename_i hlen
        rw [← hlen, Mem.load_store, hlen]
        exact (hfull hlen).symm
      · rfl

/-- A parameter bound as a string is never answered with its string, and a block that is written
    to it is stored only if it fills the buffer, without a NUL behind it. -/
theorem strParam_never (H : Handlers) {binds : List BindCall} {s : BgcpState}
    (htbl : s.paramList = buildTable binds) {num : UInt16} {a : Nat} {minLen size : UInt16}
    (hlo : 2 ≤ size.toNat) (hhi : size.toNat ≤ 255)
    (hbound : paramAt (buildTable binds) num =
      some (BindCall.str num (some a) minLen size).param)
    {msg : List UInt8} (hmsg : IsRequestFor .r num msg) :
    (∀ msgs, ¬StrRules H num minLen.toNat size.toNat a s msgs msg) ∧
    ∀ (w : World) (f : UInt8) (d : List UInt8), IsBlockWrite f →
      (KeepsLengthRule minLen.toNat size.toNat a d w.mem
          (w.apply H (buildTable binds) ⟨f, num, .data d⟩).mem ↔
        (1 ≤ d.length → minLen.toNat ≤ d.length → d.length < size.toNat → 0 ∉ d →
          w.mem.load a (d.length + 1) = d ++ [0]) ∧
        (d.length = size.toNat → w.mem.load a size.toNat = d)) := by
  have hblock := isBlock_str num a minLen size
  constructor
  · intro msgs hrules
    have hfresh : s.paramList.Fresh := htbl ▸ fresh_buildTable binds
    have hlist := paramList_parseAll H hfresh msgs
    have hterm := length_storedString_lt (hrules.terminated msgs [] (List.append_nil _).symm)
    have hanswer := (answer_parse_iff (H := H) (by rw [hlist, htbl]; exact hbound) hblock
      size.toNat_lt (by omega) hmsg).mpr hhi
    -- the answer is the whole buffer
    rw [hrules.read] at hanswer
    have hdata := PerformBlock.data.inj (PerformEvent.mk.inj (List.cons.inj hanswer).1).2.2
    rw [hdata, Mem.length_load] at hterm
    exact Nat.lt_irrefl _ hterm
  · intro w f d hf
    have hmem := World.mem_apply_write (H := H) hbound hblock rfl hf d w
    rw [hmem]
    exact keepsLengthRule_iff

/-- A buffer of four bytes, bound as a string, that holds zeros. -/
def zeroString : BgcpState := ⟨.zero, .zero, buildTable [.str 5 (some 0) 0 4], fun _ => 0⟩

/-- The string rules for the buffer, under a message that writes two letters. -/
theorem strParam_never_two_letters :
    ¬StrRules (fun _ _ m => (m, [])) 5 0 4 0 zeroString [encode [.param .w 5 [0x61, 0x62]]]
      (encode [.param .r 5 []]) :=
  (@strParam_never (fun _ _ m => (m, [])) [.str 5 (some 0) 0 4] zeroString rfl 5 0 0 4
    (by decide) (by decide)
    (@BindCall.paramAt_run ParamList.zero (.str 5 (some 0) 0 4) (by decide)) _
    (by decide)).1 _

/-- Two letters that are written to the buffer are not stored. -/
theorem strParam_not_stored :
    ¬StrRules (fun _ _ m => (m, [])) 5 0 4 0 zeroString [encode [.param .w 5 [0x61, 0x62]]]
      (encode [.param .r 5 []]) := by
  intro h
  have hwrite := h.write [] _ [] rfl [] bgcpFuncW [0x61, 0x62] [] (by decide) (Or.inl rfl)
  exact absurd (hwrite.stores (by decide) (by decide) (by decide) (by decide)) (by decide)

end EspTesting.Bgcp
