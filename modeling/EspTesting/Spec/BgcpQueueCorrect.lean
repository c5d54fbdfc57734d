import EspTesting.ForStd.BoundedBuffer
import EspTesting.Spec.BgcpWire

/-!
# The request queue against the message format

What a caller sees of the queue is its running state and the bytes below its fill
level (`QueueView`); the bytes above it, which a reset leaves in the buffer, never come
back. Every push function is described on that view: it writes the pieces of its record
one after the other into a bounded buffer and takes over the new function and page
whether or not the pieces got in.
-/

namespace EspTesting.Bgcp

/-- What the queue functions depend on: the running state and the live bytes. -/
structure QueueView where
  curFunc : UInt8
  curPage : UInt8
  bytes : List UInt8
  deriving DecidableEq, Repr

namespace BGCPQueue

open BoundedBuffer

/-- The view of a queue. -/
def view (rq : BGCPQueue) : QueueView := ⟨rq.curFunc, rq.curPage, rq.bytes⟩

/-- The number of live bytes is `queue_size`. -/
@[simp] theorem length_bytes (rq : BGCPQueue) : rq.bytes.length = rq.queueSize := by
  have := rq.size_lt
  simp only [bytes, List.length_take, Vector.length_toList]
  omega

/-- No bytes are there exactly if the size is 0. -/
@[simp] theorem bytes_isEmpty (rq : BGCPQueue) : rq.bytes.isEmpty = (rq.queueSize == 0) := by
  rw [← rq.length_bytes]
  cases rq.bytes <;> simp

/-- A queue that is reset is empty. -/
@[simp] theorem bytes_resetReqQueue (rq : BGCPQueue) : rq.resetReqQueue.bytes = [] := rfl

/-! ### One piece -/

/-- Pushing bytes leaves the function. -/
@[simp] theorem curFunc_queuePushReqData (rq : BGCPQueue) (data : List UInt8) :
    (rq.queuePushReqData data).curFunc = rq.curFunc := by
  simp only [queuePushReqData]
  split <;> rfl

/-- Pushing bytes leaves the page. -/
@[simp] theorem curPage_queuePushReqData (rq : BGCPQueue) (data : List UInt8) :
    (rq.queuePushReqData data).curPage = rq.curPage := by
  simp only [queuePushReqData]
  split <;> rfl

/-- A piece is appended to the live bytes if it fits, else dropped. -/
@[simp] theorem bytes_queuePushReqData (rq : BGCPQueue) (data : List UInt8) :
    (rq.queuePushReqData data).bytes = append queueBufSize rq.bytes data := by
  simp only [queuePushReqData, append, length_bytes]
  by_cases h : queueBufSize > rq.queueSize + data.length
  · rw [dif_pos h, if_pos h]
    exact Vector.take_toList_writeAt rq.queueBuf data (Nat.le_of_lt h)
  · rw [dif_neg h, if_neg h]

/-! ### Records -/

private theorem view_setCurFunc (rq : BGCPQueue) (funcNum : UInt8) :
    view { rq with curFunc := funcNum } = ⟨funcNum, rq.curPage, rq.bytes⟩ := rfl

private theorem view_setCurPage (rq : BGCPQueue) (page : UInt8) :
    view { rq with curPage := page } = ⟨rq.curFunc, page, rq.bytes⟩ := rfl

/-- Pushing a function appends its pieces and makes it the current one. -/
theorem view_queuePushFuncNum (rq : BGCPQueue) (funcNum : UInt8) :
    (rq.queuePushFuncNum funcNum).view =
      ⟨funcNum, rq.curPage,
        appendAll queueBufSize rq.bytes (funcPieces rq.bytes.isEmpty rq.curFunc funcNum)⟩ := by
  by_cases hf : funcNum ≠ rq.curFunc
  · simp only [queuePushFuncNum, funcPieces]
    rw [if_pos hf, if_pos hf, view_setCurFunc]
    -- the command code is left out at the begin of the message
    by_cases hq : rq.queueSize = 0
    · simp only [hq, bytes_isEmpty, ne_eq, not_true_eq_false, if_false, beq_self_eq_true,
        if_true, curPage_queuePushReqData, bytes_queuePushReqData]
      rfl
    · simp only [hq, bytes_isEmpty, ne_eq, not_false_eq_true, if_true, beq_iff_eq, if_false,
        queuePushByte, curPage_queuePushReqData, bytes_queuePushReqData]
      rfl
  · simp only [queuePushFuncNum, funcPieces]
    rw [if_neg hf, if_neg hf, Decidable.not_not.mp hf]
    rfl

/-- Pushing a page appends its pieces and makes it the current one. -/
theorem view_queuePushPage (rq : BGCPQueue) (paramNum : UInt16) :
    (rq.queuePushPage paramNum).view =
      ⟨rq.curFunc, (paramNum >>> 8).toUInt8, appendAll queueBufSize rq.bytes
        (pagePieces rq.curPage (paramNum >>> 8).toUInt8)⟩ := by
  simp only [queuePushPage, pagePieces]
  by_cases hp : (paramNum >>> 8).toUInt8 ≠ rq.curPage
  · rw [if_pos hp, if_pos hp, view_setCurPage]
    simp only [queuePushByte, curFunc_queuePushReqData, bytes_queuePushReqData]
    rfl
  · rw [if_neg hp, if_neg hp, Decidable.not_not.mp hp]
    rfl

/-- The function and the page, which every record starts with. -/
theorem view_queuePushHeader (rq : BGCPQueue) (funcNum : UInt8) (paramNum : UInt16) :
    ((rq.queuePushFuncNum funcNum).queuePushPage paramNum).view =
      ⟨funcNum, (paramNum >>> 8).toUInt8, appendAll queueBufSize rq.bytes
        (funcPieces rq.bytes.isEmpty rq.curFunc funcNum ++
          pagePieces rq.curPage (paramNum >>> 8).toUInt8)⟩ := by
  have hfunc := rq.view_queuePushFuncNum funcNum
  simp only [view, QueueView.mk.injEq] at hfunc
  obtain ⟨hcurFunc, hcurPage, hbytes⟩ := hfunc
  rw [view_queuePushPage, hcurFunc, hcurPage, hbytes, appendAll_append]

/-- The pieces `queue_push_param_data` writes behind the function and the page. -/
def paramBody (paramNum : UInt16) (paramData : Option (List UInt8)) (size : UInt8) :
    List (List UInt8) :=
  (if size > 1 then [[bgcpCmdSize], [size]] else []) ++ [[paramNum.toUInt8]] ++
    (if size ≠ 0 then [(paramData.getD []).take size.toNat] else [])

/-- `queue_push_param_data` on the view. -/
theorem view_queuePushParamData (rq : BGCPQueue) (funcNum : UInt8) (paramNum : UInt16)
    (paramData : Option (List UInt8)) (size : UInt8) :
    (rq.queuePushParamData funcNum paramNum paramData size).view =
      if paramData = none ∧ size ≠ 0 then rq.view
      else ⟨funcNum, (paramNum >>> 8).toUInt8, appendAll queueBufSize rq.bytes
        (funcPieces rq.bytes.isEmpty rq.curFunc funcNum ++
          pagePieces rq.curPage (paramNum >>> 8).toUInt8 ++
          paramBody paramNum paramData size)⟩ := by
  simp only [queuePushParamData]
  -- a missing block that should have bytes: nothing is pushed
  by_cases hnull : paramData = none ∧ size ≠ 0
  · rw [if_pos hnull, if_pos hnull]
  · rw [if_neg hnull, if_neg hnull]
    have hheader := rq.view_queuePushHeader funcNum paramNum
    simp only [view, QueueView.mk.injEq] at hheader
    obtain ⟨hcurFunc, hcurPage, hbytes⟩ := hheader
    rw [appendAll_append, ← hbytes]
    simp only [paramBody, appendAll_append]
    by_cases hsize : size > 1 <;> by_cases hzero : size = 0 <;>
      simp [hsize, hzero, view, hcurFunc, hcurPage, queuePushByte, appendAll]

/-- `queue_push_no_sup_param` on the view. -/
theorem view_queuePushNoSupParam (rq : BGCPQueue) (paramNum : UInt16) :
    (rq.queuePushNoSupParam paramNum).view =
      ⟨bgcpFuncResp, (paramNum >>> 8).toUInt8, appendAll queueBufSize rq.bytes
        (funcPieces rq.bytes.isEmpty rq.curFunc bgcpFuncResp ++
          pagePieces rq.curPage (paramNum >>> 8).toUInt8 ++
          [[bgcpCmdNotSup], [paramNum.toUInt8]])⟩ := by
  have hheader := rq.view_queuePushHeader bgcpFuncResp paramNum
  simp only [view, QueueView.mk.injEq] at hheader
  obtain ⟨hcurFunc, hcurPage, hbytes⟩ := hheader
  rw [appendAll_append, ← hbytes]
  simp [queuePushNoSupParam, view, hcurFunc, hcurPage, queuePushByte, appendAll]

/-! ### Entries -/

/-- The call that pushes an entry. -/
def pushEntry (rq : BGCPQueue) : Entry → BGCPQueue
  | .param f n d =>
    if f.hasData then rq.queuePushParamData f.code n (some d) d.length.toUInt8
    else rq.queuePushParamReq f.code n
  | .notSup n => rq.queuePushNoSupParam n

/-- The calls that push a list of entries, in order. -/
def pushAll (rq : BGCPQueue) (es : List Entry) : BGCPQueue := es.foldl pushEntry rq

/-- Pushing a well-formed entry writes its pieces one after the other and takes over its
    function and page. -/
theorem view_pushEntry (rq : BGCPQueue) {e : Entry} (he : e.WellFormed) :
    (rq.pushEntry e).view = ⟨e.func.code, e.page, appendAll queueBufSize rq.bytes
      (e.pieces rq.bytes.isEmpty rq.curFunc rq.curPage)⟩ := by
  cases e with
  | notSup n => exact rq.view_queuePushNoSupParam n
  | param f n d =>
    obtain ⟨_, hd⟩ := he
    by_cases hf : f.hasData = true
    · rw [if_pos hf] at hd
      -- the length of a well-formed block fits a byte
      have hlen : d.length.toUInt8.toNat = d.length := by
        rw [Nat.toUInt8, UInt8.toNat_ofNat']
        omega
      -- the code and the grammar write the length in the same cases
      have hbody : paramBody n (some d) d.length.toUInt8 = (Entry.param f n d).bodyPieces := by
        have hgt : d.length.toUInt8 > 1 ↔ d.length > 1 := by
          rw [gt_iff_lt, UInt8.lt_iff_toNat_lt, hlen]
          rfl
        have hne : d.length.toUInt8 ≠ 0 ↔ d.length ≠ 0 := by
          rw [ne_eq, ← UInt8.toNat_inj, hlen]
          rfl
        simp only [paramBody, Entry.bodyPieces, hgt, hne, hlen, Option.getD_some,
          List.take_length]
      simp only [pushEntry, if_pos hf, view_queuePushParamData, reduceCtorEq, false_and, if_false,
        hbody]
      rfl
    · rw [if_neg hf] at hd
      subst hd
      simp only [pushEntry, if_neg hf, queuePushParamReq, view_queuePushParamData]
      rfl

/-- An entry that fits is appended as a whole. -/
theorem view_pushEntry_of_fits {rq : BGCPQueue} {e : Entry} (he : e.WellFormed)
    (hfit : rq.bytes.length + (e.encode rq.bytes.isEmpty rq.curFunc rq.curPage).length
      < queueBufSize) :
    (rq.pushEntry e).view = ⟨e.func.code, e.page,
      rq.bytes ++ e.encode rq.bytes.isEmpty rq.curFunc rq.curPage⟩ := by
  rw [view_pushEntry rq he, appendAll_of_fits hfit]
  rfl

/-- A list of entries that fits is appended as a whole, in the message format. -/
theorem bytes_pushAll_of_fits {rq : BGCPQueue} {es : List Entry}
    (hes : ∀ e ∈ es, e.WellFormed)
    (hfit : rq.bytes.length + (encodeFrom rq.bytes.isEmpty rq.curFunc rq.curPage es).length
      < queueBufSize) :
    (rq.pushAll es).bytes =
      rq.bytes ++ encodeFrom rq.bytes.isEmpty rq.curFunc rq.curPage es := by
  induction es generalizing rq with
  | nil => simp only [pushAll, List.foldl_nil, encodeFrom, List.append_nil]
  | cons e es ih =>
    simp only [encodeFrom, List.length_append] at hfit
    have hview := @view_pushEntry_of_fits rq e (hes e (List.mem_cons_self ..)) (by omega)
    simp only [view, QueueView.mk.injEq] at hview
    obtain ⟨hfunc, hpage, hbytes⟩ := hview
    -- the entries behind the first one are not the begin of the message
    have hne : (rq.pushEntry e).bytes.isEmpty = false := by
      rw [hbytes, List.isEmpty_eq_false_iff]
      exact List.append_ne_nil_of_right_ne_nil _ (e.encode_ne_nil _ _ _)
    have htail := @ih (rq.pushEntry e) (fun e' h => hes e' (List.mem_cons_of_mem _ h)) (by
      rw [hne, hfunc, hpage, hbytes, List.length_append]
      omega)
    rw [hne, hfunc, hpage, hbytes] at htail
    simp only [pushAll, List.foldl_cons, encodeFrom] at htail ⊢
    rw [htail, List.append_assoc]

/-- After a reset, the queue holds the message for the entries pushed. -/
theorem bytes_pushAll_reset {rq : BGCPQueue} {es : List Entry}
    (hes : ∀ e ∈ es, e.WellFormed) (hfit : (encode es).length < queueBufSize) :
    (rq.resetReqQueue.pushAll es).bytes = encode es := by
  apply bytes_pushAll_of_fits hes
  rw [bytes_resetReqQueue, List.length_nil, Nat.zero_add]
  exact hfit

end BGCPQueue

end EspTesting.Bgcp
