import EspTesting.ForStd.Vector
import EspTesting.ForStd.Memory

/-!
# BGCP request queue

The buffer in which BGCP messages are put together (`bgcp_queue.c`), with the
protocol's command and function codes (`bgcp_protocol_const.h`). The queue writes
a function, page or block-size command only when the running state it keeps in
`curFunc` and `curPage` asks for one, and drops every piece that does not fit.
-/

namespace EspTesting.Bgcp

/-! ## Protocol constants -/

/-- `BGCP_CMD_PAGE` -/
abbrev bgcpCmdPage : UInt8 := 0xFF
/-- `BGCP_CMD_FUNC` -/
abbrev bgcpCmdFunc : UInt8 := 0xFC
/-- `BGCP_CMD_SIZE` -/
abbrev bgcpCmdSize : UInt8 := 0xFE
/-- `BGCP_CMD_NOT_SUP` -/
abbrev bgcpCmdNotSup : UInt8 := 0xFD

/-- `BGCP_FUNC_R` -/
abbrev bgcpFuncR : UInt8 := 1
/-- `BGCP_FUNC_W` -/
abbrev bgcpFuncW : UInt8 := 2
/-- `BGCP_FUNC_RW` -/
abbrev bgcpFuncRw : UInt8 := 3
/-- `BGCP_FUNC_INC_RW` -/
abbrev bgcpFuncIncRw : UInt8 := 4
/-- `BGCP_FUNC_DEC_RW` -/
abbrev bgcpFuncDecRw : UInt8 := 5
/-- `BGCP_FUNC_RESP` -/
abbrev bgcpFuncResp : UInt8 := 6

/-- `NO_FUNC` -/
abbrev noFunc : UInt8 := 0

/-- `QUEUE_BUF_SIZE` -/
abbrev queueBufSize : Nat := 512

/-! ## The queue -/

/-- `BGCPQueue`. The fill level is a `uint16_t`; the overflow check keeps it below
    the buffer size, which the last field records. -/
structure BGCPQueue where
  curFunc : UInt8
  curPage : UInt8
  queueSize : Nat
  queueBuf : Vector UInt8 queueBufSize
  size_lt : queueSize < queueBufSize

namespace BGCPQueue

/-- The static `rq` before the first call: all zero. -/
def zero : BGCPQueue where
  curFunc := 0
  curPage := 0
  queueSize := 0
  queueBuf := Vector.replicate _ 0
  size_lt := by decide

/-- `reset_req_queue`. The buffer keeps its old bytes. -/
def resetReqQueue (rq : BGCPQueue) : BGCPQueue :=
  { rq with curPage := 0, curFunc := 0, queueSize := 0, size_lt := by decide }

/-- The message a caller reads through `get_req_queue_data` and
    `get_req_queue_size`. -/
def bytes (rq : BGCPQueue) : List UInt8 := rq.queueBuf.toList.take rq.queueSize

/-- `queue_push_req_data`: copy the `size` bytes at `data` behind the queue if they fit. -/
def queuePushReqData (rq : BGCPQueue) (data : List UInt8) : BGCPQueue :=
  if h : queueBufSize > rq.queueSize + data.length then
    { rq with
      queueBuf := rq.queueBuf.writeAt rq.queueSize data
      queueSize := rq.queueSize + data.length
      size_lt := h }
  else rq

/-- `queue_push_byte` -/
def queuePushByte (rq : BGCPQueue) (data : UInt8) : BGCPQueue :=
  rq.queuePushReqData [data]

/-- `queue_push_func_num` -/
def queuePushFuncNum (rq : BGCPQueue) (funcNum : UInt8) : BGCPQueue :=
  if funcNum ≠ rq.curFunc then
    -- the first byte of a message is a function without its command
    let rq := if rq.queueSize ≠ 0 then rq.queuePushByte bgcpCmdFunc else rq
    let rq := rq.queuePushReqData [funcNum]
    -- taken over even if the bytes did not fit
    { rq with curFunc := funcNum }
  else rq

/-- `queue_push_page` -/
def queuePushPage (rq : BGCPQueue) (paramNum : UInt16) : BGCPQueue :=
  let page := (paramNum >>> 8).toUInt8
  if page ≠ rq.curPage then
    let rq := rq.queuePushByte bgcpCmdPage
    let rq := rq.queuePushReqData [page]
    -- taken over even if the bytes did not fit
    { rq with curPage := page }
  else rq

/-- `queue_push_param_data`. `paramData` holds the bytes behind the data pointer,
    `none` for `NULL`. -/
def queuePushParamData (rq : BGCPQueue) (funcNum : UInt8) (paramNum : UInt16)
    (paramData : Option (List UInt8)) (size : UInt8) : BGCPQueue :=
  if paramData = none ∧ size ≠ 0 then rq
  else
    let paramLbyte := paramNum.toUInt8
    let rq := rq.queuePushFuncNum funcNum
    let rq := rq.queuePushPage paramNum
    let rq :=
      -- one byte is the size a reader expects
      if size > 1 then (rq.queuePushByte bgcpCmdSize).queuePushReqData [size] else rq
    let rq := rq.queuePushReqData [paramLbyte]
    if size ≠ 0 then rq.queuePushReqData ((paramData.getD []).take size.toNat) else rq

/-- `queue_push_param_req` -/
def queuePushParamReq (rq : BGCPQueue) (funcNum : UInt8) (paramNum : UInt16) : BGCPQueue :=
  rq.queuePushParamData funcNum paramNum none 0

/-- `queue_push_param_uint16_t_data` -/
def queuePushParamUint16TData (rq : BGCPQueue) (funcNum : UInt8) (paramNum : UInt16)
    (paramData : UInt16) : BGCPQueue :=
  rq.queuePushParamData funcNum paramNum (some (Mem.leBytes 2 paramData.toNat)) 2

/-- `queue_push_param_uint8_t_data` -/
def queuePushParamUint8TData (rq : BGCPQueue) (funcNum : UInt8) (paramNum : UInt16)
    (paramData : UInt8) : BGCPQueue :=
  rq.queuePushParamData funcNum paramNum (some [paramData]) 1

/-- `queue_push_no_sup_param` -/
def queuePushNoSupParam (rq : BGCPQueue) (paramNum : UInt16) : BGCPQueue :=
  let rq := rq.queuePushFuncNum bgcpFuncResp
  let rq := rq.queuePushPage paramNum
  let rq := rq.queuePushByte bgcpCmdNotSup
  rq.queuePushByte paramNum.toUInt8

/-- A call the application makes to the queue, with its arguments. -/
inductive Call where
  | reset
  | paramData (funcNum : UInt8) (paramNum : UInt16) (paramData : Option (List UInt8))
      (size : UInt8)
  | paramReq (funcNum : UInt8) (paramNum : UInt16)
  | paramUint16TData (funcNum : UInt8) (paramNum : UInt16) (paramData : UInt16)
  | paramUint8TData (funcNum : UInt8) (paramNum : UInt16) (paramData : UInt8)
  | noSupParam (paramNum : UInt16)
  deriving DecidableEq, Repr

/-- The queue after a call. -/
def call (rq : BGCPQueue) : Call → BGCPQueue
  | .reset => rq.resetReqQueue
  | .paramData func num data size => rq.queuePushParamData func num data size
  | .paramReq func num => rq.queuePushParamReq func num
  | .paramUint16TData func num data => rq.queuePushParamUint16TData func num data
  | .paramUint8TData func num data => rq.queuePushParamUint8TData func num data
  | .noSupParam num => rq.queuePushNoSupParam num

end BGCPQueue

end EspTesting.Bgcp
