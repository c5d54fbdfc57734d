import EspTesting.ForStd.Loop
import EspTesting.Native.BgcpParamTable

/-!
# BGCP parser

The parser of BGCP messages (`bgcp_data_processor.c`) and the update and response
handlers of the built-in parameter types (`bgcp_data_descriptor.c`).

Pointers into the message are offsets from its start. The static variables of the
component (parser, response queue, parameter table) and the memory that holds the
linked variables are passed as one state. Each call of `parse` also keeps a log, which
no function reads: the perform steps it made, the message bytes it read and the blocks
its handlers wrote to linked variables.
-/

namespace EspTesting.Bgcp

/-- `GET_TIME()` -/
abbrev getTime : UInt32 := 0

/-- `DEFAULT_DATA_BLOCK_SIZE` -/
abbrev defaultDataBlockSize : Nat := 1

/-- `OFF` -/
abbrev off : UInt8 := 0
/-- `ON` -/
abbrev on : UInt8 := 1
/-- `SWITCH` -/
abbrev switch : UInt8 := 2

/-! ## State -/

/-- The data block a perform step works on. -/
inductive PerformBlock where
  /-- the parameter came with the not-supported mark -/
  | notSupported
  /-- `check_data_in` refused the block -/
  | refused
  /-- the bytes of the block -/
  | data (bytes : List UInt8)
  deriving DecidableEq, Repr

/-- One call of `perform`: the function in force, the full parameter number, the block. -/
structure PerformEvent where
  funcNum : UInt8
  paramNum : UInt16
  block : PerformBlock
  deriving DecidableEq, Repr

/-- A built-in handler stored `len` bytes at `dest`, the linked data of `paramNum`. -/
structure WriteEvent where
  paramNum : UInt16
  dest : Nat
  len : Nat
  deriving DecidableEq, Repr

/-- The log of one call of `parse`, oldest entry first. -/
structure ParseLog where
  performs : List PerformEvent
  reads : List Nat
  writes : List WriteEvent
  deriving DecidableEq, Repr

/-- `ParserData`, without the fields only the debug build reads. -/
structure ParserData where
  dataIn : Nat
  dataInEnd : Nat
  page : UInt8
  funcNum : UInt8
  incVal : Int
  setedDataSize : Nat
  inDataSize : Nat
  inVal : Option Nat
  param : Option (Fin paramNumMax)
  log : ParseLog
  deriving DecidableEq, Repr

/-- The static `parser` before the first call. -/
def ParserData.zero : ParserData where
  dataIn := 0
  dataInEnd := 0
  page := 0
  funcNum := noFunc
  incVal := 0
  setedDataSize := 0
  inDataSize := 0
  inVal := none
  param := none
  log := ⟨[], [], []⟩

/-- The static state of the component and the memory of the linked variables. -/
structure BgcpState where
  parser : ParserData
  rq : BGCPQueue
  paramList : ParamList
  mem : Mem

/-- The static state before the first call, with the variables in `mem`. -/
def BgcpState.boot (mem : Mem) : BgcpState := ⟨.zero, .zero, .zero, mem⟩

/-- What a handler of the application gets from `get_param_num`, `get_linked_data` and
    `copy_input_data`. -/
structure HandlerInput where
  paramNum : UInt16
  linkedData : Option Nat
  input : Option (List UInt8)

/-- A handler of the application: the memory it leaves and the blocks it passes to
    `write_response`. -/
abbrev Handler := HandlerInput → Mem → Mem × List (List UInt8)

/-- The application's handlers. -/
abbrev Handlers := HandlerPtr → Handler

/-- `is_write_func` -/
def isWriteFunc (funcNum : UInt8) : Bool := funcNum ≠ bgcpFuncR && funcNum ≠ noFunc

/-- `is_read_func` -/
def isReadFunc (funcNum : UInt8) : Bool :=
  funcNum = bgcpFuncR || funcNum = bgcpFuncRw || funcNum = bgcpFuncDecRw ||
    funcNum = bgcpFuncIncRw

/-- The functions whose parameters carry a data block. -/
def hasDataBlock (funcNum : UInt8) : Bool :=
  funcNum = bgcpFuncRw || funcNum = bgcpFuncW || funcNum = bgcpFuncResp

/-- `is_valid_func` of `set_new_func` -/
def isValidFunc (func : UInt8) : Bool :=
  func = bgcpFuncR || func = bgcpFuncRw || func = bgcpFuncDecRw || func = bgcpFuncIncRw ||
    func = bgcpFuncResp || func = bgcpFuncW

/-! ## Reading commands -/

namespace ParserData

/-- `read_byte` -/
def readByte (msg : List UInt8) (p : ParserData) : UInt8 × ParserData :=
  -- behind the end of the message every byte is zero
  if p.dataIn ≥ p.dataInEnd then (0, p)
  else (msg.getD p.dataIn 0, { p with
    dataIn := p.dataIn + 1
    log := { p.log with reads := p.log.reads ++ [p.dataIn] } })

/-- `set_default_block_size` -/
def setDefaultBlockSize (p : ParserData) : ParserData :=
  { p with setedDataSize := if hasDataBlock p.funcNum then defaultDataBlockSize else 0 }

/-- `set_data_size` -/
def setDataSize (msg : List UInt8) (p : ParserData) : ParserData :=
  let (blockSize, p) := p.readByte msg
  -- the size byte is read even where it is not used
  if hasDataBlock p.funcNum then { p with setedDataSize := blockSize.toNat } else p

/-- `set_new_page` -/
def setNewPage (msg : List UInt8) (p : ParserData) : ParserData :=
  let (page, p) := p.readByte msg
  { p with page }

/-- `set_new_func` -/
def setNewFunc (msg : List UInt8) (p : ParserData) : Bool × ParserData :=
  let (func, p) := p.readByte msg
  let incVal : Int :=
    if func = bgcpFuncDecRw then -1 else if func = bgcpFuncIncRw then 1 else 0
  -- an unknown code leaves no function in force
  let funcNum := if isValidFunc func then func else noFunc
  (isValidFunc func, { p with incVal, funcNum }.setDefaultBlockSize)

/-- `link_data` -/
def linkData (p : ParserData) : ParserData :=
  let p := if hasDataBlock p.funcNum then { p with inVal := some p.dataIn } else p
  -- the size is stored even where no block is linked
  { p with inDataSize := p.setedDataSize }

/-- `check_data_in` -/
def checkDataIn (p : ParserData) : Bool :=
  if p.funcNum = noFunc then false
  else if p.dataInEnd < p.dataIn + p.setedDataSize then false
  else true

/-- `reset_param_data` -/
def resetParamData (p : ParserData) : ParserData :=
  { p with param := none, inDataSize := 0, inVal := none }

/-- `get_input_data_size`, a `uint8_t`. -/
def getInputDataSize (p : ParserData) : Nat :=
  match p.inVal with
  | none => 0
  | some _ => p.inDataSize % 256

/-- The bytes `copy_input_data` copies, `none` if it copies nothing. -/
def copyInputData (msg : List UInt8) (p : ParserData) : Option (List UInt8) × ParserData :=
  match p.inVal with
  | none => (none, p)
  | some inVal =>
    if p.inDataSize = 0 then (none, p)
    else (some ((msg.drop inVal).take p.inDataSize), { p with
      log := { p.log with reads := p.log.reads ++ List.range' inVal p.inDataSize } })

end ParserData

/-! ## Access to the current parameter -/

namespace BgcpState

/-- `parser.param`, followed into the table. -/
def curParam (s : BgcpState) : Option Param := s.parser.param.map fun i => (s.paramList.get i)

/-- `get_linked_data` -/
def getLinkedData (s : BgcpState) : Option Nat :=
  match s.curParam with
  | some param => param.linkedData
  | none => none

/-- `get_param_num` -/
def getParamNum (s : BgcpState) : UInt16 :=
  match s.curParam with
  | some param => param.paramNum
  | none => noParam

/-- `get_inc_val` -/
def getIncVal (s : BgcpState) : Int :=
  match s.curParam with
  | some param => if param.dataType = .typeAction then 0 else s.parser.incVal
  | none => 0

/-- The limits `get_min_num_param_val` and `get_max_num_param_val` read. -/
def getDescription (s : BgcpState) : NumDescription :=
  match s.curParam with
  | some { data := .description d, .. } => d
  | _ => ⟨0, 0⟩

/-- `get_min_num_param_val` -/
def getMinNumParamVal (s : BgcpState) : Int := s.getDescription.min

/-- `get_max_num_param_val` -/
def getMaxNumParamVal (s : BgcpState) : Int := s.getDescription.max

/-- `get_valid_val_list`, with `get_valid_val_list_len` as its length. -/
def getValidValList (s : BgcpState) : List UInt8 :=
  match s.curParam with
  | some { dataType := .type8BRange, data := .validator v, .. } => v.validValuesList
  | _ => []

/-- `copy_input_data`, reading through the parser. -/
def copyInputData (msg : List UInt8) (s : BgcpState) : Option (List UInt8) × BgcpState :=
  let (bytes, parser) := s.parser.copyInputData msg
  (bytes, { s with parser })

/-- A handler's store to the linked variable at `dest`. -/
def storeLinked (s : BgcpState) (dest : Nat) (bytes : List UInt8) : BgcpState :=
  { s with
    mem := s.mem.store dest bytes
    parser.log.writes := s.parser.log.writes ++ [⟨s.getParamNum, dest, bytes.length⟩] }

/-! ## Update handlers -/

/-- Conversion of an `int` to the unsigned type of `size` bytes. -/
def toUnsigned (size : Nat) (v : Int) : Nat := (v % (256 ^ size : Nat)).toNat

/-- `SET_FUNC_NAME(type)`, for the unsigned type of `size` bytes. -/
def updateNum (size : Nat) (msg : List UInt8) (s : BgcpState) : BgcpState :=
  match s.getLinkedData with
  | none => s
  | some val =>
    -- limits and step are converted to the type of the variable
    let maxVal := toUnsigned size s.getMaxNumParamVal
    let minVal := toUnsigned size s.getMinNumParamVal
    let incVal := toUnsigned size s.getIncVal
    if incVal ≠ 0 then
      let newVal := (Mem.leValue (s.mem.load val size) + incVal) % 256 ^ size
      s.storeLinked val (Mem.leBytes size
        -- a step past a limit goes on at the other one
        (if newVal > maxVal then minVal else if newVal < minVal then maxVal else newVal))
    else if s.parser.getInputDataSize = size then
      match s.copyInputData msg with
      | (none, s) => s
      | (some bytes, s) =>
        let newVal := Mem.leValue bytes
        s.storeLinked val (Mem.leBytes size
          -- a value beyond a limit becomes the limit
          (if newVal > maxVal then maxVal else if newVal < minVal then minVal else newVal))
    else s

/-- `update_uint8_t` -/
def updateUint8T : List UInt8 → BgcpState → BgcpState := updateNum 1

/-- `update_uint16_t` -/
def updateUint16T : List UInt8 → BgcpState → BgcpState := updateNum 2

/-- `update_bool_data_type` -/
def updateBoolDataType (msg : List UInt8) (s : BgcpState) : BgcpState :=
  match s.getLinkedData with
  | none => s
  | some val =>
    if s.parser.getInputDataSize = 1 then
      match s.copyInputData msg with
      | (none, s) => s
      | (some bytes, s) =>
        let inData := bytes.headD 0
        if inData = switch then s.storeLinked val [if s.mem val = 0 then 1 else 0]
        else if inData = off then s.storeLinked val [0]
        else if inData = on then s.storeLinked val [1]
        else s
    else s

/-- `seek_val_in_range_list`: the index of the first entry equal to `val`. -/
def seekValInRangeList (val : UInt8) (validValuesList : List UInt8) : Option Nat :=
  validValuesList.findIdx? (· = val)

/-- `update_range_data` -/
def updateRangeData (msg : List UInt8) (s : BgcpState) : BgcpState :=
  let validValuesList := s.getValidValList
  match s.getLinkedData with
  | none => s
  | some linkedVal =>
    if s.parser.getInputDataSize = 1 then
      match s.copyInputData msg with
      | (none, s) => s
      | (some bytes, s) =>
        let newVal := bytes.headD 0
        match seekValInRangeList newVal validValuesList with
        | some _ => s.storeLinked linkedVal [newVal]
        | none => s
    else
      let inc := s.getIncVal
      if inc = 1 ∨ inc = -1 then
        match seekValInRangeList (s.mem linkedVal) validValuesList with
        | none => s
        | some idx =>
          -- a step past an end of the list is not made
          let next : Int := idx + inc
          if next ≥ 0 ∧ next ≤ (validValuesList.length : Int) - 1 then
            s.storeLinked linkedVal [validValuesList.getD next.toNat 0]
          else s
      else s

/-- `update_bin_data_type`. Copying to a `NULL` buffer is undefined behaviour in C; here it
    leaves the memory alone. -/
def updateBinDataType (msg : List UInt8) (s : BgcpState) : BgcpState :=
  if (s.parser.getInputDataSize : Int) = s.getMaxNumParamVal then
    match s.copyInputData msg with
    | (none, s) => s
    | (some bytes, s) =>
      match s.getLinkedData with
      | none => s
      | some dest => s.storeLinked dest bytes
  else s

/-- `update_str_data_type`. No `bind_*` function makes a parameter of this type. -/
def updateStrDataType (msg : List UInt8) (s : BgcpState) : BgcpState :=
  let len := s.parser.getInputDataSize
  if len < toUnsigned 4 s.getMaxNumParamVal ∧ len ≥ toUnsigned 4 s.getMinNumParamVal then
    match s.getLinkedData with
    | none => s
    | some dataBuf =>
      let s := match s.copyInputData msg with
        | (none, s) => s
        | (some bytes, s) => s.storeLinked dataBuf bytes
      -- the zero is stored whether or not there was something to copy
      s.storeLinked (dataBuf + len) [0]
  else s

/-- What an application's handler of the current parameter is called with. -/
def handlerInput (msg : List UInt8) (s : BgcpState) : HandlerInput × BgcpState :=
  let (input, s') := s.copyInputData msg
  (⟨s.getParamNum, s.getLinkedData, input⟩, s')

/-! ## Response handlers -/

/-- `write_response`. The size is a `uint8_t`. -/
def writeResponse (s : BgcpState) (data : Option (List UInt8)) (size : UInt8) : BgcpState :=
  { s with rq := s.rq.queuePushParamData bgcpFuncResp s.getParamNum data size }

/-- Answer with the first `size` bytes of the linked variable. -/
def sendLinked (s : BgcpState) (size : Nat) : BgcpState :=
  s.writeResponse (s.getLinkedData.map fun a => s.mem.load a (size % 256)) size.toUInt8

/-- `send_uint8_t` -/
def sendUint8T (s : BgcpState) : BgcpState := s.sendLinked 1

/-- `send_uint16_t` -/
def sendUint16T (s : BgcpState) : BgcpState := s.sendLinked 2

/-- `send_bool_data_type` -/
def sendBoolDataType (s : BgcpState) : BgcpState := s.sendLinked 1

/-- `send_bin_data_type` -/
def sendBinDataType (s : BgcpState) : BgcpState := s.sendLinked (toUnsigned 4 s.getMaxNumParamVal)

/-- `strlen`, within the address space. -/
def strlen (mem : Mem) : Nat → Nat → Nat
  | 0, _ => 0
  | fuel + 1, a => if mem a = 0 then 0 else 1 + strlen mem fuel (a + 1)

/-- `send_str_data_type` -/
def sendStrDataType (s : BgcpState) : BgcpState :=
  match s.getLinkedData with
  | none => s
  | some a => s.sendLinked (strlen s.mem (2 ^ 32) a)

/-! ## Processing a parameter -/

variable (H : Handlers) (msg : List UInt8)

/-- Call the application's handler `f`. -/
def callHandler (f : HandlerPtr) (s : BgcpState) : BgcpState :=
  let (input, s) := s.handlerInput msg
  let (mem, blocks) := H f input s.mem
  blocks.foldl (fun s block => s.writeResponse (some block) block.length.toUInt8) { s with mem }

/-- Call the update handler `f`. -/
def callUpdateFunc (f : UpdateFunc) (s : BgcpState) : BgcpState :=
  match f with
  | .updateUint8T => updateUint8T msg s
  | .updateUint16T => updateUint16T msg s
  | .updateBoolDataType => updateBoolDataType msg s
  | .updateBinDataType => updateBinDataType msg s
  | .updateStrDataType => updateStrDataType msg s
  | .updateRangeData => updateRangeData msg s
  | .custom f => callHandler H msg f s

/-- Call the response handler `f`. -/
def callRespFunc (f : RespFunc) (s : BgcpState) : BgcpState :=
  match f with
  | .sendUint8T => s.sendUint8T
  | .sendUint16T => s.sendUint16T
  | .sendBoolDataType => s.sendBoolDataType
  | .sendBinDataType => s.sendBinDataType
  | .sendStrDataType => s.sendStrDataType
  | .custom f => callHandler H msg f s

/-- `if(need && func) func()` -/
def callIf {σ φ : Type} (need : Bool) (func : Option φ) (call : φ → σ → σ) (s : σ) : σ :=
  match need, func with
  | true, some f => call f s
  | _, _ => s

/-- `data_processing` -/
def dataProcessing (needUpdateLocalData needResponse : Bool) (s : BgcpState) : BgcpState :=
  match s.curParam.bind getParamDataProcessor with
  | none => s
  | some funcs =>
    let s := callIf needUpdateLocalData funcs.dataUpdateFunc (callUpdateFunc H msg) s
    callIf needResponse funcs.respFunc (callRespFunc H msg) s

/-- `update_param_data_lifetime` -/
def updateParamDataLifetime (curTime : UInt32) (s : BgcpState) : BgcpState :=
  match s.parser.param with
  | none => s
  | some i =>
    if isWriteFunc s.parser.funcNum then
      { s with
        paramList := s.paramList.set i { (s.paramList.get i) with timeUpdate := curTime } i.isLt }
    else s

/-- The second half of `perform`, behind the parameter number: look the parameter up,
    process it and move on to the next command. -/
def performParam (paramNum : UInt16) (performProcessing : Bool) (block : PerformBlock)
    (s : BgcpState) : BgcpState :=
  let needUpdateLocalData := isWriteFunc s.parser.funcNum
  let needResponse := isReadFunc s.parser.funcNum
  let param := getParam s.paramList paramNum
  let log := { s.parser.log with
    performs := s.parser.log.performs ++ [⟨s.parser.funcNum, paramNum, block⟩] }
  let s := { s with parser := { s.parser with param, log } }
  let s := match param with
    | none =>
      -- no parameter has this number
      if needResponse then { s with rq := s.rq.queuePushNoSupParam paramNum } else s
    | some _ =>
      if performProcessing then
        dataProcessing H msg needUpdateLocalData needResponse
          { s with parser := s.parser.linkData }
      else s
  { s with
    -- the block is skipped whether or not it was processed
    parser := { s.parser with
      dataIn := s.parser.dataIn + s.parser.setedDataSize }.setDefaultBlockSize }

/-- `perform` -/
def perform (byte : UInt8) (s : BgcpState) : BgcpState :=
  if byte = bgcpCmdNotSup then
    -- the number follows the mark, and no block follows the number
    let (paramNumLbyte, p) := s.parser.readByte msg
    performParam H msg ((p.page.toUInt16 <<< 8) ||| paramNumLbyte.toUInt16) false .notSupported
      { s with parser := { p with setedDataSize := 0 } }
  else
    let performProcessing := s.parser.checkDataIn
    performParam H msg ((s.parser.page.toUInt16 <<< 8) ||| byte.toUInt16) performProcessing
      (if performProcessing then
        .data ((msg.drop s.parser.dataIn).take s.parser.setedDataSize)
      else .refused) s

/-! ## The parser loop -/

/-- One iteration of the loop of `parse`. -/
def parseStep (s : BgcpState) : BgcpState :=
  let (byte, parser) := s.parser.readByte msg
  let s := { s with parser }
  if byte = bgcpCmdPage then { s with parser := s.parser.setNewPage msg }
  else if byte = bgcpCmdFunc then { s with parser := (s.parser.setNewFunc msg).2 }
  else if byte = bgcpCmdSize then { s with parser := s.parser.setDataSize msg }
  else
    let s := (s.perform H msg byte).updateParamDataLifetime getTime
    { s with parser := s.parser.resetParamData }

/-- The loop condition of `parse`. -/
def parseCond (s : BgcpState) : Bool := s.parser.dataIn < s.parser.dataInEnd

/-- The message bytes still unread. -/
def parseMeasure (s : BgcpState) : Nat := s.parser.dataInEnd - s.parser.dataIn

/-- The first command of `parse`: whether it names a function, and the parser after it. -/
def beginParse (s : BgcpState) : Bool × ParserData :=
  { s.parser with
    dataIn := 0, dataInEnd := msg.length, page := 0, log := ⟨[], [], []⟩ }.setNewFunc msg

/-- The state in which the loop of `parse` starts. -/
def loopStart (s : BgcpState) : BgcpState :=
  { s with
    parser := (s.beginParse msg).2.resetParamData
    rq := s.rq.resetReqQueue }

/-- `parse` -/
def parse (s : BgcpState) : BgcpState :=
  -- the early return leaves the response queue as it was
  if !(s.beginParse msg).1 then { s with parser := (s.beginParse msg).2 }
  else Loop.run parseCond (parseStep H msg) parseMeasure (s.loopStart msg)

end BgcpState

end EspTesting.Bgcp
