import EspTesting.Native.BgcpQueue

/-!
# BGCP parameter table

The table that ties parameter numbers to variables of the application
(`bgcp_param_table.c`), the `bind_*` functions that fill it
(`bgcp_data_descriptor.c`) and the list of handlers per data type.

Variables live in a byte memory and are named by their address; `none` stands for a
`NULL` pointer. The functions an application passes to `set_action_param` are code
outside the component: a parameter only stores which one (`HandlerPtr`), and what it
does is a parameter of the parser.
-/

namespace EspTesting.Bgcp

/-- `PARAM_NUM` -/
abbrev paramNumMax : Nat := 15

/-- `NO_PARAM` -/
abbrev noParam : UInt16 := 0

/-- `PARAM_TYPE_*`, in the order of the enumeration. -/
inductive DataType where
  | type8B
  | type16B
  | type1B
  | typeBin
  | typeConstBin
  | typeStr
  | type8BRange
  | typeAction
  | typeUnknown
  deriving DecidableEq, Repr

/-- A pointer to a handler the application wrote. -/
abbrev HandlerPtr := Nat

/-- What `data_update_func` may point to. -/
inductive UpdateFunc where
  | updateUint8T
  | updateUint16T
  | updateBoolDataType
  | updateBinDataType
  | updateStrDataType
  | updateRangeData
  | custom (f : HandlerPtr)
  deriving DecidableEq, Repr

/-- What `resp_func` may point to. -/
inductive RespFunc where
  | sendUint8T
  | sendUint16T
  | sendBoolDataType
  | sendBinDataType
  | sendStrDataType
  | custom (f : HandlerPtr)
  deriving DecidableEq, Repr

/-- `Descriptors`; `none` is a `NULL` function pointer. -/
structure Descriptors where
  dataUpdateFunc : Option UpdateFunc
  respFunc : Option RespFunc
  deriving DecidableEq, Repr

/-- `NumDescription` -/
structure NumDescription where
  min : Int
  max : Int
  deriving DecidableEq, Repr

/-- `ValidatorData`: the list of valid values; `list_len` is its length. -/
structure ValidatorData where
  validValuesList : List UInt8
  deriving DecidableEq, Repr

/-- The union inside `Param`. Every function that sets the type of a parameter also
    sets the member that belongs to it. -/
inductive ParamUnion where
  | description (d : NumDescription)
  | dascriptors (d : Descriptors)
  | validator (d : ValidatorData)
  deriving DecidableEq, Repr

/-- `Param` -/
structure Param where
  paramNum : UInt16
  dataType : DataType
  linkedData : Option Nat
  timeUpdate : UInt32
  data : ParamUnion
  deriving DecidableEq, Repr

/-- A slot of the zero-initialised `param_list`: number `NO_PARAM`, type code 0. -/
def Param.zero : Param where
  paramNum := noParam
  dataType := .type8B
  linkedData := none
  timeUpdate := 0
  data := .description ⟨0, 0⟩

/-- `param_list` -/
abbrev ParamList := Vector Param paramNumMax

/-- The static `param_list` before the first bind. -/
def ParamList.zero : ParamList := Vector.replicate _ Param.zero

/-! ## Descriptors of the built-in types -/

/-- `data_type_descriptor_list` -/
def dataTypeDescriptorList : List (DataType × Descriptors) := [
  (.type1B, ⟨some .updateBoolDataType, some .sendBoolDataType⟩),
  (.typeBin, ⟨some .updateBinDataType, some .sendBinDataType⟩),
  (.typeConstBin, ⟨none, some .sendBinDataType⟩),
  (.typeStr, ⟨some .updateStrDataType, some .sendStrDataType⟩),
  (.type8BRange, ⟨some .updateRangeData, some .sendUint8T⟩),
  (.type8B, ⟨some .updateUint8T, some .sendUint8T⟩),
  (.type16B, ⟨some .updateUint16T, some .sendUint16T⟩)]

/-- `get_descriptors_of_data_type` -/
def getDescriptorsOfDataType (dataType : DataType) : Option Descriptors :=
  (dataTypeDescriptorList.find? fun d => d.1 = dataType).map Prod.snd

/-- `get_param_data_processor` -/
def getParamDataProcessor (param : Param) : Option Descriptors :=
  if param.dataType = .typeAction then
    match param.data with
    | .dascriptors d => some d
    | _ => none
  else getDescriptorsOfDataType param.dataType

/-! ## Lookup and binding -/

/-- `get_param`: the first slot with this number. -/
def getParam (paramList : ParamList) (paramNum : UInt16) : Option (Fin paramNumMax) :=
  (List.finRange paramNumMax).find? fun i => (paramList.get i).paramNum = paramNum

/-- The slot a bind call fills: the one with this number, else the first free one. -/
def bindSlot (paramList : ParamList) (paramNum : UInt16) : Option (Fin paramNumMax) :=
  match getParam paramList paramNum with
  | some i => some i
  | none => getParam paramList noParam

/-- `set_num_param` -/
def setNumParam (paramList : ParamList) (paramNum : UInt16) (dataType : DataType)
    (linkedData : Option Nat) (min max : Int) : Bool × ParamList :=
  -- the type of an action parameter belongs to `set_action_param`
  if dataType = .typeAction then (false, paramList)
  else match bindSlot paramList paramNum with
  | none => (false, paramList)
  | some i => (true, paramList.set i
      { paramNum, dataType, linkedData, timeUpdate := 0, data := .description ⟨min, max⟩ } i.isLt)

/-- `set_action_param`. The handlers are functions of the application. -/
def setActionParam (paramList : ParamList) (paramNum : UInt16) (linkedData : Option Nat)
    (dataUpdateFunc respFunc : Option HandlerPtr) : Bool × ParamList :=
  match bindSlot paramList paramNum with
  | none => (false, paramList)
  | some i => (true, paramList.set i
      { paramNum, dataType := .typeAction, linkedData, timeUpdate := 0
        data := .dascriptors ⟨dataUpdateFunc.map .custom, respFunc.map .custom⟩ } i.isLt)

/-- `bind_ranked_param` -/
def bindRankedParam (paramList : ParamList) (paramNum : UInt16) (linkedData : Option Nat)
    (validValues : List UInt8) : Bool × ParamList :=
  match bindSlot paramList paramNum with
  | none => (false, paramList)
  | some i => (true, paramList.set i
      { paramNum, dataType := .type8BRange, linkedData, timeUpdate := 0
        data := .validator ⟨validValues⟩ } i.isLt)

/-- `bind_str_param` -/
def bindStrParam (paramList : ParamList) (paramNum : UInt16) (stringBuf : Option Nat)
    (minDataLen bufSize : UInt16) : Bool × ParamList :=
  -- the source binds strings with the binary type
  setNumParam paramList paramNum .typeBin stringBuf minDataLen.toNat bufSize.toNat

/-- `bind_const_param` -/
def bindConstParam (paramList : ParamList) (paramNum : UInt16) (linkedDataBuf : Option Nat)
    (dataSize : UInt16) : Bool × ParamList :=
  setNumParam paramList paramNum .typeConstBin linkedDataBuf 0 dataSize.toNat

/-- `bind_binary_param` -/
def bindBinaryParam (paramList : ParamList) (paramNum : UInt16) (linkedData : Option Nat)
    (dataSize : UInt16) : Bool × ParamList :=
  setNumParam paramList paramNum .typeBin linkedData 0 dataSize.toNat

/-- `bind_bool_param` -/
def bindBoolParam (paramList : ParamList) (paramNum : UInt16) (boolData : Option Nat) :
    Bool × ParamList :=
  -- the limits of a bool are not used
  setNumParam paramList paramNum .type1B boolData 2 0

/-- `bind_cmd_param` -/
def bindCmdParam (paramList : ParamList) (paramNum : UInt16) (executor : Option HandlerPtr) :
    Bool × ParamList :=
  setActionParam paramList paramNum none executor none

/-- `bind_resp_param` -/
def bindRespParam (paramList : ParamList) (paramNum : UInt16) (responder : Option HandlerPtr) :
    Bool × ParamList :=
  setActionParam paramList paramNum none none responder

/-- `bind_uint8_t_param` -/
def bindUint8TParam (paramList : ParamList) (paramNum : UInt16) (linkedData : Option Nat)
    (min max : UInt8) : Bool × ParamList :=
  setNumParam paramList paramNum .type8B linkedData min.toNat max.toNat

/-- `bind_uint16_t_param` -/
def bindUint16TParam (paramList : ParamList) (paramNum : UInt16) (linkedData : Option Nat)
    (min max : UInt16) : Bool × ParamList :=
  setNumParam paramList paramNum .type16B linkedData min.toNat max.toNat

/-- One call of a binding function, with its arguments. -/
inductive BindCall where
  | uint8T (paramNum : UInt16) (linkedData : Option Nat) (min max : UInt8)
  | uint16T (paramNum : UInt16) (linkedData : Option Nat) (min max : UInt16)
  | bool (paramNum : UInt16) (boolData : Option Nat)
  | binary (paramNum : UInt16) (linkedData : Option Nat) (dataSize : UInt16)
  | const (paramNum : UInt16) (linkedDataBuf : Option Nat) (dataSize : UInt16)
  | str (paramNum : UInt16) (stringBuf : Option Nat) (minDataLen bufSize : UInt16)
  | ranked (paramNum : UInt16) (linkedData : Option Nat) (validValues : List UInt8)
  | cmd (paramNum : UInt16) (executor : Option HandlerPtr)
  | resp (paramNum : UInt16) (responder : Option HandlerPtr)
  | action (paramNum : UInt16) (linkedData : Option Nat)
      (dataUpdateFunc respFunc : Option HandlerPtr)
  deriving DecidableEq, Repr

/-- The result of a bind call and the table it leaves. -/
def BindCall.run (paramList : ParamList) : BindCall → Bool × ParamList
  | uint8T num linked min max => bindUint8TParam paramList num linked min max
  | uint16T num linked min max => bindUint16TParam paramList num linked min max
  | bool num linked => bindBoolParam paramList num linked
  | binary num linked size => bindBinaryParam paramList num linked size
  | const num linked size => bindConstParam paramList num linked size
  | str num linked min size => bindStrParam paramList num linked min size
  | ranked num linked values => bindRankedParam paramList num linked values
  | cmd num executor => bindCmdParam paramList num executor
  | resp num responder => bindRespParam paramList num responder
  | action num linked updateFunc respFunc =>
    setActionParam paramList num linked updateFunc respFunc

/-- The table a sequence of bind calls builds from the zero-initialised one. -/
def buildTable (calls : List BindCall) : ParamList :=
  calls.foldl (fun paramList call => (call.run paramList).2) ParamList.zero

end EspTesting.Bgcp
