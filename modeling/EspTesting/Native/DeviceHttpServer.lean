import EspTesting.Native.JsonHelper

/-!
# The JSON interface of the device

`register_json_api_handlers` (`device_http_server.c`) and the part of `device_data_t`
(`comm_types.h`) it points into: `device` is the address of the record, and the offsets are
those of a 32-bit target with 4-byte `int` and pointers and 1-byte `bool`.
-/

namespace EspTesting.Http

/-- `JSON_HANDLERS_NUM` -/
abbrev jsonHandlersNum : Nat := 15
/-- `JSON_FIELD_NUM` -/
abbrev jsonFieldNum : Nat := 25
/-- `STATIC_URI_NUM` -/
abbrev staticUriNum : Nat := 8
/-- `HANDLERS_NUM` -/
abbrev handlersNum : Nat := jsonHandlersNum + staticUriNum

/-! ## Layout of `device_data_t` -/

/-- The members of `device_status_t` the interface uses. -/
inductive DeviceStatus where
  | humidity
  | motion
  | lt1
  | lt2
  | fanSpeed
  | info
  | title
  | adminEn
  deriving DecidableEq, Repr

/-- The address of `device->status.m`; `status` is the first member of the record. -/
def DeviceStatus.addr (device : Nat) : DeviceStatus → Nat
  | humidity => device
  | motion => device + 4
  | lt1 => device + 5
  | lt2 => device + 6
  | fanSpeed => device + 8
  | info => device + 12
  | title => device + 16
  | adminEn => device + 20

/-- The members of `device_conf_t`, a `uint8_t` or a `bool` each. -/
inductive DeviceConf where
  | speed1
  | speed2
  | offTimer
  | onTimer
  | interTimer
  | motionEn
  | humidity
  | wifiEn
  deriving DecidableEq, Repr

/-- The address of `device->config.m`; `config` follows the 24 bytes of `status`. -/
def DeviceConf.addr (device : Nat) : DeviceConf → Nat
  | speed1 => device + 24
  | speed2 => device + 25
  | offTimer => device + 26
  | onTimer => device + 27
  | interTimer => device + 28
  | motionEn => device + 29
  | humidity => device + 30
  | wifiEn => device + 31

/-- A pointer stored in memory. -/
def loadPtr (m : Mem) (a : Nat) : Option Nat :=
  match Mem.leValue (m.load a 4) with
  | 0 => none
  | ptr => some ptr

/-! ## Registration -/

/-- The two tables `register_json_api_handlers` fills; it ignores what the calls return. -/
structure JsonApi where
  jsonFieldsCfg : JsonFieldCfg
  jsonCfg : JsonConfig
  deriving DecidableEq, Repr

/-- `add_json_field(&json_fields_cfg, ..)` -/
def JsonApi.field (api : JsonApi) (name : String) (type : JsonFieldType)
    (ptr : Option Nat) : JsonApi :=
  { api with jsonFieldsCfg := (addJsonField api.jsonFieldsCfg name type ptr).2 }

/-- `add_json_endpoint(&json_cfg, .., &json_fields_cfg)` -/
def JsonApi.endpoint (api : JsonApi) (uri : String) (method : Int) : JsonApi :=
  let (_, jsonCfg, jsonFieldsCfg) :=
    addJsonEndpoint api.jsonCfg uri method api.jsonFieldsCfg
  { jsonFieldsCfg, jsonCfg }

/-- The endpoint `/status`. `info` and `title` are the pointers the status holds. -/
def addStatusEndpoint (m : Mem) (device : Nat) (api : JsonApi) : JsonApi :=
  api.field "humidity_cur" .int (some (DeviceStatus.humidity.addr device))
    |>.field "motion_cur" .bool (some (DeviceStatus.motion.addr device))
    |>.field "lt1" .bool (some (DeviceStatus.lt1.addr device))
    |>.field "lt2" .bool (some (DeviceStatus.lt2.addr device))
    |>.field "fan_speed" .int (some (DeviceStatus.fanSpeed.addr device))
    |>.field "admin" .bool (some (DeviceStatus.adminEn.addr device))
    |>.field "info" .str (loadPtr m (DeviceStatus.info.addr device))
    |>.field "title" .str (loadPtr m (DeviceStatus.title.addr device))
    |>.endpoint "/status" httpGet

/-- The endpoints on `device->config`. -/
def addConfigEndpoints (device : Nat) (api : JsonApi) : JsonApi :=
  api.field "wifi_en" .bool (some (DeviceConf.wifiEn.addr device))
    |>.endpoint "/wifi" httpPost
    |>.endpoint "/wifi" httpGet
    |>.field "off_timer" .int (some (DeviceConf.offTimer.addr device))
    |>.field "on_timer" .int (some (DeviceConf.onTimer.addr device))
    |>.endpoint "/timers" httpGet
    |>.endpoint "/timers" httpPost
    |>.field "speed1" .int (some (DeviceConf.speed1.addr device))
    |>.field "speed2" .int (some (DeviceConf.speed2.addr device))
    |>.endpoint "/speed" httpGet
    |>.endpoint "/speed" httpPost
    |>.field "inter_timer" .int (some (DeviceConf.interTimer.addr device))
    |>.endpoint "/interval" httpGet
    |>.endpoint "/interval" httpPost
    |>.field "motion_en" .bool (some (DeviceConf.motionEn.addr device))
    |>.endpoint "/motion" httpGet
    |>.endpoint "/motion" httpPost
    |>.field "humidity" .int (some (DeviceConf.humidity.addr device))
    |>.endpoint "/humidity" httpGet
    |>.endpoint "/humidity" httpPost

/-- What the server keeps: the table of fields and the registered handlers. -/
structure HttpServer where
  jsonFields : List JsonField
  handlers : List HttpdUri
  deriving DecidableEq, Repr

/-- `register_json_api_handlers` on a server without handlers, with the status pointers of
    the memory `m`. -/
def registerJsonApiHandlers (m : Mem) (device : Nat) : HttpServer :=
  let api := addConfigEndpoints device
    (addStatusEndpoint m device ⟨.init jsonFieldNum, .init jsonHandlersNum⟩)
  { jsonFields := api.jsonFieldsCfg.data
    handlers := api.jsonCfg.data.foldl
      (fun server handler => (registerJsonHandler handlersNum server handler).2) [] }

/-! ## Serving requests -/

/-- The handler the server calls for a request. -/
def HttpServer.find (server : HttpServer) (uri : String) (method : Int) : Option HttpdUri :=
  -- the first handler registered for the URI and the method
  server.handlers.find? fun u => u.uri = uri && u.method = method

/-- A request to the server: the memory afterwards, the handler's result and the response. -/
def HttpServer.serve (cJsonParse : List UInt8 → Option CJson) (server : HttpServer)
    (uri : String) (method : Int) (req : HttpdReq) (m : Mem) :
    Option (Mem × EspErr × HttpdResp) :=
  (server.find uri method).map fun u =>
    match u.handler with
    | .jsonPostHandler =>
      jsonPostHandler cJsonParse (u.userCtx.slice server.jsonFields) req m
    | .jsonGetHandler => (m, jsonGetHandler (u.userCtx.slice server.jsonFields) m)

end EspTesting.Http
