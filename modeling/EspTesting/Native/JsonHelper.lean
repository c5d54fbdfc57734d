import EspTesting.ForStd.Memory
import EspTesting.Native.EspErr

/-!
# JSON endpoints

The tables of fields and endpoints (`json_static_config.c`) and the two generic request
handlers that load and store the fields of an endpoint (`json_helper.c`).

Fields live in a byte memory and are named by their address; `none` stands for a `NULL`
pointer. cJSON and the HTTP server are code outside the component: `cJSON_Parse` is a
parameter of the post handler, and what `cJSON_PrintUnformatted` prints is represented by
the object printed.
-/

namespace EspTesting.Http

/-! ## cJSON -/

/-- A parsed `cJSON` item. -/
inductive CJson where
  | null
  | bool (value : Bool)
  | number (valueint : Int)
  | string (valuestring : List UInt8)
  | array (items : List CJson)
  | object (members : List (String × CJson))

/-- `cJSON_GetObjectItemCaseSensitive` -/
def CJson.getObjectItem (json : CJson) (name : String) : Option CJson :=
  match json with
  | .object members => members.lookup name
  | _ => none

/-! ## Fields and endpoints -/

/-- `HTTP_GET` -/
abbrev httpGet : Int := 1
/-- `HTTP_POST` -/
abbrev httpPost : Int := 3

/-- `json_field_type_t` -/
inductive JsonFieldType where
  | int
  | bool
  | str
  deriving DecidableEq, Repr

/-- `json_field_t`. A stored name is never `NULL`: `add_json_field` refuses it. -/
structure JsonField where
  name : String
  ptr : Option Nat
  maxLen : UInt32
  type : JsonFieldType
  deriving DecidableEq, Repr

/-- `json_http_handler_t`; `fields` is the index of its first field in the table. -/
structure JsonHttpHandler where
  uri : String
  method : Int
  fields : Nat
  fieldCount : Nat
  deriving DecidableEq, Repr

/-- The fields `post_handler->fields[0 .. field_count)` of a handler. -/
def JsonHttpHandler.slice (handler : JsonHttpHandler) (data : List JsonField) :
    List JsonField :=
  (data.drop handler.fields).take handler.fieldCount

/-- `json_field_cfg_t`; `data` holds the `count` fields stored. -/
structure JsonFieldCfg where
  data : List JsonField
  capacity : Nat
  startDataIndx : Nat
  updateLast : Bool
  deriving DecidableEq, Repr

/-- The `count` of a `json_field_cfg_t`. -/
abbrev JsonFieldCfg.count (cfg : JsonFieldCfg) : Nat := cfg.data.length

/-- `json_config_t`; `data` holds the `count` endpoints stored. -/
structure JsonConfig where
  data : List JsonHttpHandler
  capacity : Nat
  deriving DecidableEq, Repr

/-- The `count` of a `json_config_t`. -/
abbrev JsonConfig.count (cnf : JsonConfig) : Nat := cnf.data.length

/-- `INIT_JSON_CFG` for the table of fields. -/
def JsonFieldCfg.init (members : Nat) : JsonFieldCfg := ⟨[], members, 0, false⟩

/-- `INIT_JSON_CFG` for the table of endpoints. -/
def JsonConfig.init (members : Nat) : JsonConfig := ⟨[], members⟩

/-- `add_json_field`. It does not set `max_len`, which is zero in the static table. -/
def addJsonField (cfg : JsonFieldCfg) (fieldName : String) (type : JsonFieldType)
    (ptr : Option Nat) : Bool × JsonFieldCfg :=
  if ptr = none then (false, cfg)
  else if cfg.count ≥ cfg.capacity then (false, cfg)
  else
    let cfg :=
      -- the first field behind an endpoint starts a new group
      if cfg.updateLast then { cfg with startDataIndx := cfg.count, updateLast := false }
      else cfg
    (true, { cfg with data := cfg.data ++ [⟨fieldName, ptr, 0, type⟩] })

/-- `add_json_endpoint` -/
def addJsonEndpoint (cnf : JsonConfig) (uri : String) (method : Int)
    (fieldCfg : JsonFieldCfg) : Bool × JsonConfig × JsonFieldCfg :=
  if cnf.count ≥ cnf.capacity then (false, cnf, fieldCfg)
  -- an endpoint without fields
  else if fieldCfg.count = fieldCfg.startDataIndx then (false, cnf, fieldCfg)
  else
    let handler : JsonHttpHandler :=
      { uri, method, fields := fieldCfg.startDataIndx
        fieldCount := fieldCfg.count - fieldCfg.startDataIndx }
    (true, { cnf with data := cnf.data ++ [handler] }, { fieldCfg with updateLast := true })

/-! ## The URI table of the server -/

/-- The request handlers `register_json_handler` chooses from. -/
inductive UriHandlerFn where
  | jsonPostHandler
  | jsonGetHandler
  deriving DecidableEq, Repr

/-- `httpd_uri_t` -/
structure HttpdUri where
  uri : String
  method : Int
  handler : UriHandlerFn
  userCtx : JsonHttpHandler
  deriving DecidableEq, Repr

/-- `httpd_register_uri_handler`: a server refuses a second handler for a URI and method,
    and any handler beyond `max_uri_handlers`. -/
def httpdRegisterUriHandler (maxUriHandlers : Nat) (server : List HttpdUri)
    (uriHandler : HttpdUri) : EspErr × List HttpdUri :=
  if server.any fun u => u.uri = uriHandler.uri && u.method = uriHandler.method then
    (espErrHttpdHandlerExists, server)
  else if server.length ≥ maxUriHandlers then (espErrHttpdHandlersFull, server)
  else (espOk, server ++ [uriHandler])

/-- `register_json_handler` -/
def registerJsonHandler (maxUriHandlers : Nat) (server : List HttpdUri)
    (handler : JsonHttpHandler) : EspErr × List HttpdUri :=
  if handler.fieldCount ≤ 0 || (handler.method != httpPost && handler.method != httpGet) then
    (espErrInvalidArg, server)
  else
    httpdRegisterUriHandler maxUriHandlers server
      { uri := handler.uri, method := handler.method
        handler := if handler.method = httpPost then .jsonPostHandler else .jsonGetHandler
        userCtx := handler }

/-! ## Requests and responses -/

/-- `httpd_req_t`: the declared length and the bytes `httpd_req_recv` puts into the buffer,
    none if it fails. -/
structure HttpdReq where
  contentLen : Nat
  received : List UInt8
  deriving DecidableEq, Repr

/-- `httpd_err_code_t`, the codes used here. -/
inductive HttpdErrCode where
  | httpd400BadRequest
  | httpd500InternalServerError
  deriving DecidableEq, Repr

/-- The response sent. `printed` is a JSON body, given by the object it is printed from. -/
inductive HttpdResp where
  | err (code : HttpdErrCode) (msg : Option String)
  | text (type : String) (body : String)
  | printed (type : String) (json : CJson)

/-- `JSON_MAX_SIZE` -/
abbrev jsonMaxSize : Nat := 512

/-- The C string in front of the first zero byte. -/
def cString (bytes : List UInt8) : List UInt8 := bytes.takeWhile (· != 0)

/-- The bytes `strncpy` writes. -/
def strncpy (src : List UInt8) (n : Nat) : List UInt8 := (src ++ List.replicate n 0).take n

/-- The store for an item of the type of its field; an item of another type is skipped. -/
def storeItem (m : Mem) (field : JsonField) (ptr : Nat) (item : CJson) : Mem :=
  match field.type, item with
  | .int, .number valueint => m.store ptr (Mem.leBytes 4 (valueint % 2 ^ 32).toNat)
  | .bool, .bool value => m.store ptr [if value then 1 else 0]
  | .str, .string valuestring =>
    -- `max_len - 1` wraps if `max_len` is zero
    let last := (field.maxLen - 1).toNat
    (m.store ptr (strncpy valuestring last)).store (ptr + last) [0]
  | _, _ => m

/-- One turn of the loop over the fields in `json_post_handler`. -/
def postField (json : CJson) (m : Mem) (field : JsonField) : Mem :=
  match field.ptr with
  | none => m
  | some ptr =>
    match json.getObjectItem field.name with
    | none => m
    | some item => storeItem m field ptr item

/-- `json_post_handler` on the fields of the endpoint. -/
def jsonPostHandler (cJsonParse : List UInt8 → Option CJson) (fields : List JsonField)
    (req : HttpdReq) (m : Mem) : Mem × EspErr × HttpdResp :=
  if req.contentLen = 0 then (m, espFail, .err .httpd400BadRequest none)
  else if req.contentLen > jsonMaxSize - 1 then (m, espFail, .err .httpd400BadRequest none)
  else
    -- one call of `httpd_req_recv`, for at most the declared length
    let netBuf := req.received.take req.contentLen
    if netBuf.length ≤ 0 then
      (m, espFail, .err .httpd400BadRequest (some "Receive failed"))
    else
      match cJsonParse (cString netBuf) with
      | none => (m, espFail, .err .httpd400BadRequest (some "JSON parse error"))
      | some json => (fields.foldl (postField json) m, espOk, .text "text/plain" "OK")

/-- The item `add_field_to_json` adds for a field. A string ends at the latest with the
    address space. -/
def addFieldToJson (m : Mem) (field : JsonField) (ptr : Nat) : CJson :=
  match field.type with
  | .int => .number ((Mem.leValue (m.load ptr 4) : Int).bmod (2 ^ 32))
  | .bool => .bool (m ptr != 0)
  | .str => .string (cString (m.load ptr (2 ^ 32 - ptr)))

/-- `json_get_handler` on the fields of the endpoint; no allocation fails. -/
def jsonGetHandler (fields : List JsonField) (m : Mem) : EspErr × HttpdResp :=
  let members := fields.filterMap fun field =>
    field.ptr.map fun ptr => (field.name, addFieldToJson m field ptr)
  (espOk, .printed "application/json" (.object members))

end EspTesting.Http
