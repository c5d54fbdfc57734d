import EspTesting.Native.CJsonPrint
import EspTesting.Native.DeviceHttpServer

/-!
# JSON bodies as bytes

The handlers of `json_helper.c` on the bytes they receive and send: the body of a post goes
through `cJSON_Parse`, and the body of a get is what `cJSON_PrintUnformatted` prints.
-/

namespace EspTesting.CJson

open Http (cString JsonField JsonFieldType HttpServer httpGet)

variable {D : Type}

/-! ## Names -/

/-- The name of which these are the characters. -/
def byteName (bytes : List UInt8) : String := String.ofList (bytes.map fun b => Char.ofNat b.toNat)

/-! ## The body of a post -/

mutual

/-- What `json_post_handler` sees of an item. -/
def Item.toHttp : Item D → Http.CJson
  | ⟨type, valuestring, valueint, _, _, child⟩ =>
    match type with
    | .false => .bool false
    | .true => .bool true
    | .number => .number valueint.toInt
    -- `cJSON_IsString(item) && item->valuestring`
    | .string =>
      match valuestring with
      | some s => .string (cString s)
      | none => .null
    | .array => .array (elementsToHttp child)
    | .object => .object (membersToHttp child)
    | _ => .null

def elementsToHttp : List (Item D) → List Http.CJson
  | [] => []
  | item :: child => item.toHttp :: elementsToHttp child

/-- `cJSON_GetObjectItemCaseSensitive` does not look behind an item without a name. -/
def membersToHttp : List (Item D) → List (String × Http.CJson)
  | [] => []
  | item :: child =>
    match item.string with
    | none => []
    | some string => (byteName (cString string), item.toHttp) :: membersToHttp child

end

variable (F : Doubles D)

/-- `cJSON_Parse` in `json_post_handler`; `NULL` is `none`. -/
def parseBody (allocates : Nat → Bool) (body : List UInt8) : Option Http.CJson :=
  match cJsonParse F allocates body with
  | .ok item => some item.toHttp
  | .error _ => none

/-! ## The body of a get -/

/-- The item that `add_field_to_json` adds for a field. -/
def fieldItem (m : Mem) (type : JsonFieldType) (ptr : Nat) : Item D :=
  match type with
  | .int => createNumber F (F.ofInt (Int32.ofInt (Mem.leValue (m.load ptr 4))))
  | .bool => createBool F (m ptr != 0)
  | .str => createString F (m.load ptr (2 ^ 32 - ptr))

/-- One turn of the loop over the fields in `json_get_handler`. -/
def addField (m : Mem) (object : Item D) (field : JsonField) : Item D :=
  match field.ptr with
  | none => object
  | some ptr => object.addItemToObject (nameBytes field.name) (fieldItem F m field.type ptr)

/-- The C string `json_get_handler` sends for the fields; only the printer runs out of blocks. -/
def getBody (hooks : Hooks) (fields : List JsonField) (m : Mem) : Except Stop (List UInt8) :=
  (cJsonPrintUnformatted F hooks (fields.foldl (addField F m) (createObject F))).map cString

/-- The body of the answer to a get. -/
def serveGet (hooks : Hooks) (server : HttpServer) (uri : String) (m : Mem) :
    Option (Except Stop (List UInt8)) :=
  (server.find uri httpGet).map fun u => getBody F hooks (u.userCtx.slice server.jsonFields) m

end EspTesting.CJson
