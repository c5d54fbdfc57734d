import EspTesting.Native.DeviceHttpServer

/-!
# The endpoints of the device

What `register_json_api_handlers` leaves in the server: whatever the status pointers are,
each handler that stores fields works on a slice of the fields of `device->config`, and a
`GET` handler with the same slice is registered under the same URI.

## Key results

- `registerJsonApiHandlers_eq`: the table of fields and the registered handlers
- `find_post`: the slice of a `POST` handler, and the `GET` handler beside it
-/

namespace EspTesting.Http

/-! ## The fields of `device->config` -/

/-- The name a member of `device->config` has in a JSON body. -/
def DeviceConf.name : DeviceConf → String
  | speed1 => "speed1"
  | speed2 => "speed2"
  | offTimer => "off_timer"
  | onTimer => "on_timer"
  | interTimer => "inter_timer"
  | motionEn => "motion_en"
  | humidity => "humidity"
  | wifiEn => "wifi_en"

/-- The type under which a member of `device->config` is loaded and stored. -/
def DeviceConf.type : DeviceConf → JsonFieldType
  | motionEn | wifiEn => .bool
  | _ => .int

/-- The field of a member of `device->config`. -/
def DeviceConf.field (device : Nat) (c : DeviceConf) : JsonField :=
  ⟨c.name, some (c.addr device), 0, c.type⟩

/-- The fields of `device->config`, in the order in which they are added. -/
def configFields (device : Nat) : List JsonField :=
  [DeviceConf.wifiEn, .offTimer, .onTimer, .speed1, .speed2, .interTimer, .motionEn,
    .humidity].map (DeviceConf.field device)

/-- The endpoints on `device->config`, whose fields stand from index `n` on. -/
def configEndpoints (n : Nat) : List JsonHttpHandler :=
  [⟨"/wifi", httpPost, n, 1⟩, ⟨"/wifi", httpGet, n, 1⟩,
    ⟨"/timers", httpGet, n + 1, 2⟩, ⟨"/timers", httpPost, n + 1, 2⟩,
    ⟨"/speed", httpGet, n + 3, 2⟩, ⟨"/speed", httpPost, n + 3, 2⟩,
    ⟨"/interval", httpGet, n + 5, 1⟩, ⟨"/interval", httpPost, n + 5, 1⟩,
    ⟨"/motion", httpGet, n + 6, 1⟩, ⟨"/motion", httpPost, n + 6, 1⟩,
    ⟨"/humidity", httpGet, n + 7, 1⟩, ⟨"/humidity", httpPost, n + 7, 1⟩]

theorem DeviceConf.addr_injective (device : Nat) : Function.Injective (DeviceConf.addr device) := by
  intro c d h
  cases c <;> cases d <;> simp only [DeviceConf.addr] at h <;> first | rfl | omega

theorem DeviceConf.name_injective : Function.Injective DeviceConf.name := by
  intro c d h
  cases c <;> cases d <;> first | rfl | exact absurd h (by decide)

/-! ## Adding fields and endpoints -/

variable {cfg : JsonFieldCfg} {cnf : JsonConfig} {name uri : String} {type : JsonFieldType}
  {ptr : Nat} {method : Int}

/-- The first field behind an endpoint starts a new slice. -/
theorem field_of_updateLast {data : List JsonField} {capacity start : Nat}
    (h : data.length < capacity) :
    JsonApi.field ⟨⟨data, capacity, start, true⟩, cnf⟩ name type (some ptr) =
      ⟨⟨data ++ [⟨name, some ptr, 0, type⟩], capacity, data.length, false⟩, cnf⟩ := by
  simp only [JsonApi.field, addJsonField, JsonFieldCfg.count, reduceCtorEq, if_false,
    if_neg (Nat.not_le.mpr h), if_true]

/-- A further field joins the slice. -/
theorem field_of_not_updateLast {data : List JsonField} {capacity start : Nat}
    (h : data.length < capacity) :
    JsonApi.field ⟨⟨data, capacity, start, false⟩, cnf⟩ name type (some ptr) =
      ⟨⟨data ++ [⟨name, some ptr, 0, type⟩], capacity, start, false⟩, cnf⟩ := by
  simp only [JsonApi.field, addJsonField, JsonFieldCfg.count, reduceCtorEq, if_false,
    if_neg (Nat.not_le.mpr h), Bool.false_eq_true]

/-- A field without a pointer is not added. -/
theorem field_none (api : JsonApi) : api.field name type none = api := rfl

/-- An endpoint takes the fields from the start index on. -/
theorem endpoint_eq {data : List JsonField} {endpoints : List JsonHttpHandler}
    {capacity room start : Nat} {updateLast : Bool} (hroom : endpoints.length < room)
    (hfields : start < data.length) :
    JsonApi.endpoint ⟨⟨data, capacity, start, updateLast⟩, ⟨endpoints, room⟩⟩ uri method =
      ⟨⟨data, capacity, start, true⟩,
        ⟨endpoints ++ [⟨uri, method, start, data.length - start⟩], room⟩⟩ := by
  simp only [JsonApi.endpoint, addJsonEndpoint, JsonConfig.count, if_neg (Nat.not_le.mpr hroom),
    JsonFieldCfg.count, if_neg (Nat.ne_of_gt hfields)]

/-- The endpoint `/status` takes one to eight fields, the first ones of the table. -/
theorem addStatusEndpoint_eq (m : Mem) (device : Nat) :
    ∃ fields : List JsonField, 0 < fields.length ∧ fields.length ≤ 8 ∧
      addStatusEndpoint m device ⟨.init jsonFieldNum, .init jsonHandlersNum⟩ =
        ⟨⟨fields, jsonFieldNum, 0, true⟩,
          ⟨[⟨"/status", httpGet, 0, fields.length⟩], jsonHandlersNum⟩⟩ := by
  unfold addStatusEndpoint JsonFieldCfg.init JsonConfig.init
  -- `info` and `title` are added if their pointers are set
  cases loadPtr m (DeviceStatus.info.addr device) <;>
    cases loadPtr m (DeviceStatus.title.addr device) <;>
    simp (disch := simp [jsonFieldNum, jsonHandlersNum]) only [field_none,
      field_of_not_updateLast, endpoint_eq, List.cons_append, List.nil_append] <;>
    exact ⟨_, by simp, by simp, rfl⟩

/-- Behind `/status`, the fields and endpoints of `device->config` all find room. -/
theorem addConfigEndpoints_eq {fields : List JsonField} (device : Nat)
    (status : JsonHttpHandler) (h : fields.length ≤ 8) :
    ∃ start, addConfigEndpoints device
        ⟨⟨fields, jsonFieldNum, 0, true⟩, ⟨[status], jsonHandlersNum⟩⟩ =
      ⟨⟨fields ++ configFields device, jsonFieldNum, start, true⟩,
        ⟨status :: configEndpoints fields.length, jsonHandlersNum⟩⟩ := by
  refine ⟨fields.length + 7, ?_⟩
  unfold addConfigEndpoints
  simp (disch := (simp [jsonFieldNum, jsonHandlersNum] <;> omega)) only
    [field_of_updateLast, field_of_not_updateLast,
    endpoint_eq, List.append_assoc, List.cons_append, List.nil_append]
  simp [configFields, configEndpoints, DeviceConf.field, DeviceConf.name, DeviceConf.type]

/-! ## Registering the handlers -/

/-- The entry `register_json_handler` makes for an endpoint. -/
def JsonHttpHandler.toHttpdUri (handler : JsonHttpHandler) : HttpdUri :=
  { uri := handler.uri, method := handler.method
    handler := if handler.method = httpPost then .jsonPostHandler else .jsonGetHandler
    userCtx := handler }

/-- What tells the handlers of a server apart. -/
abbrev JsonHttpHandler.key (handler : JsonHttpHandler) : String × Int :=
  (handler.uri, handler.method)

/-- `register_json_handler` accepts the endpoint. -/
def JsonHttpHandler.Accepted (handler : JsonHttpHandler) : Prop :=
  0 < handler.fieldCount ∧ (handler.method = httpPost ∨ handler.method = httpGet)

/-- An endpoint with a new key is registered while there is room. -/
theorem registerJsonHandler_eq {room : Nat} {handlers : List JsonHttpHandler}
    {handler : JsonHttpHandler} (hok : handler.Accepted)
    (hnew : handler.key ∉ handlers.map JsonHttpHandler.key) (hroom : handlers.length < room) :
    (registerJsonHandler room (handlers.map JsonHttpHandler.toHttpdUri) handler).2 =
      (handlers ++ [handler]).map JsonHttpHandler.toHttpdUri := by
  have hchecks : (handler.fieldCount ≤ 0 ||
      (handler.method != httpPost && handler.method != httpGet)) = false := by
    obtain ⟨hcount, hmethod⟩ := hok
    rw [decide_eq_false (by omega)]
    cases hmethod with
    | inl h => simp only [h, bne_self_eq_false, Bool.false_and, Bool.or_self]
    | inr h => simp only [h, bne_self_eq_false, Bool.and_false, Bool.or_self]
  -- no handler is registered for the URI and the method
  have hexists : (handlers.map JsonHttpHandler.toHttpdUri).any
      (fun u => u.uri = handler.uri && u.method = handler.method) = false := by
    rw [List.any_eq_false]
    intro u hu
    obtain ⟨other, hother, rfl⟩ := List.mem_map.mp hu
    intro heq
    rw [Bool.and_eq_true, decide_eq_true_eq, decide_eq_true_eq] at heq
    exact hnew (List.mem_map.mpr ⟨other, hother, Prod.ext heq.1 heq.2⟩)
  unfold registerJsonHandler httpdRegisterUriHandler
  simp only [hchecks, hexists, Bool.false_eq_true, if_false, List.length_map,
    if_neg (Nat.not_le.mpr hroom), List.map_append, List.map_cons, List.map_nil,
    JsonHttpHandler.toHttpdUri]

/-- Endpoints with keys of their own are all registered while there is room. -/
theorem registerAll_eq {room : Nat} (handlers todo : List JsonHttpHandler)
    (hok : ∀ handler ∈ todo, handler.Accepted)
    (hkeys : ((handlers ++ todo).map JsonHttpHandler.key).Nodup)
    (hroom : handlers.length + todo.length ≤ room) :
    todo.foldl (fun server handler => (registerJsonHandler room server handler).2)
      (handlers.map JsonHttpHandler.toHttpdUri) =
        (handlers ++ todo).map JsonHttpHandler.toHttpdUri := by
  induction todo generalizing handlers with
  | nil => rw [List.append_nil, List.foldl_nil]
  | cons handler todo ih =>
    -- the key of the next endpoint differs from those registered
    have hnew : handler.key ∉ handlers.map JsonHttpHandler.key := by
      rw [List.map_append, List.nodup_append] at hkeys
      intro hmem
      exact hkeys.2.2 _ hmem _ (List.mem_cons_self ..) rfl
    rw [List.length_cons] at hroom
    rw [List.foldl_cons, registerJsonHandler_eq (hok _ (List.mem_cons_self ..)) hnew (by omega),
      ih (handlers ++ [handler]) (fun h hh => hok h (List.mem_cons_of_mem _ hh)),
      List.append_assoc, List.singleton_append]
    · rwa [List.append_assoc, List.singleton_append]
    · rw [List.length_append, List.length_singleton]
      omega

/-- The endpoints of the device. -/
def deviceEndpoints (n : Nat) : List JsonHttpHandler :=
  ⟨"/status", httpGet, 0, n⟩ :: configEndpoints n

theorem nodup_key_deviceEndpoints (n : Nat) :
    ((deviceEndpoints n).map JsonHttpHandler.key).Nodup := by
  show (((deviceEndpoints 0).map JsonHttpHandler.key)).Nodup
  decide

theorem accepted_deviceEndpoints {n : Nat} (hpos : 0 < n) :
    ∀ handler ∈ deviceEndpoints n, handler.Accepted := by
  simp [deviceEndpoints, configEndpoints, JsonHttpHandler.Accepted, hpos]

/-- An endpoint that stores fields has its slice behind the status fields, and is there for
    loading as well. -/
theorem post_deviceEndpoints {n : Nat} {post : JsonHttpHandler}
    (hmem : post ∈ deviceEndpoints n) (hmethod : post.method = httpPost) :
    (∃ k, post.fields = n + k) ∧ { post with method := httpGet } ∈ deviceEndpoints n := by
  simp only [deviceEndpoints, configEndpoints, List.mem_cons, List.not_mem_nil, or_false] at hmem
  rcases hmem with rfl | rfl | rfl | rfl | rfl | rfl | rfl | rfl | rfl | rfl | rfl | rfl | rfl
  -- the endpoints for loading are excluded by their method
  all_goals first
    | exact absurd (show httpGet = httpPost from hmethod) (by decide)
    | exact ⟨⟨0, rfl⟩, by simp [deviceEndpoints, configEndpoints]⟩
    | exact ⟨⟨_, rfl⟩, by simp [deviceEndpoints, configEndpoints]⟩

/-- The fields of `device->config` stand behind those of the status, and every endpoint is
    registered. -/
theorem registerJsonApiHandlers_eq (m : Mem) (device : Nat) :
    ∃ fields : List JsonField, registerJsonApiHandlers m device =
      { jsonFields := fields ++ configFields device
        handlers := (deviceEndpoints fields.length).map JsonHttpHandler.toHttpdUri } := by
  obtain ⟨fields, hpos, hlen, hstatus⟩ := addStatusEndpoint_eq m device
  obtain ⟨start, hconfig⟩ :=
    addConfigEndpoints_eq device ⟨"/status", httpGet, 0, fields.length⟩ hlen
  refine ⟨fields, ?_⟩
  unfold registerJsonApiHandlers
  rw [hstatus, hconfig]
  have hall := registerAll_eq [] (deviceEndpoints fields.length) (accepted_deviceEndpoints hpos)
    (nodup_key_deviceEndpoints _) (show 0 + 13 ≤ handlersNum by decide)
  rw [HttpServer.mk.injEq]
  exact ⟨rfl, hall⟩

/-! ## Finding a handler -/

/-- A registered handler is found under its URI and method. -/
theorem find?_toHttpdUri {handlers : List JsonHttpHandler}
    (hkeys : (handlers.map JsonHttpHandler.key).Nodup) {handler : JsonHttpHandler}
    (hmem : handler ∈ handlers) :
    (handlers.map JsonHttpHandler.toHttpdUri).find?
      (fun u => u.uri = handler.uri && u.method = handler.method) = some handler.toHttpdUri := by
  induction handlers with
  | nil => cases hmem
  | cons other handlers ih =>
    rw [List.map_cons, List.nodup_cons] at hkeys
    rw [List.map_cons, List.find?_cons]
    cases List.mem_cons.mp hmem with
    | inl heq =>
      subst heq
      simp only [JsonHttpHandler.toHttpdUri, decide_true, Bool.and_self]
    | inr hin =>
      -- an earlier handler has another key
      have hother : (decide (other.toHttpdUri.uri = handler.uri) &&
          decide (other.toHttpdUri.method = handler.method)) = false := by
        rw [Bool.eq_false_iff]
        intro heq
        rw [Bool.and_eq_true, decide_eq_true_eq, decide_eq_true_eq] at heq
        exact hkeys.1 (List.mem_map.mpr ⟨handler, hin, Prod.ext heq.1.symm heq.2.symm⟩)
      rw [hother]
      exact ih hkeys.2 hin

/-- The slice of a handler behind the status fields. -/
theorem slice_append {fields : List JsonField} {handler : JsonHttpHandler} {k : Nat}
    (h : handler.fields = fields.length + k) (configs : List JsonField) :
    handler.slice (fields ++ configs) = (configs.drop k).take handler.fieldCount := by
  unfold JsonHttpHandler.slice
  rw [h, List.drop_append, List.drop_eq_nil_of_le (by omega), List.nil_append,
    Nat.add_sub_cancel_left]

/-- A `POST` handler works on members of `device->config`, and the `GET` handler registered
    under its URI on the same ones. -/
theorem find_post {m : Mem} {device : Nat} {uri : String} {u : HttpdUri}
    (h : (registerJsonApiHandlers m device).find uri httpPost = some u) :
    u.handler = .jsonPostHandler ∧ ∃ members : List DeviceConf,
      u.userCtx.slice (registerJsonApiHandlers m device).jsonFields =
        members.map (DeviceConf.field device) ∧
      ∃ v, (registerJsonApiHandlers m device).find uri httpGet = some v ∧
        v.handler = .jsonGetHandler ∧
        v.userCtx.slice (registerJsonApiHandlers m device).jsonFields =
          members.map (DeviceConf.field device) := by
  obtain ⟨fields, hserver⟩ := registerJsonApiHandlers_eq m device
  rw [hserver] at h ⊢
  unfold HttpServer.find at h ⊢
  have hkey := List.find?_some h
  obtain ⟨post, hpost, rfl⟩ := List.mem_map.mp (List.mem_of_find?_eq_some h)
  rw [Bool.and_eq_true, decide_eq_true_eq, decide_eq_true_eq] at hkey
  obtain ⟨rfl, hmethod⟩ := hkey
  obtain ⟨⟨k, hk⟩, hget⟩ := post_deviceEndpoints hpost hmethod
  -- a slice of the config fields is made of some of the members
  have hslice : (post.slice (fields ++ configFields device)).Sublist (configFields device) := by
    rw [slice_append hk]
    exact (List.take_sublist ..).trans (List.drop_sublist ..)
  obtain ⟨members, _, hmembers⟩ := List.sublist_map_iff.mp hslice
  exact ⟨if_pos hmethod, members, hmembers, _,
    find?_toHttpdUri (nodup_key_deviceEndpoints _) hget, rfl, hmembers⟩

end EspTesting.Http
