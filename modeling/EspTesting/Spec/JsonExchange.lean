import EspTesting.ForStd.Machine
import EspTesting.Spec.JsonPost
import EspTesting.Spec.JsonWire

/-!
# Requests to the device

The HTTP interface of the device with the bytes of its requests and answers: what a get sends can
be posted back, and no request changes anything but the settings.

## Key results

- `serveGet_post`: posting what a get has sent is accepted and changes no byte of the memory
- `run_serveMem_frame`: in any run of requests, only the ten bytes from `device->config` on change
-/

namespace EspTesting.CJson

open Json (AllTokens render escape)
open Http

variable {D : Type} {F : Doubles D}

/-! ## The object of a get, member by member -/

theorem byteName_name (c : DeviceConf) : ByteName c.name := by
  cases c <;> decide

/-- No name of a member has a character that is escaped, or more than eleven. -/
theorem length_escape_name (c : DeviceConf) :
    (escape (cString (nameBytes c.name))).length ≤ 11 := by
  cases c <;> decide

/-- A member is found under its name. -/
theorem getObjectItem_getObject (m : Mem) (device : Nat) {members : List DeviceConf}
    {c : DeviceConf} (hc : c ∈ members) :
    (Http.CJson.object (getObject m (members.map (DeviceConf.field device)))).getObjectItem c.name =
      some (addFieldToJson m (c.field device) (c.addr device)) := by
  show List.lookup c.name (getObject m (members.map (DeviceConf.field device))) = _
  induction members with
  | nil => cases hc
  | cons d members ih =>
    have hcons : getObject m ((d :: members).map (DeviceConf.field device)) =
        (d.name, addFieldToJson m (d.field device) (d.addr device)) ::
          getObject m (members.map (DeviceConf.field device)) := rfl
    rw [hcons, List.lookup_cons]
    by_cases heq : c = d
    · subst heq
      rw [beq_self_eq_true]
    · have hname : (c.name == d.name) = false :=
        beq_eq_false_iff_ne.mpr fun h => heq (DeviceConf.name_injective h)
      rw [hname]
      exact ih ((List.mem_cons.mp hc).resolve_left heq)

/-! ## Storing what was loaded -/

/-- Storing the bytes that are there changes nothing. -/
theorem store_load (m : Mem) (a n : Nat) : m.store a (m.load a n) = m := by
  funext x
  by_cases hx : a ≤ x ∧ x < a + n
  · obtain ⟨i, rfl⟩ := Nat.exists_eq_add_of_le hx.1
    have hi : i < (m.load a n).length := by
      rw [Mem.length_load]
      omega
    rw [Mem.store_of_mem hi, Mem.getElem_load]
  · apply Mem.store_of_not_mem
    rw [Mem.length_load]
    omega

/-- An integer is stored as the bytes it was loaded from. -/
theorem leBytes_bmod (m : Mem) (a : Nat) :
    Mem.leBytes 4 ((Mem.leValue (m.load a 4) : Int).bmod (2 ^ 32) % 2 ^ 32).toNat = m.load a 4 := by
  have hlt : Mem.leValue (m.load a 4) < 2 ^ 32 := by
    have := Mem.leValue_leBytes 4 (Mem.leValue (m.load a 4))
    have hbytes := Mem.leBytes_leValue (m.load a 4)
    rw [Mem.length_load] at hbytes
    rw [hbytes] at this
    have hmod := Nat.mod_lt (Mem.leValue (m.load a 4)) (show 0 < 256 ^ 4 by decide)
    omega
  have hvalue : ((Mem.leValue (m.load a 4) : Int).bmod (2 ^ 32) % 2 ^ 32).toNat =
      Mem.leValue (m.load a 4) := by
    unfold Int.bmod
    dsimp only
    split <;> omega
  have hbytes := Mem.leBytes_leValue (m.load a 4)
  rw [Mem.length_load] at hbytes
  rw [hvalue, hbytes]

/-- A `bool` holds zero or one. -/
def BoolsValid (m : Mem) (device : Nat) : Prop :=
  ∀ c : DeviceConf, c.type = .bool → m (c.addr device) = 0 ∨ m (c.addr device) = 1

/-- A member is stored as it was loaded. -/
theorem storeItem_addFieldToJson {m : Mem} {device : Nat} (hbools : BoolsValid m device)
    (c : DeviceConf) : storeItem m (c.field device) (c.addr device)
      (addFieldToJson m (c.field device) (c.addr device)) = m := by
  have htype : (c.field device).type = c.type := rfl
  unfold addFieldToJson
  rw [htype]
  cases hc : c.type with
  | str => exact absurd hc c.type_ne_str
  | int =>
    simp only [storeItem, htype, hc]
    rw [leBytes_bmod, store_load]
  | bool =>
    simp only [storeItem, htype, hc]
    have hbyte : [if m (c.addr device) != 0 then (1 : UInt8) else 0] =
        m.load (c.addr device) 1 := by
      rw [Mem.load_one]
      obtain h | h := hbools c hc
      · rw [h]
        rfl
      · rw [h]
        rfl
    rw [hbyte, store_load]

/-- The loop of `json_post_handler` over the object of a get changes nothing. -/
theorem foldl_postField_getObject {m : Mem} {device : Nat} (hbools : BoolsValid m device)
    (members : List DeviceConf) : (members.map (DeviceConf.field device)).foldl
      (postField (.object (getObject m (members.map (DeviceConf.field device))))) m = m := by
  generalize hjson : getObject m (members.map (DeviceConf.field device)) = json
  have hstep : ∀ c ∈ members, postField (.object json) m (c.field device) = m := by
    intro c hc
    have hitem := getObjectItem_getObject m device hc
    rw [hjson] at hitem
    unfold postField
    have hname : (c.field device).name = c.name := rfl
    have hptr : (c.field device).ptr = some (c.addr device) := rfl
    simp only [hname, hptr, hitem]
    exact storeItem_addFieldToJson hbools c
  clear hjson
  induction members with
  | nil => rfl
  | cons c members ih =>
    rw [List.map_cons, List.foldl_cons, hstep c (List.mem_cons_self ..)]
    exact ih fun d hd => hstep d (List.mem_cons_of_mem _ hd)

/-! ## The length of a body -/

theorem length_decimal_le (i : Int32) : (Json.decimal i.toInt).length ≤ 11 := by
  have hlt := i.toInt_lt
  have hle := i.le_toInt
  exact Json.length_decimal_le (by decide) (by omega)

/-- A member takes at most 22 characters besides its punctuation. -/
theorem length_fieldText_le (hints : F.HoldsInts) (m : Mem) (device : Nat)
    (members : List DeviceConf) : (fieldText F m (members.map (DeviceConf.field device))).length ≤
      members.length * 26 + 2 := by
  have hmember : ∀ member ∈ fieldMembers F m (members.map (DeviceConf.field device)),
      (escape member.1).length + (member.2.render F.text).length ≤ 22 := by
    intro member hmember
    obtain ⟨field, hfield, ptr, -, rfl⟩ := mem_fieldMembers F m _ hmember
    obtain ⟨c, -, rfl⟩ := List.mem_map.mp hfield
    have hname : (escape (cString (nameBytes (c.field device).name))).length ≤ 11 :=
      length_escape_name c
    have htype : (c.field device).type = c.type := rfl
    have hvalue : ((fieldItem F m (c.field device).type ptr).value.render F.text).length ≤ 11 := by
      rw [htype]
      cases hc : c.type with
      | str => exact absurd hc c.type_ne_str
      | int =>
        simp only [fieldItem, createNumber, Item.new, Item.value, render, text_ofInt hints]
        exact length_decimal_le _
      | bool =>
        cases hb : m ptr != 0 <;>
          simp [fieldItem, createBool, Item.new, Item.value, render, hb, Json.falseText,
            Json.trueText]
    exact Nat.add_le_add hname hvalue
  have hlen := Json.length_renderMembers_le _ hmember
  have hcount : (fieldMembers F m (members.map (DeviceConf.field device))).length ≤
      members.length := by
    rw [fieldMembers, List.length_map]
    exact Nat.le_trans (List.length_filterMap_le ..) (Nat.le_of_eq (List.length_map _))
  simp only [fieldText, render, List.length_cons, List.length_append, List.length_nil]
  have := Nat.mul_le_mul_right 26 hcount
  omega

/-- An endpoint that stores fields has one or two of them. -/
theorem length_le_of_find_post {m : Mem} {device : Nat} {uri : String} {u : HttpdUri}
    (h : (registerJsonApiHandlers m device).find uri httpPost = some u) :
    (u.userCtx.slice (registerJsonApiHandlers m device).jsonFields).length ≤ 2 := by
  obtain ⟨fields, hserver⟩ := registerJsonApiHandlers_eq m device
  rw [hserver] at h ⊢
  have hkey := List.find?_some h
  obtain ⟨post, hpost, rfl⟩ := List.mem_map.mp (List.mem_of_find?_eq_some h)
  rw [Bool.and_eq_true, decide_eq_true_eq, decide_eq_true_eq] at hkey
  have hcount : post.fieldCount ≤ 2 := by
    have hmethod : post.method = httpPost := hkey.2
    simp only [deviceEndpoints, configEndpoints, List.mem_cons, List.not_mem_nil, or_false]
      at hpost
    -- the endpoints for loading are excluded by their method
    rcases hpost with rfl | rfl | rfl | rfl | rfl | rfl | rfl | rfl | rfl | rfl | rfl | rfl | rfl
    all_goals first
      | exact absurd (show httpGet = httpPost from hmethod) (by decide)
      | simp
  exact Nat.le_trans (List.length_take_le ..) hcount

/-! ## Posting what a get has sent -/

/-- The body of a get holds at least its braces. -/
theorem fieldText_length_pos (m : Mem) (fields : List JsonField) :
    0 < (fieldText F m fields).length := by
  simp [fieldText, render]

/-- For every endpoint that stores settings, the body that a get sends under its URI can be posted
    there: the answer is `OK`, and no byte of the memory changes. -/
theorem serveGet_post (hF : F.PrintsShort) (hreads : F.ReadsPrefix) (hints : F.HoldsInts)
    {hooks : Hooks} (hsized : hooks.Sized) (henough : hooks.Enough) {allocates : Nat → Bool}
    (hallocates : ∀ k, allocates k = true) {m₀ m : Mem} {device : Nat}
    (hbools : BoolsValid m device) {uri : String}
    (hpost : ((registerJsonApiHandlers m₀ device).find uri httpPost).isSome) :
    ∃ body, serveGet F hooks (registerJsonApiHandlers m₀ device) uri m = some (.ok body) ∧
      (registerJsonApiHandlers m₀ device).serve (parseBody F allocates) uri httpPost
        ⟨body.length, body⟩ m = some (m, espOk, .text "text/plain" "OK") := by
  obtain ⟨u, hu⟩ := Option.isSome_iff_exists.mp hpost
  obtain ⟨hhandler, members, hslice, v, hv, hget, hslice'⟩ := find_post hu
  have hcount := length_le_of_find_post hu
  rw [hslice, List.length_map] at hcount
  generalize hfields : members.map (DeviceConf.field device) = fields at hslice hslice'
  have hlen : (fieldText F m fields).length ≤ 54 := by
    have := length_fieldText_le hints m device members
    rw [← hfields]
    omega
  -- the answer to the get
  obtain ⟨body, hbody, rfl⟩ := (getBody_meets hF hsized fields m).exists_ok
    fun e he => he.2 ⟨henough, by omega⟩
  refine ⟨fieldText F m fields, ?_, ?_⟩
  · rw [serveGet, hv, Option.map_some, hslice', hbody]
  -- the post of it
  have hpos := fieldText_length_pos (F := F) m fields
  have htake : (fieldText F m fields).take (fieldText F m fields).length = fieldText F m fields :=
    List.take_length
  have hstring : cString (fieldText F m fields) = fieldText F m fields :=
    cString_of_ne_zero (fieldText_ne_zero hF m fields)
  have hnames : ∀ field ∈ fields, ByteName field.name := by
    intro field hfield
    rw [← hfields] at hfield
    obtain ⟨c, -, rfl⟩ := List.mem_map.mp hfield
    exact byteName_name c
  have hparse := parseBody_fieldText hF hreads hints hallocates m hnames
  rw [HttpServer.serve, hu, Option.map_some, hhandler]
  simp only
  rw [hslice, jsonPostHandler]
  simp only [htake, hstring, hparse]
  rw [if_neg (by omega), if_neg (by simp only [jsonMaxSize]; omega), if_neg (by omega), ← hfields,
    foldl_postField_getObject hbools]

/-- The timers of a device whose memory is full of ones are read and written back. -/
theorem serveGet_post_timers :
    ∃ body, serveGet Doubles.ints Hooks.ones (registerJsonApiHandlers (fun _ => 0) 64) "/timers"
        (fun _ => 1) = some (.ok body) ∧
      (registerJsonApiHandlers (fun _ => 0) 64).serve (parseBody Doubles.ints fun _ => true)
        "/timers" httpPost ⟨body.length, body⟩ (fun _ => 1) =
          some (fun _ => 1, espOk, .text "text/plain" "OK") :=
  serveGet_post printsShort_ints readsPrefix_ints holdsInts_ints sized_ones enough_ones
    (fun _ => rfl) (fun _ _ => .inr rfl) (by decide +kernel)

/-! ## Runs of requests -/

/-- A request to the JSON interface, and the allocations that succeed while it is served. -/
structure Call where
  uri : String
  method : Int
  req : HttpdReq
  allocates : Nat → Bool

/-- The memory after a request. -/
def serveMem (F : Doubles D) (server : HttpServer) (m : Mem) (call : Call) : Mem :=
  match server.serve (parseBody F call.allocates) call.uri call.method call.req m with
  | some (m', _) => m'
  | none => m

/-- A post stores four bytes at most, from a member of `device->config` on. -/
theorem covered_memberWrites {device x : Nat} {json : Http.CJson} {members : List DeviceConf}
    (h : Mem.Covered (members.flatMap (memberWrites device json)) x) :
    device + 24 ≤ x ∧ x < device + 34 := by
  obtain ⟨w, hw, hlo, hhi⟩ := h
  obtain ⟨c, -, hw⟩ := List.mem_flatMap.mp hw
  unfold memberWrites at hw
  split at hw
  · rename_i htype
    obtain rfl := List.mem_singleton.mp hw
    simp only [Http.CJson.bytes, Mem.length_leBytes] at hlo hhi
    cases c <;> simp only [DeviceConf.addr, DeviceConf.type, reduceCtorEq] at hlo hhi htype <;>
      omega
  · obtain rfl := List.mem_singleton.mp hw
    simp only [Http.CJson.bytes, List.length_singleton] at hlo hhi
    cases c <;> simp only [DeviceConf.addr] at hlo hhi <;> omega
  · cases hw

/-- A handler that stores fields is found for `HTTP_POST` only. -/
theorem method_of_find {m : Mem} {device : Nat} {uri : String} {method : Int} {u : HttpdUri}
    (h : (registerJsonApiHandlers m device).find uri method = some u)
    (hhandler : u.handler = .jsonPostHandler) : method = httpPost := by
  obtain ⟨fields, hserver⟩ := registerJsonApiHandlers_eq m device
  rw [hserver] at h
  have hkey := List.find?_some h
  obtain ⟨post, -, rfl⟩ := List.mem_map.mp (List.mem_of_find?_eq_some h)
  rw [Bool.and_eq_true, decide_eq_true_eq, decide_eq_true_eq] at hkey
  rw [← hkey.2]
  show post.method = httpPost
  simp only [JsonHttpHandler.toHttpdUri] at hhandler
  split at hhandler
  · assumption
  · cases hhandler

/-- A post leaves the memory alone, or runs its loop over the fields. -/
theorem jsonPostHandler_mem (parse : List UInt8 → Option Http.CJson) (fields : List JsonField)
    (req : HttpdReq) (m : Mem) : (jsonPostHandler parse fields req m).1 = m ∨
      ∃ json, (jsonPostHandler parse fields req m).1 = fields.foldl (postField json) m := by
  unfold jsonPostHandler
  split
  · exact .inl rfl
  · split
    · exact .inl rfl
    · dsimp only
      split
      · exact .inl rfl
      · split
        · exact .inl rfl
        · exact .inr ⟨_, rfl⟩

/-- A request changes nothing outside the ten bytes from `device->config` on. -/
theorem serveMem_frame (m₀ m : Mem) (device : Nat) (call : Call) {x : Nat}
    (hx : x < device + 24 ∨ device + 34 ≤ x) :
    serveMem F (registerJsonApiHandlers m₀ device) m call x = m x := by
  unfold serveMem HttpServer.serve
  cases hfind : (registerJsonApiHandlers m₀ device).find call.uri call.method with
  | none => rfl
  | some u =>
    rw [Option.map_some]
    cases hhandler : u.handler with
    | jsonGetHandler => rfl
    | jsonPostHandler =>
      rw [method_of_find hfind hhandler] at hfind
      obtain ⟨-, members, hslice, -⟩ := find_post hfind
      simp only [hslice]
      obtain h | ⟨json, h⟩ := jsonPostHandler_mem (parseBody F call.allocates)
        (members.map (DeviceConf.field device)) call.req m
      · rw [h]
      · rw [h, foldl_postField_eq]
        apply Mem.storeAll_of_not_covered
        intro hcovered
        have := covered_memberWrites hcovered
        omega

/-- Whatever requests arrive, with whatever bytes, nothing outside the ten bytes from
    `device->config` on changes: neither the status nor the strings it points to. -/
theorem run_serveMem_frame (m₀ m : Mem) (device : Nat) (calls : List Call) (x : Nat)
    (hx : x < device + 24 ∨ device + 34 ≤ x) :
    Machine.run (serveMem F (registerJsonApiHandlers m₀ device)) m calls x = m x := by
  have hstep : ∀ (m' : Mem) (call : Call), m' x = m x →
      serveMem F (registerJsonApiHandlers m₀ device) m' call x = m x := by
    intro m' call hm'
    rw [serveMem_frame m₀ m' device call hx, hm']
  exact Machine.run_invariant (I := fun m' : Mem => m' x = m x) hstep rfl calls

/-- Two requests, one of them cut short, leave the pointer to the title alone. -/
theorem run_serveMem_frame_title :
    Machine.run (serveMem Doubles.ints (registerJsonApiHandlers (fun _ => 0) 0)) (fun _ => 7)
      [⟨"/speed", httpPost, ⟨4, [0x7B, 0x22]⟩, fun _ => true⟩,
        ⟨"/speed", httpPost, ⟨2, [0x7B, 0x7D]⟩, fun _ => false⟩] 16 = 7 :=
  run_serveMem_frame (fun _ => 0) (fun _ => 7) 0 _ 16 (.inl (by decide))

end EspTesting.CJson
