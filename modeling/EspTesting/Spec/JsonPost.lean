import EspTesting.Spec.JsonEndpoints

/-!
# What a JSON POST changes

A member of `device->config` is one byte, but `JSON_FIELD_INT` stores and loads four. A post
does what it should exactly if the three bytes behind each integer it names are zero once
the posted values are in place.

## Key results

- `jsonPost_correct_iff`: the condition under which a post changes the members it names,
  and nothing else, and a get returns them
- `not_jsonPost_correct_speed1`: setting `speed1` clears `speed2`
-/

namespace EspTesting.Http

/-! ## What a post should do -/

/-- The item has the type of the field; the handlers skip an item of another type. -/
def CJson.HasType : CJson → JsonFieldType → Prop
  | .number _, .int => True
  | .bool _, .bool => True
  | .string _, .str => True
  | _, _ => False

/-- The byte a member of `device->config` holds for an item. -/
def CJson.toByte : CJson → UInt8
  | .number valueint => UInt8.ofNat valueint.toNat
  | .bool value => if value then 1 else 0
  | _ => 0

/-- The fields of the endpoint registered under a URI and method. -/
def HttpServer.endpointFields (server : HttpServer) (uri : String) (method : Int) :
    List JsonField :=
  match server.find uri method with
  | some u => u.userCtx.slice server.jsonFields
  | none => []

section

variable (device : Nat) (fields : List JsonField) (json : CJson)

/-- The body names the member `c`, a field of the endpoint, with the value `item`. -/
def Names (c : DeviceConf) (item : CJson) : Prop :=
  c.field device ∈ fields ∧ json.getObjectItem c.name = some item ∧ item.HasType c.type

/-- A post turns the memory `m` into `m'` as it should, and `returned` is the object a get
    then answers with. -/
structure PostCorrect (m m' : Mem) (returned : CJson) : Prop where
  named : ∀ c item, Names device fields json c item → m' (c.addr device) = item.toByte
  frame : ∀ x, (∀ c item, Names device fields json c item → c.addr device ≠ x) → m' x = m x
  returns : ∀ c item, Names device fields json c item →
    returned.getObjectItem c.name = some item

/-- The byte at `x` is zero once the posted values are in place: it is set to zero, or not
    named and zero before. -/
def ZeroOncePosted (m : Mem) (x : Nat) : Prop :=
  (∃ c item, Names device fields json c item ∧ c.addr device = x ∧ item.toByte = 0) ∨
    (∀ c item, Names device fields json c item → c.addr device ≠ x) ∧ m x = 0

/-- The three bytes behind each integer the body names are zero once it is posted. -/
def RoomForInts (m : Mem) : Prop :=
  ∀ c item, Names device fields json c item → c.type = .int →
    ∀ i, 1 ≤ i → i ≤ 3 → ZeroOncePosted device fields json m (c.addr device + i)

/-- Every posted integer is in `0..255`. -/
def IntsInRange : Prop :=
  ∀ c valueint, Names device fields json c (.number valueint) → 0 ≤ valueint ∧ valueint ≤ 255

end

/-! ## The stores of a post -/

/-- The bytes stored for an item. -/
def CJson.bytes : CJson → List UInt8
  | .number valueint => Mem.leBytes 4 (valueint % 2 ^ 32).toNat
  | .bool value => [if value then 1 else 0]
  | _ => []

/-- The store of a post to the member `c`. -/
def memberWrites (device : Nat) (json : CJson) (c : DeviceConf) : List (Nat × List UInt8) :=
  match json.getObjectItem c.name, c.type with
  | some (.number valueint), .int => [(c.addr device, (CJson.number valueint).bytes)]
  | some (.bool value), .bool => [(c.addr device, (CJson.bool value).bytes)]
  | _, _ => []

variable {device : Nat} {json : CJson}

/-- No member of `device->config` is a string. -/
theorem DeviceConf.type_ne_str (c : DeviceConf) : c.type ≠ .str := by
  cases c <;> decide

theorem postField_eq (m : Mem) (c : DeviceConf) :
    postField json m (c.field device) = m.storeAll (memberWrites device json c) := by
  have hname : (c.field device).name = c.name := rfl
  have htype : (c.field device).type = c.type := rfl
  have hstr := c.type_ne_str
  unfold postField memberWrites
  rw [hname]
  cases hitem : json.getObjectItem c.name with
  | none => rfl
  | some item =>
    simp only [storeItem, htype]
    cases item <;> cases hc : c.type <;> first | rfl | exact absurd hc hstr

/-- The loop over the fields of an endpoint is the run of their stores. -/
theorem foldl_postField_eq (m : Mem) (members : List DeviceConf) :
    (members.map (DeviceConf.field device)).foldl (postField json) m =
      m.storeAll (members.flatMap (memberWrites device json)) := by
  induction members generalizing m with
  | nil => rfl
  | cons c members ih =>
    rw [List.map_cons, List.foldl_cons, ih, postField_eq, List.flatMap_cons,
      Mem.storeAll_append]

theorem DeviceConf.field_injective (device : Nat) :
    Function.Injective (DeviceConf.field device) := by
  intro c d h
  exact DeviceConf.name_injective (congrArg JsonField.name h)

/-- The stores are those of the members named. -/
theorem mem_flatMap_memberWrites {members : List DeviceConf} {w : Nat × List UInt8} :
    w ∈ members.flatMap (memberWrites device json) ↔ ∃ c item,
      Names device (members.map (DeviceConf.field device)) json c item ∧
        w = (c.addr device, item.bytes) := by
  -- a field of the table belongs to one member only
  have hmem : ∀ c : DeviceConf,
      c.field device ∈ members.map (DeviceConf.field device) ↔ c ∈ members := by
    intro c
    rw [List.mem_map]
    exact ⟨fun ⟨d, hd, heq⟩ => DeviceConf.field_injective device heq ▸ hd, fun h => ⟨c, h, rfl⟩⟩
  rw [List.mem_flatMap]
  constructor
  · rintro ⟨c, hc, hw⟩
    unfold memberWrites at hw
    split at hw
    · rename_i valueint hitem htype
      exact ⟨c, _, ⟨(hmem c).mpr hc, hitem, htype ▸ trivial⟩, List.mem_singleton.mp hw⟩
    · rename_i value hitem htype
      exact ⟨c, _, ⟨(hmem c).mpr hc, hitem, htype ▸ trivial⟩, List.mem_singleton.mp hw⟩
    · cases hw
  · rintro ⟨c, item, ⟨hc, hitem, htyped⟩, rfl⟩
    refine ⟨c, (hmem c).mp hc, ?_⟩
    have hstr := c.type_ne_str
    unfold memberWrites
    rw [hitem]
    cases item <;> cases htype : c.type <;> rw [htype] at htyped <;>
      first
      | exact List.mem_singleton.mpr rfl
      | exact absurd htyped id
      | exact absurd htype hstr

/-! ## Bytes and integers -/

/-- A small integer is stored as its byte and three zeros. -/
theorem bytes_number {valueint : Int} (h : 0 ≤ valueint ∧ valueint ≤ 255) :
    (CJson.number valueint).bytes = (CJson.number valueint).toByte :: List.replicate 3 0 := by
  have hmod : valueint % 2 ^ 32 = valueint := Int.emod_eq_of_lt h.1 (by omega)
  show Mem.leBytes 4 (valueint % 2 ^ 32).toNat = UInt8.ofNat valueint.toNat :: _
  rw [hmod]
  exact Mem.leBytes_of_lt (by omega) 3

/-- Four bytes are loaded as a small integer exactly if they are its byte and three zeros. -/
theorem load_int_eq_iff {m : Mem} {a : Nat} {valueint : Int}
    (h : 0 ≤ valueint ∧ valueint ≤ 255) :
    (Mem.leValue (m.load a 4) : Int).bmod (2 ^ 32) = valueint ↔
      m a = (CJson.number valueint).toByte ∧ ∀ i, 1 ≤ i → i ≤ 3 → m (a + i) = 0 := by
  have hload : m.load a 4 = [m a, m (a + 1), m (a + 2), m (a + 3)] := rfl
  have h0 := (m a).toNat_lt
  have h1 := (m (a + 1)).toNat_lt
  have h2 := (m (a + 2)).toNat_lt
  have h3 := (m (a + 3)).toNat_lt
  -- a value up to 255 is its lowest byte, with zeros above it
  have hbyte : m a = (CJson.number valueint).toByte ↔ ((m a).toNat : Int) = valueint := by
    unfold CJson.toByte
    rw [← UInt8.toNat_inj, UInt8.toNat_ofNat']
    omega
  have hzero : ∀ x, m x = 0 ↔ (m x).toNat = 0 := fun x => by
    rw [← UInt8.toNat_inj, UInt8.toNat_zero]
  rw [hload, hbyte]
  simp only [Mem.leValue, hzero]
  constructor
  · intro heq
    rw [Int.bmod_def] at heq
    refine ⟨by omega, fun i hlo hhi => ?_⟩
    obtain rfl | rfl | rfl : i = 1 ∨ i = 2 ∨ i = 3 := by omega
    all_goals omega
  · rintro ⟨hlow, hhigh⟩
    have := hhigh 1 (by omega) (by omega)
    have := hhigh 2 (by omega) (by omega)
    have := hhigh 3 (by omega) (by omega)
    rw [Int.bmod_def]
    omega

variable {fields : List JsonField}

/-- An integer member is named with a number, any other one with a boolean. -/
theorem Names.cases {c : DeviceConf} {item : CJson} (h : Names device fields json c item) :
    (c.type = .int ∧ ∃ valueint, item = .number valueint) ∨
      (c.type = .bool ∧ ∃ value, item = .bool value) := by
  have hstr := c.type_ne_str
  have htyped := h.2.2
  cases htype : c.type <;> rw [htype] at htyped <;> cases item <;>
    first
    | exact absurd htype hstr
    | exact absurd htyped id
    | exact Or.inl ⟨rfl, _, rfl⟩
    | exact Or.inr ⟨rfl, _, rfl⟩

/-- A body names a member with one value only. -/
theorem Names.unique {c d : DeviceConf} {item item' : CJson}
    (h : Names device fields json c item) (h' : Names device fields json d item')
    (haddr : d.addr device = c.addr device) : item' = item := by
  have heq : d = c := DeviceConf.addr_injective device haddr
  subst heq
  exact Option.some.inj (h'.2.1.symm.trans h.2.1)

/-- The bytes stored for a member named: its byte, and for an integer three zeros. -/
theorem Names.bytes_eq {c : DeviceConf} {item : CJson} (h : Names device fields json c item)
    (hrange : IntsInRange device fields json) :
    item.bytes = item.toByte :: List.replicate (if c.type = .int then 3 else 0) 0 := by
  obtain ⟨htype, valueint, rfl⟩ | ⟨htype, value, rfl⟩ := h.cases
  · rw [if_pos htype]
    exact bytes_number (hrange c valueint h)
  · rw [if_neg (by rw [htype]; decide)]
    rfl

/-! ## The memory after a post -/

variable {m : Mem} {members : List DeviceConf}

/-- What a store puts at an address: the value of the member there, if the body names it,
    or one of the zeros behind an integer. -/
theorem store_cases (hrange : IntsInRange device (members.map (DeviceConf.field device)) json)
    {w : Nat × List UInt8} (hw : w ∈ members.flatMap (memberWrites device json)) {i x : Nat}
    (hx : w.1 + i = x) {b : UInt8} (hb : w.2[i]? = some b) :
    ∃ c item, Names device (members.map (DeviceConf.field device)) json c item ∧
      ((c.addr device = x ∧ b = item.toByte) ∨
        (c.type = .int ∧ 1 ≤ i ∧ i ≤ 3 ∧ c.addr device + i = x ∧ b = 0)) := by
  obtain ⟨c, item, hnames, rfl⟩ := mem_flatMap_memberWrites.mp hw
  refine ⟨c, item, hnames, ?_⟩
  simp only [hnames.bytes_eq hrange] at hb
  cases i with
  | zero => exact Or.inl ⟨hx, (Option.some.inj hb).symm⟩
  | succ i =>
    rw [List.getElem?_cons_succ] at hb
    obtain ⟨hlt, hget⟩ := List.getElem?_eq_some_iff.mp hb
    rw [List.length_replicate] at hlt
    rw [List.getElem_replicate] at hget
    split at hlt
    · rename_i htype
      exact Or.inr ⟨htype, by omega, by omega, hx, hget.symm⟩
    · omega

/-- The memory after a post that names `members`. -/
def afterPost (device : Nat) (json : CJson) (members : List DeviceConf) (m : Mem) :
    Mem :=
  m.storeAll (members.flatMap (memberWrites device json))

section

variable (hrange : IntsInRange device (members.map (DeviceConf.field device)) json)
  (hroom : RoomForInts device (members.map (DeviceConf.field device)) json m)
include hrange hroom

/-- With zeros behind the integers, a member named holds the posted value. -/
theorem afterPost_named {c : DeviceConf} {item : CJson}
    (h : Names device (members.map (DeviceConf.field device)) json c item) :
    afterPost device json members m (c.addr device) = item.toByte := by
  apply Mem.storeAll_of_covered
  · have hlen : 0 < item.bytes.length := by
      rw [h.bytes_eq hrange, List.length_cons]
      omega
    exact ⟨_, mem_flatMap_memberWrites.mpr ⟨c, item, h, rfl⟩, Nat.le_refl _, by
      show c.addr device < c.addr device + item.bytes.length
      omega⟩
  · intro w hw i hx b hb
    obtain ⟨d, item', hnames, ⟨haddr, rfl⟩ | ⟨hint, hlo, hhi, haddr, rfl⟩⟩ :=
      store_cases hrange hw hx hb
    · rw [h.unique hnames haddr]
    · -- a zero behind the integer `d` hits `c`, which is then posted as zero
      obtain ⟨e, item'', hnames', haddr', hzero⟩ | ⟨hunnamed, _⟩ :=
        hroom d item' hnames hint i hlo hhi
      · rw [← hzero, h.unique hnames' (haddr'.trans haddr)]
      · exact absurd haddr.symm (hunnamed c item h)

/-- With zeros behind the integers, a byte that is not named stays as it was. -/
theorem afterPost_frame {x : Nat} (h : ∀ c item,
      Names device (members.map (DeviceConf.field device)) json c item → c.addr device ≠ x) :
    afterPost device json members m x = m x := by
  by_cases hcovered : Mem.Covered (members.flatMap (memberWrites device json)) x
  · apply Mem.storeAll_of_covered hcovered
    intro w hw i hx b hb
    obtain ⟨d, item', hnames, ⟨haddr, rfl⟩ | ⟨hint, hlo, hhi, rfl, rfl⟩⟩ :=
      store_cases hrange hw hx hb
    · exact absurd haddr (h d item' hnames)
    · obtain ⟨e, item'', hnames', haddr', _⟩ | ⟨_, hzero⟩ := hroom d item' hnames hint i hlo hhi
      · exact absurd haddr' (h e item'' hnames')
      · exact hzero.symm
  · exact Mem.storeAll_of_not_covered hcovered

end

/-! ## What a get returns -/

/-- The object a get builds from `members`. -/
def returnedObject (device : Nat) (members : List DeviceConf) (m : Mem) : CJson :=
  .object (members.map fun c => (c.name, addFieldToJson m (c.field device) (c.addr device)))

theorem jsonGetHandler_eq (m : Mem) (members : List DeviceConf) :
    jsonGetHandler (members.map (DeviceConf.field device)) m =
      (espOk, .printed "application/json" (returnedObject device members m)) := by
  have hmembers : (members.map (DeviceConf.field device)).filterMap (fun field =>
      field.ptr.map fun ptr => (field.name, addFieldToJson m field ptr)) =
      members.map fun c => (c.name, addFieldToJson m (c.field device) (c.addr device)) := by
    rw [List.filterMap_map]
    exact congrFun (List.filterMap_eq_map (f := fun c : DeviceConf =>
      (c.name, addFieldToJson m (c.field device) (c.addr device)))) members
  unfold jsonGetHandler returnedObject
  rw [hmembers]

/-- The object holds each member under its name. -/
theorem getObjectItem_returnedObject {c : DeviceConf} (h : c ∈ members) :
    (returnedObject device members m).getObjectItem c.name =
      some (addFieldToJson m (c.field device) (c.addr device)) := by
  unfold returnedObject CJson.getObjectItem
  induction members with
  | nil => cases h
  | cons d members ih =>
    show List.lookup c.name (_ :: _) = _
    rw [List.lookup_cons]
    by_cases heq : d = c
    · subst heq
      rw [beq_self_eq_true]
    · have hname : (c.name == d.name) = false :=
        beq_eq_false_iff_ne.mpr fun hn => heq (DeviceConf.name_injective hn).symm
      rw [hname]
      exact ih ((List.mem_cons.mp h).resolve_left fun h => heq h.symm)

/-- A get returns the posted value if its byte is in memory, with zeros behind an integer. -/
theorem addFieldToJson_eq {m : Mem} {c : DeviceConf} {item : CJson}
    (h : Names device fields json c item) (hrange : IntsInRange device fields json)
    (hbyte : m (c.addr device) = item.toByte)
    (hzero : c.type = .int → ∀ i, 1 ≤ i → i ≤ 3 → m (c.addr device + i) = 0) :
    addFieldToJson m (c.field device) (c.addr device) = item := by
  have htype' : (c.field device).type = c.type := rfl
  unfold addFieldToJson
  rw [htype']
  obtain ⟨htype, valueint, rfl⟩ | ⟨htype, value, rfl⟩ := h.cases
  · simp only [htype, CJson.number.injEq]
    exact (load_int_eq_iff (hrange c valueint h)).mpr ⟨hbyte, hzero htype⟩
  · simp only [htype, hbyte, CJson.bool.injEq, CJson.toByte]
    cases value <;> decide

/-- If a get returns the posted integer, then zeros stand behind it. -/
theorem zero_of_addFieldToJson {m : Mem} {c : DeviceConf} {item : CJson}
    (h : Names device fields json c item) (hrange : IntsInRange device fields json)
    (htype : c.type = .int)
    (hreturned : addFieldToJson m (c.field device) (c.addr device) = item) :
    ∀ i, 1 ≤ i → i ≤ 3 → m (c.addr device + i) = 0 := by
  obtain ⟨_, valueint, rfl⟩ | ⟨hbool, _⟩ := h.cases
  · have htype' : (c.field device).type = c.type := rfl
    simp only [addFieldToJson, htype', htype, CJson.number.injEq] at hreturned
    exact ((load_int_eq_iff (hrange c valueint h)).mp hreturned).2
  · exact absurd (htype.symm.trans hbool) (by decide)

/-! ## The condition -/

/-- A byte that stays zero is zero in any memory that is as it should be. -/
theorem ZeroOncePosted.eq_zero {m m' : Mem} {x : Nat}
    (h : ZeroOncePosted device fields json m x)
    (hnamed : ∀ c item, Names device fields json c item → m' (c.addr device) = item.toByte)
    (hframe : ∀ x, (∀ c item, Names device fields json c item → c.addr device ≠ x) →
      m' x = m x) : m' x = 0 := by
  obtain ⟨c, item, hnames, rfl, hzero⟩ | ⟨hunnamed, hzero⟩ := h
  · rw [hnamed c item hnames, hzero]
  · rw [hframe x hunnamed, hzero]

/-- A post to `members` does what it should exactly if there is room for the integers. -/
theorem postCorrect_iff (hrange : IntsInRange device (members.map (DeviceConf.field device)) json) :
    PostCorrect device (members.map (DeviceConf.field device)) json m
        (afterPost device json members m)
        (returnedObject device members (afterPost device json members m)) ↔
      RoomForInts device (members.map (DeviceConf.field device)) json m := by
  have hmem : ∀ c item, Names device (members.map (DeviceConf.field device)) json c item →
      c ∈ members := by
    intro c item h
    obtain ⟨d, hd, heq⟩ := List.mem_map.mp h.1
    exact DeviceConf.field_injective device heq ▸ hd
  constructor
  · intro hcorrect c item hnames htype i hlo hhi
    -- a byte of an integer above the lowest reads zero: it was so, or another field wrote it
    have hreturned := hcorrect.returns c item hnames
    rw [getObjectItem_returnedObject (hmem c item hnames), Option.some.injEq] at hreturned
    have hzero := zero_of_addFieldToJson hnames hrange htype hreturned i hlo hhi
    by_cases hx : ∃ d item', Names device (members.map (DeviceConf.field device)) json d item' ∧
        d.addr device = c.addr device + i
    · obtain ⟨d, item', hnames', haddr⟩ := hx
      refine Or.inl ⟨d, item', hnames', haddr, ?_⟩
      rw [← hcorrect.named d item' hnames', haddr, hzero]
    · have hunnamed : ∀ d item', Names device (members.map (DeviceConf.field device)) json d item' →
          d.addr device ≠ c.addr device + i := fun d item' h heq => hx ⟨d, item', h, heq⟩
      exact Or.inr ⟨hunnamed, by rw [← hcorrect.frame _ hunnamed, hzero]⟩
  · intro hroom
    refine ⟨fun c item hnames => afterPost_named hrange hroom hnames,
      fun x hunnamed => afterPost_frame hrange hroom hunnamed, fun c item hnames => ?_⟩
    rw [getObjectItem_returnedObject (hmem c item hnames), Option.some.injEq]
    exact addFieldToJson_eq hnames hrange (afterPost_named hrange hroom hnames)
      fun htype i hlo hhi => (hroom c item hnames htype i hlo hhi).eq_zero
        (fun d item' => afterPost_named hrange hroom) (fun x => afterPost_frame hrange hroom)

/-! ## Requests -/

variable {cJsonParse : List UInt8 → Option CJson} {req : HttpdReq} {m' : Mem}

/-- A post is refused without effect, or its body parses and its fields are stored. -/
theorem jsonPostHandler_cases (cJsonParse : List UInt8 → Option CJson) (fields : List JsonField)
    (req : HttpdReq) (m : Mem) :
    (∃ code msg, jsonPostHandler cJsonParse fields req m = (m, espFail, .err code msg)) ∨
    ∃ json, cJsonParse (cString (req.received.take req.contentLen)) = some json ∧
      jsonPostHandler cJsonParse fields req m =
        (fields.foldl (postField json) m, espOk, .text "text/plain" "OK") := by
  unfold jsonPostHandler
  by_cases hempty : req.contentLen = 0
  · exact Or.inl ⟨_, _, if_pos hempty⟩
  rw [if_neg hempty]
  by_cases hlong : req.contentLen > jsonMaxSize - 1
  · exact Or.inl ⟨_, _, if_pos hlong⟩
  rw [if_neg hlong]
  by_cases hrecv : (req.received.take req.contentLen).length ≤ 0
  · exact Or.inl ⟨_, _, if_pos hrecv⟩
  simp only [if_neg hrecv]
  cases hjson : cJsonParse (cString (req.received.take req.contentLen)) with
  | none => exact Or.inl ⟨_, _, rfl⟩
  | some json => exact Or.inr ⟨json, rfl, rfl⟩

/-- A post accepted by an endpoint of the device changes the members of `device->config` its
    body names, and nothing else, and a get of the endpoint then returns the values posted,
    if and only if the three bytes behind each integer named are zero once the values are in
    place. -/
theorem jsonPost_correct_iff {m₀ m m' : Mem} {uri : String} {resp : HttpdResp}
    (hpost : (registerJsonApiHandlers m₀ device).serve cJsonParse uri httpPost req m =
      some (m', espOk, resp))
    (hjson : cJsonParse (cString (req.received.take req.contentLen)) = some json)
    (hrange : IntsInRange device
      ((registerJsonApiHandlers m₀ device).endpointFields uri httpPost) json) :
    (∃ returned, (∀ get, (registerJsonApiHandlers m₀ device).serve cJsonParse uri httpGet get m' =
        some (m', espOk, .printed "application/json" returned)) ∧
      PostCorrect device ((registerJsonApiHandlers m₀ device).endpointFields uri httpPost) json
        m m' returned) ↔
    RoomForInts device ((registerJsonApiHandlers m₀ device).endpointFields uri httpPost)
      json m := by
  unfold HttpServer.serve at hpost
  obtain ⟨u, hfind, hrun⟩ := Option.map_eq_some_iff.mp hpost
  obtain ⟨hhandler, members, hslice, v, hget, hgetHandler, hgetSlice⟩ := find_post hfind
  have hfields : (registerJsonApiHandlers m₀ device).endpointFields uri httpPost =
      members.map (DeviceConf.field device) := by
    unfold HttpServer.endpointFields
    rw [hfind]
    exact hslice
  rw [hfields] at hrange ⊢
  rw [hhandler, hslice] at hrun
  -- the post stores the members named, one after the other
  have hm' : m' = afterPost device json members m := by
    show m' = m.storeAll _
    rw [← foldl_postField_eq]
    obtain ⟨_, _, heq⟩ | ⟨json', hjson', heq⟩ :=
      jsonPostHandler_cases cJsonParse (members.map (DeviceConf.field device)) req m
    · cases heq.symm.trans hrun
    · cases hjson'.symm.trans hjson
      cases heq.symm.trans hrun
      rfl
  -- the get reads the same members back
  have hserve : ∀ get, (registerJsonApiHandlers m₀ device).serve cJsonParse uri httpGet get m' =
      some (m', espOk, .printed "application/json" (returnedObject device members m')) := by
    intro get
    unfold HttpServer.serve
    rw [hget, Option.map_some, hgetHandler, hgetSlice, jsonGetHandler_eq]
  rw [← postCorrect_iff hrange, ← hm']
  constructor
  · rintro ⟨returned, hreturned, hcorrect⟩
    have heq := (hserve req).symm.trans (hreturned req)
    cases heq
    exact hcorrect
  · exact fun hcorrect => ⟨_, hserve, hcorrect⟩

/-! ## Setting `speed1` -/

/-- `{"speed1":5}` -/
def speed1Body : List UInt8 :=
  [0x7b, 0x22, 0x73, 0x70, 0x65, 0x65, 0x64, 0x31, 0x22, 0x3a, 0x35, 0x7d]

/-- `cJSON_Parse` on that body. -/
def parseSpeed1Body (bytes : List UInt8) : Option CJson :=
  if bytes = speed1Body then some (.object [("speed1", .number 5)]) else none

/-- The request that posts it. -/
def speed1Req : HttpdReq := ⟨speed1Body.length, speed1Body⟩

/-- A post of the body to `/speed` stores a four-byte integer at `speed1`. -/
theorem serve_speed1Req (m₀ m : Mem) (device : Nat) :
    (registerJsonApiHandlers m₀ device).endpointFields "/speed" httpPost =
      [DeviceConf.speed1.field device, DeviceConf.speed2.field device] ∧
    (registerJsonApiHandlers m₀ device).serve parseSpeed1Body "/speed" httpPost speed1Req m =
      some (m.store (device + 24) [5, 0, 0, 0], espOk, .text "text/plain" "OK") := by
  obtain ⟨fields, hserver⟩ := registerJsonApiHandlers_eq m₀ device
  have hmem : (⟨"/speed", httpPost, fields.length + 3, 2⟩ : JsonHttpHandler) ∈
      deviceEndpoints fields.length := by simp [deviceEndpoints, configEndpoints]
  have hfind : (registerJsonApiHandlers m₀ device).find "/speed" httpPost =
      some (JsonHttpHandler.toHttpdUri ⟨"/speed", httpPost, fields.length + 3, 2⟩) := by
    rw [hserver]
    exact find?_toHttpdUri (nodup_key_deviceEndpoints _) hmem
  have hslice : JsonHttpHandler.slice ⟨"/speed", httpPost, fields.length + 3, 2⟩
      (registerJsonApiHandlers m₀ device).jsonFields =
        [DeviceConf.speed1.field device, DeviceConf.speed2.field device] := by
    rw [hserver, slice_append rfl]
    rfl
  unfold HttpServer.endpointFields HttpServer.serve
  rw [hfind]
  refine ⟨hslice, congrArg some ?_⟩
  show jsonPostHandler parseSpeed1Body (JsonHttpHandler.slice
    ⟨"/speed", httpPost, fields.length + 3, 2⟩ _) speed1Req m = _
  rw [hslice]
  rfl

/-- The object the body stands for. -/
def speed1Json : CJson := .object [("speed1", .number 5)]

/-- It names `speed1`, with the value 5, and no other member. -/
theorem names_speed1Json {device : Nat} {fields : List JsonField} {c : DeviceConf}
    {item : CJson} (h : Names device fields speed1Json c item) :
    c = .speed1 ∧ item = .number 5 := by
  have hitem := h.2.1
  cases c <;> cases hitem
  exact ⟨rfl, rfl⟩

theorem intsInRange_speed1Json (device : Nat) (fields : List JsonField) :
    IntsInRange device fields speed1Json := by
  intro c valueint h
  cases (names_speed1Json h).2
  omega

/-- With zeros behind it, setting `speed1` does what it should. -/
theorem jsonPost_correct_speed1 :
    let server := registerJsonApiHandlers (fun _ => 0) 0
    let m' : Mem := Mem.store (fun _ => 0) 24 [5, 0, 0, 0]
    ∃ returned, (∀ get, server.serve parseSpeed1Body "/speed" httpGet get m' =
        some (m', espOk, .printed "application/json" returned)) ∧
      PostCorrect 0 (server.endpointFields "/speed" httpPost) speed1Json (fun _ => 0) m'
        returned := by
  have hserve := (serve_speed1Req (fun _ => 0) (fun _ => 0) 0).2
  have hjson : parseSpeed1Body (cString (speed1Req.received.take speed1Req.contentLen)) =
      some speed1Json := rfl
  refine (jsonPost_correct_iff hserve hjson (intsInRange_speed1Json _ _)).mpr ?_
  intro c item h _ i hlo hhi
  obtain ⟨rfl, _⟩ := names_speed1Json h
  refine Or.inr ⟨fun d item' h' haddr => ?_, rfl⟩
  obtain ⟨rfl, _⟩ := names_speed1Json h'
  omega

/-- With 3 as `speed2`, setting `speed1` to 5 clears it. -/
theorem not_jsonPost_correct_speed1 :
    let m : Mem := fun x => if x = 25 then 3 else 0
    let server := registerJsonApiHandlers m 0
    parseSpeed1Body (cString (speed1Req.received.take speed1Req.contentLen)) = some speed1Json ∧
    IntsInRange 0 (server.endpointFields "/speed" httpPost) speed1Json ∧
    ∃ m' resp, server.serve parseSpeed1Body "/speed" httpPost speed1Req m =
        some (m', espOk, resp) ∧
      ¬ ∃ returned, PostCorrect 0 (server.endpointFields "/speed" httpPost) speed1Json m m'
        returned := by
  intro m server
  refine ⟨rfl, intsInRange_speed1Json _ _, _, _, (serve_speed1Req m m 0).2, ?_⟩
  rintro ⟨returned, hcorrect⟩
  -- the body does not name `speed2`, so 3 should stand there
  have hframe := hcorrect.frame 25 fun c item h haddr => by
    obtain ⟨rfl, _⟩ := names_speed1Json h
    exact absurd haddr (by decide)
  exact absurd hframe (by decide)

end EspTesting.Http
