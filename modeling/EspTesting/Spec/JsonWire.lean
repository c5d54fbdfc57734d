import EspTesting.Native.JsonWire
import EspTesting.Spec.CJsonCorrect

/-!
# The bodies the device sends

What `json_get_handler` sends as bytes is read back by `json_post_handler` as the object it was
made of, name by name and value by value.

## Key results

- `toHttp_eq`: what the handlers see of an item is determined by its value
- `getBody_meets`: the body of a get is the text of the object `json_get_handler` builds
- `parseBody_fieldText`: a post of that text is seen as the object `jsonGetHandler` gives
-/

namespace EspTesting.CJson

open Json (AllTokens AllTokensMembers render)
open Http (cString JsonField JsonFieldType addFieldToJson)

variable {D : Type} {F : Doubles D}

/-! ## Names -/

/-- Every character of the name is a byte other than zero. -/
def ByteName (name : String) : Prop := ∀ c ∈ name.toList, 0 < c.toNat ∧ c.toNat < 256

instance (name : String) : Decidable (ByteName name) :=
  List.decidableBAll _ name.toList

/-- The characters of a name, one byte each, spell the name again. -/
theorem byteName_nameBytes {name : String} (h : ByteName name) :
    byteName (nameBytes name) = name := by
  rw [byteName, nameBytes, List.map_map]
  have hid : name.toList.map ((fun b : UInt8 => Char.ofNat b.toNat) ∘
      fun c => UInt8.ofNat c.toNat) = name.toList.map id := by
    apply List.map_congr_left
    -- a character below 256 survives as a byte
    intro c hc
    have hlt := (h c hc).2
    show Char.ofNat (UInt8.ofNat c.toNat).toNat = c
    rw [UInt8.toNat_ofNat', Nat.mod_eq_of_lt hlt, Char.ofNat_toNat]
  rw [hid, List.map_id, String.ofList_toList]

/-- A name is a C string. -/
theorem cString_nameBytes {name : String} (h : ByteName name) :
    cString (nameBytes name) = nameBytes name := by
  apply cString_of_ne_zero
  intro b hb
  obtain ⟨c, hc, rfl⟩ := List.mem_map.mp hb
  -- a byte zero would be the byte of a character zero
  intro hzero
  have hnat := congrArg UInt8.toNat hzero
  rw [UInt8.toNat_ofNat', Nat.mod_eq_of_lt (h c hc).2] at hnat
  have := (h c hc).1
  simp at hnat
  omega

/-! ## What the handlers see of a value -/

mutual

/-- What `json_post_handler` sees of an item with this value. -/
def ofValue (F : Doubles D) : Json D → Http.CJson
  | .null => .null
  | .bool b => .bool b
  | .number d => .number (F.saturate d).toInt
  | .string s => .string (cString s)
  | .array vs => .array (ofValues F vs)
  | .object ms => .object (ofPairs F ms)

def ofValues (F : Doubles D) : List (Json D) → List Http.CJson
  | [] => []
  | v :: vs => ofValue F v :: ofValues F vs

def ofPairs (F : Doubles D) : List (List UInt8 × Json D) → List (String × Http.CJson)
  | [] => []
  | (s, v) :: ms => (byteName (cString s), ofValue F v) :: ofPairs F ms

end

mutual

/-- What the handlers see of an item is determined by its value. -/
theorem toHttp_eq : ∀ item : Item D, item.WellFormed F → item.toHttp = ofValue F item.value
  | ⟨type, valuestring, valueint, valuedouble, string, child⟩, h => by
    cases type with
    -- no well-formed item is of these types
    | invalid | raw => exact absurd h (by simp only [Item.WellFormed]; exact id)
    | null | false | true => simp only [Item.toHttp, Item.value, ofValue]
    | number =>
      simp only [Item.WellFormed] at h
      simp only [Item.toHttp, Item.value, ofValue, h.2.1]
    | string =>
      simp only [Item.WellFormed] at h
      obtain ⟨s, rfl⟩ := Option.isSome_iff_exists.mp h.1
      simp only [Item.toHttp, Item.value, ofValue, Option.getD_some]
    -- for a list or an object the children follow below
    | array =>
      simp only [Item.WellFormed] at h
      simp only [Item.toHttp, Item.value, ofValue, elementsToHttp_eq child h.2]
    | object =>
      simp only [Item.WellFormed] at h
      simp only [Item.toHttp, Item.value, ofValue, membersToHttp_eq child h.2]

/-- The same for the elements of an array. -/
theorem elementsToHttp_eq : ∀ child : List (Item D), ElementsWellFormed F child →
    elementsToHttp child = ofValues F (values child)
  | [], _ => by simp only [elementsToHttp, values, ofValues]
  | item :: child, h => by
    simp only [ElementsWellFormed] at h
    simp only [elementsToHttp, values, ofValues, toHttp_eq item h.1.2,
      elementsToHttp_eq child h.2]

/-- The same for the members of an object, under their names. -/
theorem membersToHttp_eq : ∀ child : List (Item D), MembersWellFormed F child →
    membersToHttp child = ofPairs F (members child)
  | [], _ => by simp only [membersToHttp, members, ofPairs]
  | item :: child, h => by
    simp only [MembersWellFormed] at h
    -- every member has a name
    obtain ⟨s, hs⟩ := Option.isSome_iff_exists.mp h.1.1
    simp only [membersToHttp, members, ofPairs, hs, Option.getD_some, toHttp_eq item h.1.2,
      membersToHttp_eq child h.2]

end

/-- An item that `cJSON_Parse` returns is well formed. -/
theorem wellFormed_of_cJsonParse (hF : F.ReadsPrefix) {allocates : Nat → Bool}
    {body : List UInt8} {item : Item D} (h : cJsonParse F allocates body = .ok item) :
    item.WellFormed F := by
  have hmeets := parseWithLengthOpts_meets hF allocates (body ++ [0]) false
  -- the terminator behind the body is part of what is parsed
  cases hparse : parseWithLengthOpts F allocates (body ++ [0]) false with
  | error e =>
    simp only [cJsonParse, hparse, bind, Except.bind, reduceCtorEq] at h
  | ok p =>
    rw [hparse] at hmeets
    simp only [cJsonParse, hparse, bind, Except.bind] at h
    obtain rfl := Except.ok.inj h
    exact hmeets.1

/-- The body of a post, if it is parsed to an item of a known value. -/
theorem parseBody_eq (hF : F.ReadsPrefix) {allocates : Nat → Bool} {body : List UInt8}
    {item : Item D} {v : Json D} (h : cJsonParse F allocates body = .ok item)
    (hv : item.value = v) : parseBody F allocates body = some (ofValue F v) := by
  simp only [parseBody, h, toHttp_eq item (wellFormed_of_cJsonParse hF h), hv]

/-! ## The object of a get -/

section

variable {m : Mem} {type : JsonFieldType} {ptr : Nat}

/-- The item of a field is well formed. -/
theorem wellFormed_fieldItem : (fieldItem F m type ptr).WellFormed F := by
  cases type with
  | int => simp [fieldItem, createNumber, Item.new, Item.WellFormed]
  | bool =>
    cases hb : m ptr != 0 <;> simp [fieldItem, createBool, Item.new, Item.WellFormed, hb]
  | str => simp [fieldItem, createString, Item.new, Item.WellFormed]

/-- No string of it holds a terminator: a text is cut at its own. -/
theorem noZero_fieldItem : NoZero (fieldItem F m type ptr).value := by
  cases type with
  | int => simp [fieldItem, createNumber, Item.new, Item.value, NoZero, AllTokens]
  | bool =>
    cases hb : m ptr != 0 <;>
      simp [fieldItem, createBool, Item.new, Item.value, NoZero, AllTokens, hb]
  | str =>
    simp only [fieldItem, createString, Item.new, Item.value, NoZero, AllTokens, Option.getD_some]
    exact cString_ne_zero _

/-- If it is a number, it is an `int`, and read back as it is written. -/
theorem rereads_fieldItem (hF : F.HoldsInts) :
    AllTokens (fun _ => True) F.Rereads (fieldItem F m type ptr).value := by
  cases type with
  | int =>
    simp only [fieldItem, createNumber, Item.new, Item.value, AllTokens]
    exact rereads_ofInt hF _
  | bool =>
    cases hb : m ptr != 0 <;> simp [fieldItem, createBool, Item.new, Item.value, AllTokens, hb]
  | str => simp [fieldItem, createString, Item.new, Item.value, AllTokens]

/-- It is no array and no object. -/
theorem depth_fieldItem : (fieldItem F m type ptr).value.depth = 0 := by
  cases type with
  | int => simp [fieldItem, createNumber, Item.new, Item.value, Json.depth]
  | bool =>
    cases hb : m ptr != 0 <;> simp [fieldItem, createBool, Item.new, Item.value, Json.depth, hb]
  | str => simp [fieldItem, createString, Item.new, Item.value, Json.depth]

/-- The item of a field stands for what `jsonGetHandler` gives for it. -/
theorem ofValue_fieldItem (hF : F.HoldsInts) (field : JsonField) :
    ofValue F (fieldItem F m field.type ptr).value = addFieldToJson m field ptr := by
  cases htype : field.type with
  -- the number printed is the `int` that is stored
  | int =>
    simp only [fieldItem, createNumber, Item.new, Item.value, ofValue, hF.saturate,
      addFieldToJson, htype, Int32.toInt_ofInt]
    rfl
  | bool =>
    cases hb : m ptr != 0 <;>
      simp [fieldItem, createBool, Item.new, Item.value, ofValue, addFieldToJson, htype, hb]
  -- cutting the text a second time changes nothing
  | str =>
    simp only [fieldItem, createString, Item.new, Item.value, ofValue, addFieldToJson, htype,
      Option.getD_some, cString_cString]

end

/-! ### Members by member -/

/-- The members of an object, read off its children. -/
theorem members_eq_map (child : List (Item D)) :
    members child = child.map fun item => (item.string.getD [], item.value) := by
  induction child with
  | nil => rw [members, List.map_nil]
  | cons item child ih => rw [members, List.map_cons, ih]

/-- The members are well formed one by one. -/
theorem membersWellFormed_iff {child : List (Item D)} :
    MembersWellFormed F child ↔ ∀ item ∈ child, item.string.isSome ∧ item.WellFormed F := by
  induction child with
  | nil => simp [MembersWellFormed]
  | cons item child ih => rw [MembersWellFormed, ih, List.forall_mem_cons]

/-- A property of all tokens of the members, member by member. -/
theorem allTokensMembers_iff {S : List UInt8 → Prop} {P : D → Prop}
    {ms : List (List UInt8 × Json D)} :
    AllTokensMembers S P ms ↔ ∀ member ∈ ms, S member.1 ∧ AllTokens S P member.2 := by
  induction ms with
  | nil => simp [AllTokensMembers]
  | cons member ms ih => rw [AllTokensMembers, ih, List.forall_mem_cons]

/-- The depth of members that are all at most so deep. -/
theorem membersDepth_le {ms : List (List UInt8 × Json D)} {n : Nat}
    (h : ∀ member ∈ ms, member.2.depth ≤ n) : Json.membersDepth ms ≤ n := by
  induction ms with
  | nil => exact Nat.zero_le n
  | cons member ms ih =>
    obtain ⟨hmember, hms⟩ := List.forall_mem_cons.mp h
    have := ih hms
    rw [Json.membersDepth]
    omega

/-- What the handlers see of members, member by member. -/
theorem ofPairs_eq_map (ms : List (List UInt8 × Json D)) :
    ofPairs F ms = ms.map fun member => (byteName (cString member.1), ofValue F member.2) := by
  induction ms with
  | nil => rw [ofPairs, List.map_nil]
  | cons member ms ih => rw [ofPairs, List.map_cons, ih]

/-! ### The object for the fields -/

/-- An item under a name. -/
def Item.named (item : Item D) (name : List UInt8) : Item D := { item with string := some name }

/-- A name does not change the value of an item. -/
@[simp] theorem value_named (item : Item D) (name : List UInt8) :
    (item.named name).value = item.value := by
  cases item
  simp only [Item.named, Item.value]

/-- Nor whether it is well formed. -/
@[simp] theorem wellFormed_named {item : Item D} {name : List UInt8} :
    (item.named name).WellFormed F ↔ item.WellFormed F := by
  cases item
  simp only [Item.named, Item.WellFormed]

/-- The item has the name. -/
@[simp] theorem string_named (item : Item D) (name : List UInt8) :
    (item.named name).string = some name := rfl

/-- The items that `json_get_handler` adds for the fields. -/
def fieldItems (F : Doubles D) (m : Mem) (fields : List JsonField) : List (Item D) :=
  fields.filterMap fun field => field.ptr.map fun ptr =>
    (fieldItem F m field.type ptr).named (cString (nameBytes field.name))

/-- An item is added for each field that has a pointer. -/
theorem mem_fieldItems {m : Mem} {fields : List JsonField} {item : Item D} :
    item ∈ fieldItems F m fields ↔ ∃ field ∈ fields, ∃ ptr, field.ptr = some ptr ∧
      (fieldItem F m field.type ptr).named (cString (nameBytes field.name)) = item := by
  simp only [fieldItems, List.mem_filterMap, Option.map_eq_some_iff]

/-- The loop over the fields adds their items, one behind the other. -/
theorem foldl_addField (m : Mem) (fields : List JsonField) (object : Item D) :
    fields.foldl (addField F m) object =
      { object with child := object.child ++ fieldItems F m fields } := by
  induction fields generalizing object with
  | nil =>
    cases object
    simp [fieldItems]
  | cons field fields ih =>
    rw [List.foldl_cons, ih]
    -- a field without a pointer is skipped
    cases hptr : field.ptr with
    | none => simp [addField, fieldItems, hptr]
    | some ptr => simp [addField, fieldItems, hptr, Item.addItemToObject, Item.named]

section

variable (F : Doubles D) (m : Mem) (fields : List JsonField)

/-- The object that `json_get_handler` prints. -/
def fieldObject : Item D := fields.foldl (addField F m) (createObject F)

/-- The object has the items of the fields as its children. -/
theorem fieldObject_eq : fieldObject F m fields =
    { Item.new F with type := .object, child := fieldItems F m fields } := by
  rw [fieldObject, foldl_addField]
  rfl

/-- The members of the object, with their values. -/
def fieldMembers : List (List UInt8 × Json D) :=
  (fieldItems F m fields).map fun item => (item.string.getD [], item.value)

/-- Its value is an object of their values. -/
theorem value_fieldObject : (fieldObject F m fields).value = .object (fieldMembers F m fields) := by
  rw [fieldObject_eq]
  simp only [Item.value, members_eq_map]
  rfl

/-- Each of its members is that of a field. -/
theorem mem_fieldMembers {member : List UInt8 × Json D} (h : member ∈ fieldMembers F m fields) :
    ∃ field ∈ fields, ∃ ptr, field.ptr = some ptr ∧
      member = (cString (nameBytes field.name), (fieldItem F m field.type ptr).value) := by
  obtain ⟨item, hitem, rfl⟩ := List.mem_map.mp h
  obtain ⟨field, hfield, ptr, hptr, rfl⟩ := mem_fieldItems.mp hitem
  exact ⟨field, hfield, ptr, hptr, by rw [value_named]; rfl⟩

/-- The object is well formed, as each of its items is. -/
theorem wellFormed_fieldObject : (fieldObject F m fields).WellFormed F := by
  rw [fieldObject_eq]
  simp only [Item.new, Item.WellFormed, true_and, membersWellFormed_iff]
  intro item hitem
  obtain ⟨field, -, ptr, -, rfl⟩ := mem_fieldItems.mp hitem
  exact ⟨rfl, wellFormed_named.mpr wellFormed_fieldItem⟩

/-- No string of the object holds a terminator. -/
theorem noZero_fieldObject : NoZero (fieldObject F m fields).value := by
  rw [value_fieldObject, NoZero, AllTokens, allTokensMembers_iff]
  intro member hmember
  obtain ⟨field, -, ptr, -, rfl⟩ := mem_fieldMembers F m fields hmember
  -- neither the name nor the value of a member
  exact ⟨cString_ne_zero _, noZero_fieldItem⟩

/-- Every number of the object is read back as it is written. -/
theorem rereads_fieldObject {F : Doubles D} (hF : F.HoldsInts) :
    AllTokens (fun _ => True) F.Rereads (fieldObject F m fields).value := by
  rw [value_fieldObject, AllTokens, allTokensMembers_iff]
  intro member hmember
  obtain ⟨field, -, ptr, -, rfl⟩ := mem_fieldMembers F m fields hmember
  exact ⟨trivial, rereads_fieldItem hF⟩

/-- The object is not too deep to be parsed: its members are flat. -/
theorem depth_fieldObject : (fieldObject F m fields).value.depth ≤ nestingLimit := by
  have hdepth : Json.membersDepth (fieldMembers F m fields) ≤ 0 := by
    apply membersDepth_le
    intro member hmember
    obtain ⟨field, -, ptr, -, rfl⟩ := mem_fieldMembers F m fields hmember
    exact Nat.le_of_eq depth_fieldItem
  rw [value_fieldObject, Json.depth, nestingLimit]
  omega

/-- The object `jsonGetHandler` gives for the fields. -/
def getObject : List (String × Http.CJson) :=
  fields.filterMap fun field => field.ptr.map fun ptr => (field.name, addFieldToJson m field ptr)

/-- What the handlers see of the object is what `jsonGetHandler` gives. -/
theorem ofValue_fieldObject {F : Doubles D} (hF : F.HoldsInts)
    (hnames : ∀ field ∈ fields, ByteName field.name) :
    ofValue F (fieldObject F m fields).value = .object (getObject m fields) := by
  rw [value_fieldObject, ofValue, ofPairs_eq_map, fieldMembers, fieldItems, List.map_filterMap,
    List.map_filterMap, getObject]
  congr 1
  apply List.filterMap_congr
  intro field hfield
  -- both sides skip the fields without a pointer
  cases field.ptr with
  | none => rfl
  | some ptr =>
    have hname := hnames field hfield
    simp only [Option.map_some, value_named, ofValue_fieldItem hF, string_named, Option.getD_some,
      cString_nameBytes hname, byteName_nameBytes hname]

end

/-! ## There and back -/

/-- The text of the object. -/
def fieldText (F : Doubles D) (m : Mem) (fields : List JsonField) : List UInt8 :=
  render F.text (.object (fieldMembers F m fields))

/-- The text of the object holds no terminator. -/
theorem fieldText_ne_zero (hF : F.PrintsShort) (m : Mem) (fields : List JsonField) :
    ∀ c ∈ fieldText F m fields, c ≠ 0 :=
  render_ne_zero (fun n => (numberText_eq hF n).2.2) _

/-- The body of a get is the text of the object, or there is none. -/
theorem getBody_meets (hF : F.PrintsShort) {hooks : Hooks} (hsized : hooks.Sized)
    (fields : List JsonField) (m : Mem) :
    (getBody F hooks fields m).Meets (Refused hooks (fieldText F m fields).length)
      (· = fieldText F m fields) := by
  have hmeets := cJsonPrintUnformatted_meets hF hsized (wellFormed_fieldObject F m fields)
    (noZero_fieldObject F m fields)
  rw [value_fieldObject] at hmeets
  rw [getBody]
  -- the printer fails, or the body is its text without the terminator
  cases hprint : cJsonPrintUnformatted F hooks (fields.foldl (addField F m) (createObject F)) with
  | error e =>
    rw [fieldObject, hprint] at hmeets
    exact hmeets
  | ok out =>
    rw [fieldObject, hprint] at hmeets
    obtain rfl : out = fieldText F m fields ++ [0] := hmeets
    exact cString_terminated (fieldText_ne_zero hF m fields)

/-- `json_post_handler` sees the text of the object as the object `jsonGetHandler` gives. -/
theorem parseBody_fieldText (hF : F.PrintsShort) (hreads : F.ReadsPrefix) (hints : F.HoldsInts)
    {allocates : Nat → Bool} (hallocates : ∀ k, allocates k = true) (m : Mem)
    {fields : List JsonField} (hnames : ∀ field ∈ fields, ByteName field.name) :
    parseBody F allocates (fieldText F m fields) = some (.object (getObject m fields)) := by
  have hdepth := depth_fieldObject F m fields
  have hnumbers := rereads_fieldObject m fields hints
  -- the text is parsed to an item with the value of the object, and its value is all that counts
  rw [value_fieldObject] at hdepth hnumbers
  obtain ⟨item, hparse, hvalue⟩ := cJsonParse_render hF hallocates hdepth hnumbers
  rw [← ofValue_fieldObject m fields hints hnames, value_fieldObject]
  exact parseBody_eq hreads hparse hvalue

end EspTesting.CJson
