import EspTesting.ForStd.Machine
import EspTesting.Native.DeviceHttpServer

/-!
# The fields an endpoint exposes

Nothing says which fields belong to an endpoint: it takes those from a start index on, and the
start index is moved by the first field behind an endpoint, if that field is added. A field
that is refused leaves the index where it was, so an endpoint behind it gets the fields of the
endpoint before, like one that was meant to share them.

## Key results

- `addJsonField_cases`, `addJsonEndpoint_cases`: what a call does
- `History.Valid.step`: what the start index and the flag say about the fields
- `jsonEndpoints_ownFields_iff`
-/

namespace EspTesting.Http

/-! ## Slices -/

/-- The slice of the handler lies inside the table. -/
def JsonHttpHandler.Inside (handler : JsonHttpHandler) (data : List JsonField) : Prop :=
  handler.fields + handler.fieldCount ≤ data.length

/-- The two handlers work on the same fields of the table. -/
def JsonHttpHandler.SameSlice (handler other : JsonHttpHandler) : Prop :=
  handler.fields = other.fields ∧ handler.fieldCount = other.fieldCount

variable {cfg : JsonFieldCfg} {cnf : JsonConfig} {handler : JsonHttpHandler}
  {data : List JsonField}

/-- More fields behind leave the handler inside. -/
theorem JsonHttpHandler.Inside.append (h : handler.Inside data) (more : List JsonField) :
    handler.Inside (data ++ more) := by
  unfold JsonHttpHandler.Inside at h ⊢
  rw [List.length_append]
  omega

/-- A slice inside the table stays as it is when fields are added. -/
theorem JsonHttpHandler.Inside.slice_append (h : handler.Inside data) (more : List JsonField) :
    handler.slice (data ++ more) = handler.slice data := by
  unfold JsonHttpHandler.Inside at h
  unfold JsonHttpHandler.slice
  rw [List.drop_append_of_le_length (by omega), List.take_append_of_le_length]
  rw [List.length_drop]
  omega

/-- A slice up to the end of the table. -/
theorem slice_of_end (h : handler.fields + handler.fieldCount = data.length) :
    handler.slice data = data.drop handler.fields := by
  unfold JsonHttpHandler.slice
  apply List.take_of_length_le
  rw [List.length_drop]
  omega

/-! ## Calls -/

/-- A field is refused, or it is added and starts a group if it is the first one behind an
    endpoint. -/
theorem addJsonField_cases (cfg : JsonFieldCfg) (name : String) (type : JsonFieldType)
    (ptr : Option Nat) :
    addJsonField cfg name type ptr = (false, cfg) ∨
    addJsonField cfg name type ptr = (true,
      { data := cfg.data ++ [⟨name, ptr, 0, type⟩], capacity := cfg.capacity
        startDataIndx := if cfg.updateLast then cfg.count else cfg.startDataIndx
        updateLast := false }) := by
  unfold addJsonField
  split
  · exact Or.inl rfl
  · split
    · exact Or.inl rfl
    · apply Or.inr
      cases hlast : cfg.updateLast with
      | true => rfl
      | false => simp [hlast]

/-- The handler `add_json_endpoint` registers. -/
def JsonFieldCfg.toHandler (cfg : JsonFieldCfg) (uri : String) (method : Int) : JsonHttpHandler :=
  { uri, method, fields := cfg.startDataIndx, fieldCount := cfg.count - cfg.startDataIndx }

/-- An endpoint is refused, or there is room and it takes the fields from the start index on. -/
theorem addJsonEndpoint_cases (cnf : JsonConfig) (uri : String) (method : Int)
    (cfg : JsonFieldCfg) :
    addJsonEndpoint cnf uri method cfg = (false, cnf, cfg) ∧
      (cnf.capacity ≤ cnf.count ∨ cfg.count = cfg.startDataIndx) ∨
    addJsonEndpoint cnf uri method cfg =
        (true, { cnf with data := cnf.data ++ [cfg.toHandler uri method] },
          { cfg with updateLast := true }) ∧
      cnf.count < cnf.capacity ∧ cfg.count ≠ cfg.startDataIndx := by
  unfold addJsonEndpoint
  split
  · rename_i hfull
    exact Or.inl ⟨rfl, Or.inl hfull⟩
  · rename_i hroom
    split
    · rename_i hempty
      exact Or.inl ⟨rfl, Or.inr hempty⟩
    · rename_i hfields
      exact Or.inr ⟨rfl, Nat.not_le.mp hroom, hfields⟩

/-! ## Runs -/

/-- A call that fills the tables. -/
inductive ApiCall where
  | field (name : String) (type : JsonFieldType) (ptr : Option Nat)
  | endpoint (uri : String) (method : Int)
  deriving DecidableEq, Repr

/-- What happened since an endpoint was registered: the fields whose add succeeded, and whether
    `add_json_field` was called. -/
structure Since where
  added : List JsonField
  tried : Bool
  deriving DecidableEq, Repr

/-- The tables, beside what happened since the last endpoint was registered, and for each
    endpoint, what had happened since the one before it when it was registered. -/
structure History where
  api : JsonApi
  since : Since
  groups : List Since
  deriving DecidableEq, Repr

/-- Tables that were just initialised. -/
def History.init (fields endpoints : Nat) : History :=
  { api := ⟨.init fields, .init endpoints⟩, since := ⟨[], false⟩, groups := [] }

/-- A call. -/
def History.step (s : History) : ApiCall → History
  | .field name type ptr =>
    let added := (addJsonField s.api.jsonFieldsCfg name type ptr).1
    { s with
      api := s.api.field name type ptr
      since :=
        { added := if added then s.since.added ++ [⟨name, ptr, 0, type⟩] else s.since.added
          tried := true } }
  | .endpoint uri method =>
    let registered := (addJsonEndpoint s.api.jsonCfg uri method s.api.jsonFieldsCfg).1
    { api := s.api.endpoint uri method
      since := if registered then ⟨[], false⟩ else s.since
      groups := if registered then s.groups ++ [s.since] else s.groups }

/-- The fields stored. -/
abbrev History.fields (s : History) : List JsonField := s.api.jsonFieldsCfg.data

/-- The endpoints registered. -/
abbrev History.endpoints (s : History) : List JsonHttpHandler := s.api.jsonCfg.data

/-- The slice of the endpoint at index `k` lies inside the fields stored. It has exactly the
    fields added since the endpoint before it or, if `add_json_field` was not called since then,
    is the slice of that endpoint. -/
def History.OwnsAt (s : History) (k : Nat) (handler : JsonHttpHandler) : Prop :=
  handler.Inside s.fields ∧ ∃ since, s.groups[k]? = some since ∧
    (handler.slice s.fields = since.added ∨
      since.tried = false ∧ ∃ j previous, k = j + 1 ∧ s.endpoints[j]? = some previous ∧
        handler.SameSlice previous)

/-- Every endpoint exposes its own fields only. -/
def History.OwnFields (s : History) : Prop :=
  ∀ k handler, s.endpoints[k]? = some handler → s.OwnsAt k handler

/-- No endpoint is registered while the flag is still set behind a call of `add_json_field`. -/
def NotTakenOver (s : History) : ApiCall → Prop
  | .field .. => True
  | .endpoint .. => s.api.jsonCfg.count < s.api.jsonCfg.capacity →
      s.api.jsonFieldsCfg.updateLast = true → s.since.tried = false

/-! ## What the start index and the flag say -/

/-- What holds of the tables: the fields from the start index on are those added since the last
    endpoint, or they are those of that endpoint while the flag is set. -/
structure History.Valid (s : History) : Prop where
  groups : s.groups.length = s.endpoints.length
  inside : ∀ handler ∈ s.endpoints, handler.Inside s.fields
  start_le : s.api.jsonFieldsCfg.startDataIndx ≤ s.fields.length
  own : s.api.jsonFieldsCfg.updateLast = false →
    s.fields.drop s.api.jsonFieldsCfg.startDataIndx = s.since.added
  shared : s.api.jsonFieldsCfg.updateLast = true → s.since.added = [] ∧
    s.api.jsonFieldsCfg.startDataIndx < s.fields.length ∧
    ∃ j previous, s.endpoints.length = j + 1 ∧ s.endpoints[j]? = some previous ∧
      previous.fields = s.api.jsonFieldsCfg.startDataIndx ∧
      previous.fieldCount = s.fields.length - s.api.jsonFieldsCfg.startDataIndx

variable {s s' : History} {call : ApiCall}

/-- The history when a field was added. -/
def History.addField (s : History) (field : JsonField) : History :=
  { s with
    api.jsonFieldsCfg :=
      { data := s.fields ++ [field], capacity := s.api.jsonFieldsCfg.capacity
        startDataIndx := if s.api.jsonFieldsCfg.updateLast then s.fields.length
          else s.api.jsonFieldsCfg.startDataIndx
        updateLast := false }
    since := { added := s.since.added ++ [field], tried := true } }

/-- The history when an endpoint was registered. -/
def History.register (s : History) (handler : JsonHttpHandler) : History :=
  { api :=
      { jsonFieldsCfg := { s.api.jsonFieldsCfg with updateLast := true }
        jsonCfg := { s.api.jsonCfg with data := s.endpoints ++ [handler] } }
    since := ⟨[], false⟩
    groups := s.groups ++ [s.since] }

/-- Registering an endpoint leaves the fields. -/
@[simp] theorem fields_register (s : History) (handler : JsonHttpHandler) :
    (s.register handler).fields = s.fields := rfl

/-- The endpoint is registered behind the others. -/
@[simp] theorem endpoints_register (s : History) (handler : JsonHttpHandler) :
    (s.register handler).endpoints = s.endpoints ++ [handler] := rfl

/-- The group of the endpoint is noted. -/
@[simp] theorem groups_register (s : History) (handler : JsonHttpHandler) :
    (s.register handler).groups = s.groups ++ [s.since] := rfl

/-- What a call does to the tables and the history. -/
inductive Stepped (s : History) : ApiCall → History → Prop
  | refusedField {name type ptr} :
    Stepped s (.field name type ptr) { s with since := { s.since with tried := true } }
  | addedField {name type ptr} :
    Stepped s (.field name type ptr) (s.addField ⟨name, ptr, 0, type⟩)
  | refusedEndpoint {uri method}
      (h : s.api.jsonCfg.capacity ≤ s.endpoints.length ∨
        s.fields.length = s.api.jsonFieldsCfg.startDataIndx) :
    Stepped s (.endpoint uri method) s
  | addedEndpoint {uri method} (hroom : s.endpoints.length < s.api.jsonCfg.capacity)
      (hfields : s.fields.length ≠ s.api.jsonFieldsCfg.startDataIndx) :
    Stepped s (.endpoint uri method) (s.register (s.api.jsonFieldsCfg.toHandler uri method))

/-- A call is refused, or it adds a field or an endpoint. -/
theorem stepped_step (s : History) (call : ApiCall) : Stepped s call (s.step call) := by
  cases call with
  | field name type ptr =>
    unfold History.step JsonApi.field
    dsimp only
    obtain h | h := addJsonField_cases s.api.jsonFieldsCfg name type ptr
    · rw [h]
      exact Stepped.refusedField
    · rw [h]
      exact Stepped.addedField
  | endpoint uri method =>
    unfold History.step JsonApi.endpoint
    dsimp only
    obtain ⟨h, hwhy⟩ | ⟨h, hroom, hfields⟩ :=
      addJsonEndpoint_cases s.api.jsonCfg uri method s.api.jsonFieldsCfg
    · rw [h]
      exact Stepped.refusedEndpoint hwhy
    · rw [h]
      exact Stepped.addedEndpoint hroom hfields

/-- Nothing is wrong before the first call. -/
theorem valid_init (fields endpoints : Nat) : (History.init fields endpoints).Valid where
  groups := rfl
  inside := fun _ hmem => absurd hmem List.not_mem_nil
  start_le := Nat.le_refl 0
  own := fun _ => rfl
  shared := fun hlast => Bool.noConfusion hlast

/-- The handler that is registered has the fields from the start index on. -/
theorem inside_toHandler (h : s.Valid) (uri : String) (method : Int) :
    (s.api.jsonFieldsCfg.toHandler uri method).Inside s.fields := by
  have hle := h.start_le
  show s.api.jsonFieldsCfg.startDataIndx +
    (s.fields.length - s.api.jsonFieldsCfg.startDataIndx) ≤ s.fields.length
  omega

/-- The handler takes the fields from the start index on. -/
theorem slice_toHandler (h : s.Valid) (uri : String) (method : Int) :
    (s.api.jsonFieldsCfg.toHandler uri method).slice s.fields =
      s.fields.drop s.api.jsonFieldsCfg.startDataIndx := by
  have hle := h.start_le
  apply slice_of_end
  show s.api.jsonFieldsCfg.startDataIndx +
    (s.fields.length - s.api.jsonFieldsCfg.startDataIndx) = s.fields.length
  omega

/-- Every call keeps the history valid. -/
theorem History.Valid.step (h : s.Valid) (call : ApiCall) : (s.step call).Valid := by
  have hstepped := stepped_step s call
  generalize s.step call = s' at hstepped
  cases hstepped with
  | refusedField =>
    exact ⟨h.groups, h.inside, h.start_le, h.own, h.shared⟩
  | addedField =>
    refine ⟨h.groups, fun handler hmem => (h.inside handler hmem).append _, ?_, ?_, ?_⟩
    · -- the start index is behind no field
      have hle := h.start_le
      dsimp only [History.addField, History.fields]
      rw [List.length_append]
      split
      · exact Nat.le_add_right _ _
      · exact Nat.le_add_right_of_le hle
    · intro _
      dsimp only [History.addField, History.fields]
      cases hlast : s.api.jsonFieldsCfg.updateLast with
      | true => simp [(h.shared hlast).1]
      | false =>
        rw [if_neg Bool.false_ne_true, List.drop_append_of_le_length h.start_le, h.own hlast]
    · exact fun hlast => Bool.noConfusion hlast
  | refusedEndpoint => exact h
  | addedEndpoint hroom hfields =>
    refine ⟨?_, ?_, h.start_le, fun hlast => Bool.noConfusion hlast, fun _ => ⟨rfl, ?_, ?_⟩⟩
    · simp [h.groups]
    · intro handler hmem
      obtain hold | hnew := List.mem_append.mp hmem
      · exact h.inside handler hold
      · rw [List.mem_singleton.mp hnew]
        exact inside_toHandler h _ _
    · exact Nat.lt_of_le_of_ne h.start_le (Ne.symm hfields)
    · exact ⟨s.endpoints.length, _, List.length_append, List.getElem?_concat_length, rfl, rfl⟩

/-! ## What the endpoints expose -/

/-- What an endpoint exposes stays as it is when fields and further endpoints are added. -/
theorem ownsAt_congr {k : Nat} {handler : JsonHttpHandler}
    (hfields : s.fields <+: s'.fields) (hinside : handler.Inside s.fields)
    (hgroups : s'.groups[k]? = s.groups[k]?)
    (hendpoints : ∀ j < k, s'.endpoints[j]? = s.endpoints[j]?) :
    s'.OwnsAt k handler ↔ s.OwnsAt k handler := by
  obtain ⟨more, hmore⟩ := hfields
  unfold History.OwnsAt
  rw [← hmore, hinside.slice_append, hgroups]
  apply and_congr (iff_of_true (hinside.append more) hinside)
  -- the group is the same; compare what came before
  apply exists_congr
  intro since
  apply and_congr_right
  intro _
  apply or_congr Iff.rfl
  apply and_congr_right
  intro _
  constructor
  · rintro ⟨j, previous, hk, hprevious, hsame⟩
    rw [hendpoints j (by omega)] at hprevious
    exact ⟨j, previous, hk, hprevious, hsame⟩
  · rintro ⟨j, previous, hk, hprevious, hsame⟩
    rw [← hendpoints j (by omega)] at hprevious
    exact ⟨j, previous, hk, hprevious, hsame⟩

/-- The endpoints registered before stay as they were. -/
theorem ownsAt_step (h : s.Valid) (call : ApiCall) {k : Nat} {handler : JsonHttpHandler}
    (hk : s.endpoints[k]? = some handler) :
    (s.step call).OwnsAt k handler ↔ s.OwnsAt k handler := by
  have hinside := h.inside handler (List.mem_of_getElem? hk)
  have hlt : k < s.endpoints.length := (List.getElem?_eq_some_iff.mp hk).1
  have hstepped := stepped_step s call
  generalize s.step call = s' at hstepped
  cases hstepped with
  | refusedField => exact ownsAt_congr (List.prefix_refl _) hinside rfl fun _ _ => rfl
  | addedField => exact ownsAt_congr (List.prefix_append ..) hinside rfl fun _ _ => rfl
  | refusedEndpoint => exact Iff.rfl
  -- the new endpoint is behind this one
  | addedEndpoint =>
    apply ownsAt_congr
    · exact List.prefix_refl _
    · exact hinside
    · rw [groups_register, List.getElem?_append_left (by rw [h.groups]; exact hlt)]
    · intro j hj
      rw [endpoints_register, List.getElem?_append_left (by omega)]

/-- The endpoint that is registered exposes its own fields exactly if they are not those of the
    endpoint before it behind a call of `add_json_field`. -/
theorem ownsAt_added (h : s.Valid) {uri : String} {method : Int}
    (hroom : s.endpoints.length < s.api.jsonCfg.capacity) :
    (s.register (s.api.jsonFieldsCfg.toHandler uri method)).OwnsAt s.endpoints.length
      (s.api.jsonFieldsCfg.toHandler uri method) ↔ NotTakenOver s (.endpoint uri method) := by
  have hgroup : (s.groups ++ [s.since])[s.endpoints.length]? = some s.since := by
    rw [← h.groups, List.getElem?_concat_length]
  unfold History.OwnsAt
  rw [fields_register, groups_register, hgroup, slice_toHandler h, endpoints_register]
  simp only [Option.some.injEq, exists_eq_left']
  constructor
  · intro hown _ hlast
    obtain ⟨_, heq | ⟨htried, _⟩⟩ := hown
    · -- no field was added, and the slice has some
      obtain ⟨hnone, hlt, _⟩ := h.shared hlast
      have hlen := congrArg List.length heq
      rw [hnone, List.length_drop, List.length_nil] at hlen
      omega
    · exact htried
  · intro hkeep
    refine ⟨inside_toHandler h uri method, ?_⟩
    cases hlast : s.api.jsonFieldsCfg.updateLast with
    | false => exact Or.inl (h.own hlast)
    | true =>
      obtain ⟨_, _, j, previous, hj, hprevious, hstart, hcount⟩ := h.shared hlast
      refine Or.inr ⟨hkeep hroom hlast, j, previous, hj, ?_, hstart.symm, hcount.symm⟩
      rw [List.getElem?_append_left (by omega)]
      exact hprevious

/-- A call spoils what the endpoints expose exactly if it lets one take fields over. -/
theorem ownFields_step_iff (h : s.Valid) (call : ApiCall) :
    (s.step call).OwnFields ↔ s.OwnFields ∧ NotTakenOver s call := by
  have hold (k : Nat) (handler : JsonHttpHandler) : (s.endpoints[k]? = some handler →
      (s.step call).OwnsAt k handler) ↔ (s.endpoints[k]? = some handler → s.OwnsAt k handler) :=
    imp_congr_right fun hk => ownsAt_step h call hk
  have hstepped := stepped_step s call
  generalize s.step call = s' at hstepped hold
  cases hstepped with
  | refusedField =>
    exact (forall₂_congr hold).trans (and_iff_left trivial).symm
  | addedField =>
    exact (forall₂_congr hold).trans (and_iff_left trivial).symm
  | refusedEndpoint hwhy =>
    apply (and_iff_left _).symm
    intro hroom hlast
    -- behind an endpoint there are fields, so there is no room
    have hroom' : s.endpoints.length < s.api.jsonCfg.capacity := hroom
    obtain ⟨_, hlt, _⟩ := h.shared hlast
    omega
  | @addedEndpoint uri method hroom _ =>
    rw [← ownsAt_added h hroom]
    unfold History.OwnFields
    rw [← forall₂_congr hold, endpoints_register]
    constructor
    · intro hall
      constructor
      · intro k handler hk
        have hlt := (List.getElem?_eq_some_iff.mp hk).1
        exact hall k handler (by rw [List.getElem?_append_left hlt, hk])
      · exact hall _ _ List.getElem?_concat_length
    · -- an endpoint of before, or the new one
      rintro ⟨hbefore, hnew⟩ k handler hk
      obtain hlt | hge := Nat.lt_or_ge k s.endpoints.length
      · rw [List.getElem?_append_left hlt] at hk
        exact hbefore k handler hk
      · have hlen := (List.getElem?_eq_some_iff.mp hk).1
        rw [List.length_append, List.length_singleton] at hlen
        have hlast : k = s.endpoints.length := by omega
        rw [hlast, List.getElem?_concat_length] at hk
        rw [hlast, ← Option.some.inj hk]
        exact hnew

/-- The endpoints expose their own fields only in exactly the runs that never register an
    endpoint behind refused fields, with the flag still set by the endpoint before it. -/
theorem jsonEndpoints_ownFields_iff (fields endpoints : Nat) (calls : List ApiCall) :
    (Machine.run History.step (.init fields endpoints) calls).OwnFields ↔
      Machine.Meets History.step NotTakenOver (.init fields endpoints) calls := by
  have hinit : (History.init fields endpoints).OwnFields :=
    fun _ _ hk => absurd hk (Option.some_ne_none _).symm
  rw [Machine.run_iff_meets (fun _ call hs => hs.step call)
    (fun _ call hs => ownFields_step_iff hs call) (valid_init fields endpoints) calls]
  exact and_iff_right hinit

/-- A table with room for one field: the second endpoint exposes the field of the first. -/
theorem jsonEndpoints_field_taken_over :
    ¬(Machine.run History.step (.init 1 2)
      [.field "a" .int (some 0), .endpoint "/a" httpGet, .field "b" .int (some 4),
        .endpoint "/b" httpGet]).OwnFields := by
  intro h
  obtain ⟨_, since, hsince, hown⟩ := h 1 ⟨"/b", httpGet, 0, 1⟩ rfl
  -- the second field was refused
  obtain rfl : (⟨[], true⟩ : Since) = since := Option.some.inj hsince
  obtain hslice | ⟨htried, _⟩ := hown
  · exact absurd hslice (List.cons_ne_nil _ _)
  · exact Bool.noConfusion htried

end EspTesting.Http
