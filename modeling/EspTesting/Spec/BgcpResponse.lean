import EspTesting.Spec.BgcpRoundTrip
import EspTesting.Spec.BgcpValidity

/-!
# The response to a message

Each request that asks for an answer pushes exactly one entry: the value of its variable as
the request's own update left it, or the not-supported mark. `rq_applyAll` follows this
through a whole message; the entries pushed are those of `answers`, so the response is the
message for them and decodes to them.
-/

namespace EspTesting.Bgcp

/-! ## Answers -/

/-- The bytes of the parameter's variable. -/
def Param.value (param : Param) (m : Mem) : List UInt8 :=
  match param.linkedData with
  | none => []
  | some a => m.load a param.size

/-- The answer to an entry from the memory `m`: one entry if the function asks for it. -/
def answerOf (tbl : ParamList) (m : Mem) (e : Entry) : List Entry :=
  if e.func.asksAnswer then
    match getParam tbl e.num with
    | none => [.notSup e.num]
    | some i => [.param .resp e.num ((tbl.get i).value m)]
  else []

/-- The answers to the entries `es` of a message that opens with `before`: each from the
    memory its own update leaves, that is from the memory the message up to and including
    its entry leaves. -/
def answersAfter (H : Handlers) (s : BgcpState) (before : List Entry) : List Entry → List Entry
  | [] => []
  | e :: es =>
    answerOf s.paramList (s.parse H (encode (before ++ [e]))).mem e ++
      answersAfter H s (before ++ [e]) es

/-- The answers to a message. -/
def answers (H : Handlers) (s : BgcpState) (es : List Entry) : List Entry := answersAfter H s [] es

/-- A parameter with built-in handlers whose variable a message can carry. -/
structure Param.Plain (param : Param) (f : UpdateFunc) (r : RespFunc) (a : Nat) : Prop where
  proc : getParamDataProcessor param = some ⟨some f, some r⟩
  builtin : f.isBuiltin = true
  linked : param.linkedData = some a
  answer : ∀ (H : Handlers) (input : Option (List UInt8)) (w : World),
    w.answer H param input r = w.send param param.size
  size_pos : 1 ≤ param.size
  size_le : param.size ≤ 255

/-- Every number of the table that can be asked for is bound to a plain parameter. -/
def ParamList.Plain (tbl : ParamList) : Prop :=
  ∀ i : Fin paramNumMax, (tbl.get i).paramNum ≠ noParam → ∃ f r a, (tbl.get i).Plain f r a

/-- Sending a plain parameter pushes the entry that carries its value. -/
theorem Param.Plain.send_eq {param : Param} {f : UpdateFunc} {r : RespFunc} {a : Nat}
    (h : param.Plain f r a) (w : World) :
    w.send param param.size = { w with
      rq := w.rq.pushEntry (.param .resp param.paramNum (param.value w.mem)) } := by
  have hle := h.size_le
  have hmod : param.size % 256 = param.size := Nat.mod_eq_of_lt (by omega)
  simp only [World.send, h.linked, Option.map_some, hmod, BGCPQueue.pushEntry, Func.hasData,
    if_true, Param.value, Mem.length_load]
  rfl

namespace World

variable {H : Handlers} {tbl : ParamList}

/-- The answer of one entry goes to the response queue. -/
theorem rq_apply (htbl : tbl.Plain) (w : World) {e : Entry} (hnum : e.num ≠ noParam) :
    (w.apply H tbl e.event).rq =
      w.rq.pushAll (answerOf tbl (w.apply H tbl e.event).mem e) := by
  cases e with
  | notSup n =>
    -- a mark comes under the response function, which asks for nothing
    have hfunc : (Entry.notSup n).func.asksAnswer = false := rfl
    simp only [answerOf, hfunc, apply, Entry.event]
    cases getParam tbl n with
    | none => rfl
    | some i => rfl
  | param f n d =>
    have hread : isReadFunc f.code = f.asksAnswer := f.isReadFunc_code
    simp only [answerOf, apply, Entry.event, Entry.num, Entry.func, hread]
    -- a number without a parameter is answered with a mark
    cases hparam : getParam tbl n with
    | none =>
      cases f.asksAnswer with
      | false => rfl
      | true => rfl
    | some i =>
      have hslot : (tbl.get i).paramNum = n := paramNum_of_getParam hparam
      obtain ⟨uf, r, a, hplain⟩ := htbl i (by rw [hslot]; exact hnum)
      dsimp only
      rw [process_of_builtin H hplain.proc hplain.builtin hplain.linked, hread]
      cases f.asksAnswer with
      | false => rfl
      | true =>
        simp only [BgcpState.callIf, hplain.answer, hplain.send_eq, hslot, if_true]
        rfl

/-- The answers of a list of entries, each from the world the entries before it leave. -/
def answersFrom (H : Handlers) (tbl : ParamList) (w : World) : List Entry → List Entry
  | [] => []
  | e :: es =>
    answerOf tbl (w.apply H tbl e.event).mem e ++ (w.apply H tbl e.event).answersFrom H tbl es

/-- The answers of a message go to the response queue in the order of its entries. -/
theorem rq_applyAll (htbl : tbl.Plain) (w : World) {es : List Entry}
    (hnum : ∀ e ∈ es, e.num ≠ noParam) :
    (w.applyAll H tbl (es.map Entry.event)).rq = w.rq.pushAll (w.answersFrom H tbl es) := by
  induction es generalizing w with
  | nil => rfl
  | cons e es ih =>
    have hhead := rq_apply (H := H) htbl w (hnum e (List.mem_cons_self ..))
    have htail := ih (w.apply H tbl e.event) fun e' h => hnum e' (List.mem_cons_of_mem _ h)
    rw [List.map_cons, applyAll, List.foldl_cons]
    rw [applyAll] at htail
    rw [htail, hhead, answersFrom, BGCPQueue.pushAll, BGCPQueue.pushAll, BGCPQueue.pushAll,
      List.foldl_append]

end World

/-! ## From messages to entries -/

namespace BgcpState

variable {H : Handlers} {s : BgcpState}

/-- The effect of a well-formed message is the effect of its entries. -/
theorem world_parse_encode (H : Handlers) (s : BgcpState) {es : List Entry}
    (hne : es ≠ []) (hes : ∀ e ∈ es, e.WellFormed) :
    (s.parse H (encode es)).world =
      World.applyAll H s.paramList ⟨s.mem, s.rq.resetReqQueue⟩ (es.map Entry.event) := by
  obtain ⟨e, es', rfl⟩ := List.exists_cons_of_ne_nil hne
  have hbegin : (s.beginParse (encode (e :: es'))).1 = true := by
    rw [encode_cons, beginParse_cons]
    exact e.func.isValidFunc_code
  rw [world_parse, if_pos hbegin, decode_encode hes]

/-- The memories `answersAfter` looks at are those the entries leave one after the other. -/
theorem answersAfter_eq (s : BgcpState) (before es : List Entry)
    (hes : ∀ e ∈ before ++ es, e.WellFormed) :
    answersAfter H s before es =
      (World.applyAll H s.paramList ⟨s.mem, s.rq.resetReqQueue⟩
        (before.map Entry.event)).answersFrom H s.paramList es := by
  -- each step moves an entry to those before
  induction es generalizing before with
  | nil => rfl
  | cons e es ih =>
    have hsplit : before ++ e :: es = (before ++ [e]) ++ es := by
      rw [List.append_assoc, List.singleton_append]
    have hprefix : ∀ e' ∈ before ++ [e], e'.WellFormed := fun e' h =>
      hes e' (by rw [hsplit]; exact List.mem_append_left _ h)
    have hworld := world_parse_encode H s
      (List.append_ne_nil_of_right_ne_nil before (List.cons_ne_nil e [])) hprefix
    have hmem : (s.parse H (encode (before ++ [e]))).mem = _ := congrArg World.mem hworld
    rw [answersAfter, ih (before ++ [e]) (by rwa [← hsplit]), hmem]
    simp only [List.map_append, List.map_cons, List.map_nil, World.applyAll, List.foldl_append,
      List.foldl_cons, List.foldl_nil, World.answersFrom]

/-- With plain parameters only, the response to a message is the message for the answers. -/
theorem bytes_parse_encode (htbl : s.paramList.Plain)
    {es : List Entry} (hne : es ≠ []) (hes : ∀ e ∈ es, e.WellFormed)
    (hnum : ∀ e ∈ es, e.num ≠ noParam) (hanswers : ∀ e ∈ answers H s es, e.WellFormed)
    (hfit : (encode (answers H s es)).length < queueBufSize) :
    (s.parse H (encode es)).rq.bytes = encode (answers H s es) := by
  have hworld := world_parse_encode H s hne hes
  have hrq : (s.parse H (encode es)).rq = _ := congrArg World.rq hworld
  have hfrom : answers H s es = World.answersFrom H s.paramList
      ⟨s.mem, s.rq.resetReqQueue⟩ es := answersAfter_eq s [] es hes
  rw [hrq, World.rq_applyAll htbl _ hnum, ← hfrom]
  exact BGCPQueue.bytes_pushAll_reset hanswers hfit

end BgcpState

/-- The answers to well-formed entries with numbers a message can carry are well formed. -/
theorem wellFormed_answers {H : Handlers} {s : BgcpState} (htbl : s.paramList.Plain)
    {before es : List Entry} (hlow : ∀ e ∈ es, e.num.toUInt8 < bgcpCmdFunc)
    (hnum : ∀ e ∈ es, e.num ≠ noParam) :
    ∀ e ∈ answersAfter H s before es, e.WellFormed := by
  induction es generalizing before with
  | nil => exact List.forall_mem_nil _
  | cons e es ih =>
    intro e' h
    rw [answersAfter, List.mem_append] at h
    rcases h with h | h
    · -- the answer of the first entry: a mark, or the value of the parameter
      simp only [answerOf] at h
      split at h
      · cases hparam : getParam s.paramList e.num with
        | none =>
          rw [hparam] at h
          rw [List.mem_singleton.mp h]
          trivial
        | some i =>
          rw [hparam] at h
          rw [List.mem_singleton.mp h]
          have hslot := paramNum_of_getParam hparam
          obtain ⟨f, r, a, hplain⟩ := htbl i (by rw [hslot]; exact hnum e (List.mem_cons_self ..))
          refine ⟨hlow e (List.mem_cons_self ..), ?_⟩
          simp only [Func.hasData, if_true, Param.value, hplain.linked, Mem.length_load]
          exact ⟨hplain.size_pos, hplain.size_le⟩
      · exact absurd h List.not_mem_nil
    · exact ih (fun e' h => hlow e' (List.mem_cons_of_mem _ h))
        (fun e' h => hnum e' (List.mem_cons_of_mem _ h)) e' h

/-! ## Tables of plain parameters -/

namespace BindCall

/-- The call binds a variable a message can carry, to a number other than `NO_PARAM`. -/
def Plain (c : BindCall) : Prop :=
  c.num ≠ noParam ∧ c.linkedData ≠ none ∧ match c with
    | uint8T _ _ _ _ | uint16T _ _ _ _ | bool _ _ | ranked _ _ _ => True
    | binary _ _ size => 1 ≤ size.toNat ∧ size.toNat ≤ 255
    | _ => False

instance : DecidablePred Plain := fun c => by
  cases c <;> unfold Plain <;> infer_instance

/-- The call binds a `uint8_t`, `uint16_t`, `bool` or ranged variable to a number other
    than `NO_PARAM`. -/
def Scalar (c : BindCall) : Prop :=
  c.num ≠ noParam ∧ c.linkedData ≠ none ∧ match c with
    | uint8T _ _ _ _ | uint16T _ _ _ _ | bool _ _ | ranked _ _ _ => True
    | _ => False

instance : DecidablePred Scalar := fun c => by
  cases c <;> unfold Scalar <;> infer_instance

theorem Scalar.plain {c : BindCall} (h : c.Scalar) : c.Plain := by
  obtain ⟨hnum, hlinked, hkind⟩ := h
  refine ⟨hnum, hlinked, ?_⟩
  cases c with
  | binary n a size => exact hkind.elim
  | _ => exact hkind

/-- A plain call puts a plain parameter into its slot. -/
theorem Plain.param {c : BindCall} (h : c.Plain) : ∃ f r a, c.param.Plain f r a := by
  obtain ⟨_, hlinked, hkind⟩ := h
  obtain ⟨a, ha⟩ := Option.ne_none_iff_exists'.mp hlinked
  have hone : (1 : Nat) ≤ 1 ∧ (1 : Nat) ≤ 255 := by decide
  have htwo : (1 : Nat) ≤ 2 ∧ (2 : Nat) ≤ 255 := by decide
  cases c with
  | uint8T n l min max =>
    exact ⟨.updateUint8T, .sendUint8T, a, rfl, rfl, ha, fun _ _ _ => rfl, hone.1, hone.2⟩
  | uint16T n l min max =>
    exact ⟨.updateUint16T, .sendUint16T, a, rfl, rfl, ha, fun _ _ _ => rfl, htwo.1, htwo.2⟩
  | bool n l =>
    exact ⟨.updateBoolDataType, .sendBoolDataType, a, rfl, rfl, ha, fun _ _ _ => rfl,
      hone.1, hone.2⟩
  | ranked n l values =>
    exact ⟨.updateRangeData, .sendUint8T, a, rfl, rfl, ha, fun _ _ _ => rfl, hone.1, hone.2⟩
  | binary n l size =>
    refine ⟨.updateBinDataType, .sendBinDataType, a, rfl, rfl, ha, fun H input w => ?_,
      hkind.1, hkind.2⟩
    -- the size is answered through an `int`
    have hsize : BgcpState.toUnsigned 4 (size.toNat : Int) = size.toNat := by
      have := size.toNat_lt
      simp only [BgcpState.toUnsigned]
      omega
    show w.send _ (BgcpState.toUnsigned 4 (size.toNat : Int)) = w.send _ size.toNat
    rw [hsize]
  | _ => exact hkind.elim

end BindCall

/-- A table built by plain calls is plain. -/
theorem plain_buildTable {binds : List BindCall} (h : ∀ c ∈ binds, c.Plain) :
    (buildTable binds).Plain := by
  intro i hnum
  rcases slot_buildTable binds i with hslot | ⟨c, hc, hslot⟩
  · rw [hslot] at hnum
    exact absurd rfl hnum
  · rw [hslot]
    exact (h c hc).param

/-- A request: any function, a number a message can carry other than `NO_PARAM`. -/
def Entry.IsRequest : Entry → Prop
  | .param f n d => (Entry.param f n d).WellFormed ∧ n ≠ noParam
  | .notSup _ => False

instance : DecidablePred Entry.IsRequest
  | .param f n d => inferInstanceAs (Decidable ((Entry.param f n d).WellFormed ∧ n ≠ noParam))
  | .notSup _ => instDecidableFalse

theorem Entry.IsRequest.spec {e : Entry} (h : e.IsRequest) :
    e.WellFormed ∧ e.num.toUInt8 < bgcpCmdFunc ∧ e.num ≠ noParam := by
  cases e with
  | param f n d => exact ⟨h.1, h.1.1, h.2⟩
  | notSup n => exact h.elim

/-- If the response fits the queue, it decodes to the answers, one for each request that
    asks for one and in their order, exactly if the message is not empty or the queue held
    nothing before: an empty message leaves the queue as it was. -/
theorem decode_response_iff (H : Handlers) {binds : List BindCall}
    (hbinds : ∀ c ∈ binds, c.Scalar) (parser : ParserData) (rq : BGCPQueue) (mem : Mem)
    {es : List Entry} (hes : ∀ e ∈ es, e.IsRequest)
    (hfit : (encode (answers H ⟨parser, rq, buildTable binds, mem⟩ es)).length ≤
      queueBufSize - 1) :
    decode (BgcpState.parse H (encode es) ⟨parser, rq, buildTable binds, mem⟩).rq.bytes =
        (answers H ⟨parser, rq, buildTable binds, mem⟩ es).map Entry.event ↔
      es ≠ [] ∨ decode rq.bytes = [] := by
  have htbl : (buildTable binds).Plain := plain_buildTable fun c hc => (hbinds c hc).plain
  -- an empty message is returned from before the queue is reset
  by_cases hne : es = []
  · subst hne
    exact ⟨Or.inr, fun h => h.elim (absurd rfl) id⟩
  · have hanswers : ∀ e ∈ answers H ⟨parser, rq, buildTable binds, mem⟩ es, e.WellFormed :=
      wellFormed_answers htbl (fun e he => (hes e he).spec.2.1) fun e he => (hes e he).spec.2.2
    have hbytes := @BgcpState.bytes_parse_encode H ⟨parser, rq, buildTable binds, mem⟩
      htbl es hne (fun e he => (hes e he).spec.1)
      (fun e he => (hes e he).spec.2.2) hanswers (Nat.lt_of_le_of_lt hfit (by decide))
    rw [hbytes, decode_encode hanswers]
    exact ⟨fun _ => Or.inl hne, fun _ => rfl⟩

/-- A write of a value out of range, a request for a number that is not bound, and two requests
    that are answered. -/
theorem decode_response_mixed :
    let binds : List BindCall := [.uint8T 1 (some 0) 2 9, .ranked 0x0103 (some 4) [1, 4, 9]]
    let s : BgcpState := ⟨.zero, .zero, buildTable binds, fun _ => 4⟩
    let es : List Entry := [.param .rw 1 [7], .param .w 0x0103 [5], .param .r 0x0102 [],
      .param .incRw 0x0103 []]
    decode (s.parse (fun _ _ m => (m, [])) (encode es)).rq.bytes =
        (answers (fun _ _ m => (m, [])) s es).map Entry.event :=
  (decode_response_iff _ (by decide) _ _ _ (by decide) (by decide +kernel)).mpr
    (Or.inl (by decide))

/-- After a read request was answered, an empty message leaves its answer in the queue. -/
theorem decode_response_of_empty :
    let binds : List BindCall := [.uint8T 1 (some 0) 2 9]
    let s : BgcpState := (BgcpState.mk .zero .zero (buildTable binds) fun _ => 4).parse
      (fun _ _ m => (m, [])) (encode [.param .r 1 []])
    decode (s.parse (fun _ _ m => (m, [])) (encode [])).rq.bytes ≠
      (answers (fun _ _ m => (m, [])) s []).map Entry.event := by
  decide +kernel

end EspTesting.Bgcp
