import EspTesting.ForStd.LossyNetwork
import EspTesting.Spec.BgcpBlockParam
import EspTesting.Spec.BgcpMirror

/-!
# BGCP over a network

A device with parameters is asked by another one, which has the same bindings and mirrors the
values it is answered with. The network loses, repeats and reorders messages, the application of
the first device changes its variables at any time, and requests may change them as well.

## Key results

- `holds_apply`: every perform step keeps the values of plain parameters within their bindings
- `mirror_reachable`: the mirror only ever shows values that the first device had
-/

namespace EspTesting.Bgcp

/-! ## Values within their bindings -/

/-- What the handler of a `bool` stores. -/
theorem boolStore_mem {input : Option (List UInt8)} {old : UInt8} {bytes : List UInt8}
    (h : boolStore input old = some bytes) : bytes = [off] ∨ bytes = [on] := by
  unfold boolStore at h
  cases input with
  | none => cases h
  | some block =>
    -- one byte: set, reset or toggle
    simp only [Option.ite_none_right_eq_some] at h
    obtain ⟨-, h⟩ := h
    split at h
    · split at h
      · exact .inr (Option.some.inj h).symm
      · exact .inl (Option.some.inj h).symm
    · split at h
      · exact .inl (Option.some.inj h).symm
      · split at h
        · exact .inr (Option.some.inj h).symm
        · cases h

section

variable {H : Handlers} {param : Param} {f : UpdateFunc} {r : RespFunc} {a : Nat}

/-- The memory behind a request for a plain parameter. -/
theorem Param.Plain.mem_process (hplain : param.Plain f r a) (input : Option (List UInt8))
    (func : UInt8) (w : World) :
    (w.process H param input func).mem = memAfter f param func input w.mem a := by
  rw [World.process_of_builtin H hplain.proc hplain.builtin hplain.linked]
  cases hread : isReadFunc func with
  | false => rfl
  | true =>
    show (World.answer H param input r _).mem = _
    rw [hplain.answer]
    rfl

/-- The value of a plain parameter is what its variable holds. -/
theorem Param.Plain.value_eq (hplain : param.Plain f r a) (m : Mem) :
    param.value m = m.load a param.size := by
  rw [Param.value, hplain.linked]

/-- A request keeps the value of its parameter within the binding. -/
theorem Param.Holds.process (hplain : param.Plain f r a) (hbounded : param.Bounded) {w : World}
    (h : param.Holds (param.value w.mem)) (input : Option (List UInt8)) (func : UInt8) :
    param.Holds (param.value (w.process H param input func).mem) := by
  have hmem := hplain.mem_process (H := H) input func w
  rw [hplain.value_eq] at h ⊢
  -- a numeric or ranged variable is valid before and after
  have hvalid : param.Valid w.mem → param.ValidAt (w.process H param input func).mem a :=
    fun hv => hv.process hbounded H input func a hplain.linked
  unfold Param.Holds at h ⊢
  cases htype : param.dataType with
  | type8B | type16B =>
    simp only [htype] at h ⊢
    have hv := hvalid fun b hb => by
      obtain rfl := Option.some.inj (hplain.linked.symm.trans hb)
      simp only [Param.ValidAt, htype]
      exact fun _ => h.2
    simp only [Param.ValidAt, htype] at hv
    exact ⟨Mem.length_load .., hv (Int.le_trans h.2.1 h.2.2)⟩
  | type8BRange =>
    have hsize : param.size = 1 := by rw [Param.size, htype]
    simp only [htype, hsize, Mem.load_one] at h ⊢
    obtain ⟨x, hx, heq⟩ := h
    have hv := hvalid fun b hb => by
      obtain rfl := Option.some.inj (hplain.linked.symm.trans hb)
      simp only [Param.ValidAt, htype]
      rw [(List.cons.inj heq).1]
      exact hx
    simp only [Param.ValidAt, htype] at hv
    exact ⟨_, hv, rfl⟩
  -- a bool is stored as on or off
  | type1B =>
    have hsize : param.size = 1 := by rw [Param.size, htype]
    simp only [htype, hsize] at h ⊢
    have hproc := hplain.proc
    rw [getParamDataProcessor_of_type htype (by decide)] at hproc
    obtain rfl : .updateBoolDataType = f := by
      injection hproc with hproc
      injection hproc with hfunc
      exact Option.some.inj hfunc
    rw [hmem, memAfter]
    split
    · simp only [storeOf]
      cases hstore : boolStore input (w.mem a) with
      | none => exact h
      | some bytes =>
        have hbytes := boolStore_mem hstore
        have hlen := length_boolStore hstore
        rw [← hlen, Mem.load_store]
        exact hbytes
    · exact h
  | typeBin =>
    simp only [htype, Mem.length_load] at h ⊢
    exact h
  | _ =>
    rw [htype] at h
    exact h.elim

end

/-- The memories that perform steps leave, one after the other. -/
def World.memories (H : Handlers) (tbl : ParamList) (w : World) : List PerformEvent → List Mem
  | [] => []
  | ev :: evs => (w.apply H tbl ev).mem :: (w.apply H tbl ev).memories H tbl evs

section

variable {H : Handlers} {binds : List BindCall} (hplain : ∀ c ∈ binds, c.Plain)
  (hdist : (buildTable binds).Distinct)

include hplain

/-- No message reaches a handler of the application if all parameters are plain. -/
theorem process_handlers (H H' : Handlers) (i : Fin paramNumMax) (input : Option (List UInt8))
    (func : UInt8) (w : World) : w.process H ((buildTable binds).get i) input func =
      w.process H' ((buildTable binds).get i) input func := by
  rcases slot_buildTable binds i with hslot | ⟨c, hc, hslot⟩
  · -- a free slot has the handlers of a byte
    have hproc : getParamDataProcessor Param.zero =
        some ⟨some .updateUint8T, some .sendUint8T⟩ := rfl
    simp only [hslot, World.process, hproc]
    cases isWriteFunc func <;> cases isReadFunc func <;> rfl
  · obtain ⟨f, r, a, hparam⟩ := (hplain c hc).param
    rw [hslot, World.process_of_builtin H hparam.proc hparam.builtin hparam.linked,
      World.process_of_builtin H' hparam.proc hparam.builtin hparam.linked]
    cases isReadFunc func with
    | false => rfl
    | true =>
      show World.answer H c.param input r _ = World.answer H' c.param input r _
      rw [hparam.answer, hparam.answer]

include hdist

/-- Every perform step, whatever it asks for, keeps the values within their bindings. -/
theorem holds_apply {w : World} (h : (buildTable binds).Holds w.mem) (ev : PerformEvent) :
    (buildTable binds).Holds (w.apply H (buildTable binds) ev).mem := by
  unfold World.apply
  cases hparam : getParam (buildTable binds) ev.paramNum with
  | none =>
    dsimp only
    split
    · exact h
    · exact h
  | some j =>
    cases ev.block with
    | refused | notSupported => exact h
    | data bytes =>
      intro i hnum
      obtain ⟨f, r, a, hslot⟩ := plain_buildTable hplain i hnum
      -- the command is on this parameter
      by_cases hij : i = j
      · subst hij
        exact (h i hnum).process hslot (bounded_buildTable binds i) _ _
      · -- the variable of another parameter is left alone
        have hload : (w.process H ((buildTable binds).get j) (inputOf ev.funcNum bytes)
            ev.funcNum).mem.load a ((buildTable binds).get i).size =
              w.mem.load a ((buildTable binds).get i).size := by
          rw [process_handlers hplain H fun _ _ m => (m, [])]
          exact World.load_process (fun _ _ _ => rfl) (fits_buildTable binds j)
            (fun b hb => hdist j i (Ne.symm hij) b hb a hslot.linked) ev.funcNum
        have hi := h i hnum
        rw [hslot.value_eq] at hi ⊢
        rwa [hload]

/-- All memories of a run of commands hold valid values. -/
theorem holds_memories {w : World} (h : (buildTable binds).Holds w.mem)
    (evs : List PerformEvent) :
    ∀ m ∈ w.memories H (buildTable binds) evs, (buildTable binds).Holds m := by
  induction evs generalizing w with
  | nil => exact fun m hm => absurd hm List.not_mem_nil
  | cons ev evs ih =>
    have hev := holds_apply (H := H) hplain hdist h ev
    exact List.forall_mem_cons.mpr ⟨hev, ih hev⟩

/-- Commands leave valid values. -/
theorem holds_applyAll {w : World} (h : (buildTable binds).Holds w.mem)
    (evs : List PerformEvent) :
    (buildTable binds).Holds (w.applyAll H (buildTable binds) evs).mem := by
  induction evs generalizing w with
  | nil => exact h
  | cons ev evs ih => exact ih (holds_apply (H := H) hplain hdist h ev)

end

/-! ## What is answered -/

/-- Each answer is a reply from one of the memories that the message leaves. -/
theorem answersFrom_reply {H : Handlers} {tbl : ParamList} (w : World) (es : List Entry) :
    ∀ answer ∈ w.answersFrom H tbl es, ∃ m ∈ w.memories H tbl (es.map Entry.event), ∃ e ∈ es,
      answer = reply tbl m e.num := by
  induction es generalizing w with
  | nil => exact fun answer h => absurd h List.not_mem_nil
  | cons e es ih =>
    intro answer h
    rw [World.answersFrom, List.mem_append] at h
    rw [List.map_cons, World.memories]
    -- the answer to the first command, or one of the others
    obtain h | h := h
    · refine ⟨_, List.mem_cons_self .., e, List.mem_cons_self .., ?_⟩
      unfold answerOf at h
      split at h
      · unfold reply
        cases hparam : getParam tbl e.num with
        | none =>
          rw [hparam] at h
          exact List.mem_singleton.mp h
        | some i =>
          rw [hparam] at h
          exact List.mem_singleton.mp h
      · cases h
    · obtain ⟨m, hm, e', he', heq⟩ := ih _ answer h
      exact ⟨m, List.mem_cons_of_mem _ hm, e', List.mem_cons_of_mem _ he', heq⟩

/-! ## The mirror -/

/-- The values on the mirror are those it began with, or ones the other device had under the same
    number; all else is as in the beginning. -/
structure Mirrors (tA tB : ParamList) (m₀ : Mem) (past : List Mem) (m : Mem) : Prop where
  values : ∀ n, n ≠ noParam → ∀ q, paramAt tB n = some q →
    q.value m = q.value m₀ ∨
      ∃ mA ∈ past, ∃ p, paramAt tA n = some p ∧ q.value m = p.value mA
  outside : ∀ x, (∀ n, n ≠ noParam → ∀ q, paramAt tB n = some q → q.Outside x) → m x = m₀ x

/-- What mirrors a past mirrors a longer one. -/
theorem Mirrors.mono {tA tB : ParamList} {m₀ m : Mem} {past past' : List Mem}
    (h : Mirrors tA tB m₀ past m) (hsub : past ⊆ past') : Mirrors tA tB m₀ past' m where
  values n hn q hq := by
    obtain heq | ⟨mA, hmem, hvalue⟩ := h.values n hn q hq
    · exact .inl heq
    · exact .inr ⟨mA, hsub hmem, hvalue⟩
  outside := h.outside

section

variable {H : Handlers} {tA tB : ParamList} (hsame : tA.SameBindings tB) (hB : tB.Plain)
  (hbounded : ∀ i : Fin paramNumMax, (tB.get i).Bounded) (hdist : tB.Distinct)

include hsame hB hbounded hdist

/-- A reply from a memory of the past keeps the mirror. -/
theorem Mirrors.apply {m₀ : Mem} {past : List Mem} {w : World} (h : Mirrors tA tB m₀ past w.mem)
    {mA : Mem} (hpast : mA ∈ past) (hvals : tA.Holds mA) {n : UInt16} (hn : n ≠ noParam) :
    Mirrors tA tB m₀ past (w.apply H tB (reply tA mA n).event).mem := by
  obtain ⟨-, hcopied, hkept⟩ := apply_reply_spec (H := H) hsame hB hbounded hvals hn w
  constructor
  · intro k hk q hq
    by_cases hkn : k = n
    · subst hkn
      exact .inr ⟨mA, hpast, hcopied q hq⟩
    · -- the variable lies apart from the one that is written
      have hvalue : q.value (w.apply H tB (reply tA mA n).event).mem = q.value w.mem := by
        have hkept' : ∀ x, (∀ n' ∈ [n], ∀ q, paramAt tB n' = some q → q.Outside x) →
            (w.apply H tB (reply tA mA n).event).mem x = w.mem x :=
          fun x hx => hkept x (hx n (List.mem_singleton_self n))
        exact hdist.value_eq hkept' (by rwa [List.mem_singleton]) hq
      rw [hvalue]
      exact h.values k hk q hq
  · intro x hx
    rw [hkept x (hx n hn)]
    exact h.outside x hx

/-- Replies of the past keep the mirror. -/
theorem Mirrors.applyAll {m₀ : Mem} {past : List Mem} {w : World}
    (h : Mirrors tA tB m₀ past w.mem) {rs : List (UInt16 × Mem)}
    (hrs : ∀ p ∈ rs, p.1 ≠ noParam ∧ p.2 ∈ past ∧ tA.Holds p.2) :
    Mirrors tA tB m₀ past
      (w.applyAll H tB ((rs.map fun p => reply tA p.2 p.1).map Entry.event)).mem := by
  induction rs generalizing w with
  | nil => exact h
  | cons p rs ih =>
    obtain ⟨hp, hrs⟩ := List.forall_mem_cons.mp hrs
    exact ih (h.apply (H := H) hsame hB hbounded hdist hp.2.1 hp.2.2 hp.1) hrs

end

/-! ## The two devices -/

/-- A request whose answer fits the queue, whatever the values are. -/
structure AsksFor (H : Handlers) (tbl : ParamList) (es : List Entry) : Prop where
  ne_nil : es ≠ []
  request : ∀ e ∈ es, e.IsRequest
  fits : ∀ parser rq mem,
    (encode (answers H ⟨parser, rq, tbl, mem⟩ es)).length ≤ queueBufSize - 1

/-- The device asked runs its own program on the variables and answers what `parse` leaves in the
    queue, if that is anything; the other one parses the answers. -/
def exchange (HA HB : Handlers) (tA : ParamList) :
    Exchange BgcpState BgcpState (List UInt8) (List UInt8) Mem where
  own s s' := ∃ mem, s' = { s with mem } ∧ tA.Holds mem
  ownFacts s := [s.mem]
  asks msg := ∃ es, AsksFor HA tA es ∧ msg = encode es
  serve s msg := s.parse HA msg
  facts s msg := World.memories HA s.paramList ⟨s.mem, s.rq.resetReqQueue⟩ (decode msg)
  answer s msg :=
    let response := (s.parse HA msg).rq.bytes
    if response = [] then none else some response
  hear s msg := s.parse HB msg

/-- The state in which nothing has been sent. -/
def exchangeStart (A B : BgcpState) :
    Exchange.State BgcpState BgcpState (List UInt8) (List UInt8) Mem :=
  ⟨A, B, [], [], [A.mem]⟩

/-- A message of replies from memories of the past. -/
def IsReplies (tA : ParamList) (past : List Mem) (msg : List UInt8) : Prop :=
  ∃ rs : List (UInt16 × Mem), rs ≠ [] ∧ msg = encode (rs.map fun p => reply tA p.2 p.1) ∧
    (∀ p ∈ rs, p.1 ≠ noParam ∧ p.2 ∈ past ∧ tA.Holds p.2) ∧
    ∀ e ∈ rs.map fun p => reply tA p.2 p.1, e.WellFormed

/-- Replies of a past are replies of a longer one. -/
theorem IsReplies.mono {tA : ParamList} {past past' : List Mem} {msg : List UInt8}
    (h : IsReplies tA past msg) (hsub : past ⊆ past') : IsReplies tA past' msg := by
  obtain ⟨rs, hne, hmsg, hrs, hwf⟩ := h
  refine ⟨rs, hne, hmsg, fun p hp => ?_, hwf⟩
  obtain ⟨hnum, hpast, hholds⟩ := hrs p hp
  exact ⟨hnum, hsub hpast, hholds⟩

/-- A list is the image of another one if each of its members is. -/
theorem exists_map_eq {α β : Type} {f : α → β} {P : α → Prop} {l : List β}
    (h : ∀ b ∈ l, ∃ a, P a ∧ b = f a) : ∃ as : List α, l = as.map f ∧ ∀ a ∈ as, P a := by
  induction l with
  | nil => exact ⟨[], rfl, fun a ha => absurd ha List.not_mem_nil⟩
  | cons b l ih =>
    obtain ⟨hb, hl⟩ := List.forall_mem_cons.mp h
    obtain ⟨a, ha, rfl⟩ := hb
    obtain ⟨as, rfl, has⟩ := ih hl
    exact ⟨a :: as, rfl, List.forall_mem_cons.mpr ⟨ha, has⟩⟩

section

variable {H : Handlers} {binds : List BindCall} (hplain : ∀ c ∈ binds, c.Plain)
  (hdist : (buildTable binds).Distinct) {s : BgcpState}
  (htbl : s.paramList = buildTable binds) (hholds : (buildTable binds).Holds s.mem)

include hplain hdist htbl hholds

/-- A message keeps the table and the values within their bindings. -/
theorem holds_parse (msg : List UInt8) : (s.parse H msg).paramList = buildTable binds ∧
    (buildTable binds).Holds (s.parse H msg).mem := by
  have hlist := BgcpState.paramList_parse H msg (by rw [htbl]; exact fresh_buildTable binds)
  refine ⟨hlist.trans htbl, ?_⟩
  have hmem : (s.parse H msg).mem = _ := congrArg World.mem (BgcpState.world_parse H msg s)
  rw [hmem, htbl]
  split
  · exact holds_applyAll hplain hdist (w := ⟨s.mem, s.rq.resetReqQueue⟩) hholds _
  · exact hholds

/-- The answer to a request is made of replies from memories that the request leaves. -/
theorem isReplies_parse {es : List Entry} (hasks : AsksFor H (buildTable binds) es)
    (hne : (s.parse H (encode es)).rq.bytes ≠ []) :
    IsReplies (buildTable binds)
      (World.memories H s.paramList ⟨s.mem, s.rq.resetReqQueue⟩ (decode (encode es)))
      (s.parse H (encode es)).rq.bytes := by
  obtain ⟨parser, rq, tbl, mem⟩ := s
  obtain rfl : tbl = buildTable binds := htbl
  have hreq : ∀ e ∈ es, e.WellFormed := fun e he => (hasks.request e he).spec.1
  have hwf : ∀ e ∈ answers H ⟨parser, rq, buildTable binds, mem⟩ es, e.WellFormed :=
    wellFormed_answers (plain_buildTable hplain)
      (fun e he => (hasks.request e he).spec.2.1) fun e he => (hasks.request e he).spec.2.2
  have hbytes := BgcpState.bytes_parse_encode (H := H) (s := ⟨parser, rq, buildTable binds, mem⟩)
    (plain_buildTable hplain) hasks.ne_nil hreq
    (fun e he => (hasks.request e he).spec.2.2) hwf
    (Nat.lt_of_le_of_lt (hasks.fits parser rq mem) (by decide))
  have hfrom := BgcpState.answersAfter_eq (H := H) ⟨parser, rq, buildTable binds, mem⟩ [] es hreq
  -- every answer is the reply from a memory the server went through
  have hreplies : ∀ answer ∈ answers H ⟨parser, rq, buildTable binds, mem⟩ es,
      ∃ p : UInt16 × Mem, (p.1 ≠ noParam ∧ p.2 ∈ World.memories H (buildTable binds)
        ⟨mem, rq.resetReqQueue⟩ (es.map Entry.event) ∧ (buildTable binds).Holds p.2) ∧
        answer = reply (buildTable binds) p.2 p.1 := by
    intro answer hanswer
    rw [answers, hfrom] at hanswer
    obtain ⟨m, hm, e, he, heq⟩ := answersFrom_reply _ es answer hanswer
    have hmem := holds_memories hplain hdist (w := ⟨mem, rq.resetReqQueue⟩) hholds _ m hm
    exact ⟨(e.num, m), ⟨(hasks.request e he).spec.2.2, hm, hmem⟩, heq⟩
  obtain ⟨rs, hrs, hall⟩ := exists_map_eq (f := fun p : UInt16 × Mem =>
    reply (buildTable binds) p.2 p.1) hreplies
  rw [hrs] at hbytes hwf
  refine ⟨rs, ?_, hbytes, ?_, hwf⟩
  · rintro rfl
    exact hne hbytes
  · rw [decode_encode hreq]
    exact hall

end

/-- A device that hears replies of the past keeps its table and the mirror. -/
theorem mirrors_parse {H : Handlers} {tA : ParamList} {binds : List BindCall}
    (hsame : tA.SameBindings (buildTable binds)) (hplain : ∀ c ∈ binds, c.Plain)
    (hdist : (buildTable binds).Distinct) {s : BgcpState} (htbl : s.paramList = buildTable binds)
    {m₀ : Mem} {past : List Mem} (h : Mirrors tA (buildTable binds) m₀ past s.mem)
    {msg : List UInt8} (hmsg : IsReplies tA past msg) :
    (s.parse H msg).paramList = buildTable binds ∧
      Mirrors tA (buildTable binds) m₀ past (s.parse H msg).mem := by
  obtain ⟨rs, hne, rfl, hrs, hwf⟩ := hmsg
  have hfresh : s.paramList.Fresh := by
    rw [htbl]
    exact fresh_buildTable binds
  refine ⟨(BgcpState.paramList_parse H _ hfresh).trans htbl, ?_⟩
  have hworld := BgcpState.world_parse_encode H s (fun h => hne (List.map_eq_nil_iff.mp h)) hwf
  have hmem : (s.parse H (encode _)).mem = _ := congrArg World.mem hworld
  rw [hmem, htbl]
  exact Mirrors.applyAll (w := ⟨s.mem, s.rq.resetReqQueue⟩) hsame (plain_buildTable hplain)
    (bounded_buildTable binds) hdist h hrs

/-- Whatever is lost, repeated or reordered, and whatever the requests and the program of the first
    device change meanwhile: the values on the first device stay within their bindings, each value
    on the mirror is the one it began with or one the first device had, and the mirror's memory is
    as before outside its variables. -/
theorem mirror_reachable (HA HB : Handlers) {bindsA bindsB : List BindCall}
    (hA : ∀ c ∈ bindsA, c.Plain) (hB : ∀ c ∈ bindsB, c.Plain)
    (hsame : (buildTable bindsA).SameBindings (buildTable bindsB))
    (hdistA : (buildTable bindsA).Distinct) (hdistB : (buildTable bindsB).Distinct)
    (pA pB : ParserData) (rqA rqB : BGCPQueue)
    {mA : Mem} (mB : Mem) (hvals : (buildTable bindsA).Holds mA)
    {s : Exchange.State BgcpState BgcpState (List UInt8) (List UInt8) Mem}
    (hreach : (exchange HA HB (buildTable bindsA)).Reachable
      (exchangeStart ⟨pA, rqA, buildTable bindsA, mA⟩ ⟨pB, rqB, buildTable bindsB, mB⟩) s) :
    (buildTable bindsA).Holds s.server.mem ∧
      Mirrors (buildTable bindsA) (buildTable bindsB) mB s.past s.client.mem := by
  have hinv := Exchange.reachable_invariant (E := exchange HA HB (buildTable bindsA))
    (I := fun s => s.paramList = buildTable bindsA ∧ (buildTable bindsA).Holds s.mem)
    (S := IsReplies (buildTable bindsA))
    (J := fun past s => s.paramList = buildTable bindsB ∧
      Mirrors (buildTable bindsA) (buildTable bindsB) mB past s.mem)
    ?_ ?_ ?_ ?_ ?_ ?_ hreach ?_
  · exact ⟨hinv.server.2, hinv.client.2⟩
  · rintro server server' ⟨htbl, -⟩ ⟨mem, rfl, hmem⟩
    exact ⟨htbl, hmem⟩
  · rintro server msg ⟨htbl, hholds⟩ -
    exact holds_parse hA hdistA htbl hholds msg
  · exact fun h => h.mono (List.subset_append_left ..)
  · exact fun h => ⟨h.1, h.2.mono (List.subset_append_left ..)⟩
  · -- the server answers a request
    rintro server msg past b ⟨htbl, hholds⟩ ⟨es, hasks, rfl⟩ hanswer
    have hresponse : (if (server.parse HA (encode es)).rq.bytes = [] then none
        else some (server.parse HA (encode es)).rq.bytes) = some b := hanswer
    split at hresponse
    · cases hresponse
    · rename_i hne
      rw [← Option.some.inj hresponse]
      exact (isReplies_parse hA hdistA htbl hholds hasks hne).mono
        (List.subset_append_right ..)
  · -- the client hears the answer
    rintro past client msg ⟨htbl, hmirrors⟩ hreplies
    exact mirrors_parse hsame hB hdistB htbl hmirrors hreplies
  · refine ⟨⟨rfl, hvals⟩, ?_, ?_, rfl, fun _ _ _ _ => .inl rfl, fun _ _ => rfl⟩
    · exact fun a ha => absurd ha List.not_mem_nil
    · exact fun b hb => absurd hb List.not_mem_nil

/-- A byte is asked for and answered, the program of the first device changes it, and the answer
    arrives. -/
theorem mirror_reachable_byte :
    let HA : Handlers := fun _ _ m => (m, [])
    let tA := buildTable [.uint8T 1 (some 0) 2 9]
    let tB := buildTable [.uint8T 1 (some 20) 2 9]
    ∃ s, (exchange HA HA tA).Reachable
        (exchangeStart ⟨.zero, .zero, tA, fun _ => 4⟩ ⟨.zero, .zero, tB, fun _ => 7⟩) s ∧
      s.server.mem 0 = 5 ∧ s.client.mem 20 = 4 ∧
      tA.Holds s.server.mem ∧ Mirrors tA tB (fun _ => 7) s.past s.client.mem := by
  intro HA tA tB
  have hplain : ∀ c ∈ [BindCall.uint8T 1 (some 0) 2 9], c.Plain := by decide
  have hreply : ∀ mem, reply tA mem 1 = .param .resp 1 [mem 0] := fun mem => by
    rw [reply, show getParam tA 1 = some 0 by decide +kernel]
    rfl
  have hask : AsksFor HA tA (readRequest [1]) := by
    refine ⟨List.cons_ne_nil _ _, by decide, fun parser rq mem => ?_⟩
    rw [answers_readRequest HA hplain parser rq mem (List.forall_mem_singleton.mpr (by decide)),
      List.map_singleton, hreply]
    exact Nat.le_trans (length_encode_resp ..) (show 1 + 6 ≤ 511 by decide)
  have hserve : ((⟨.zero, .zero, tA, fun _ => 4⟩ : BgcpState).parse HA
      (encode (readRequest [1]))).rq.bytes = encode [.param .resp 1 [4]] := by decide +kernel
  have hreach := ((((Relation.ReflTransGen.refl (r := (exchange HA HA tA).Step)
    (a := exchangeStart ⟨.zero, .zero, tA, fun _ => 4⟩ ⟨.zero, .zero, tB, fun _ => 7⟩)).tail
    (.ask ⟨_, hask, rfl⟩)).tail (.serve (List.mem_singleton_self _))).tail
    (.own ⟨fun _ => 5, rfl, by decide +kernel⟩)).tail (.hear (b := encode [.param .resp 1 [4]]) ?_)
  · refine ⟨_, hreach, rfl, by decide +kernel, ?_⟩
    exact mirror_reachable HA HA hplain (by decide) (by decide +kernel) (by decide +kernel)
      (by decide +kernel) _ _ _ _ _ (by decide +kernel) hreach
  · have hanswer : (exchange HA HA tA).answer ⟨.zero, .zero, tA, fun _ => 4⟩
        (encode (readRequest [1])) = some (encode [.param .resp 1 [4]]) := by
      simp only [exchange, hserve]
      exact if_neg (by decide)
    apply List.mem_append_right
    exact Option.mem_toList.mpr hanswer

end EspTesting.Bgcp
