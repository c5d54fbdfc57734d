import EspTesting.Spec.BgcpBind
import EspTesting.Spec.BgcpQueueCorrect

/-!
# Responses and the history of the component

Parser and response queue are static, so every message meets what the calls before it left
there. Two histories that end with the same table and the same values of its variables
are compared step by step: every perform step takes worlds that agree on the variables and
on the live queue to such worlds again (`World.Agree.apply`). A message that opens with a
function starts from the same world after both histories, any other message leaves the
response of the message before it in place.
-/

namespace EspTesting.Bgcp

/-! ## Histories -/

/-- A call of the application that a history is made of. -/
inductive Action where
  | parse (msg : List UInt8)
  | queue (c : BGCPQueue.Call)

namespace BgcpState

/-- The state after a call. -/
def act (H : Handlers) (s : BgcpState) : Action → BgcpState
  | .parse msg => s.parse H msg
  | .queue c => { s with rq := s.rq.call c }

/-- The states some history leads to, from a table built by bind calls and any values. -/
def Reached (H : Handlers) (s : BgcpState) : Prop :=
  ∃ (binds : List BindCall) (mem : Mem) (acts : List Action),
    s = acts.foldl (act H) ⟨.zero, .zero, buildTable binds, mem⟩

/-- No call of a history changes the table. -/
theorem Reached.paramList {H : Handlers} {s : BgcpState} (h : Reached H s) :
    ∃ binds, s.paramList = buildTable binds := by
  obtain ⟨binds, mem, acts, rfl⟩ := h
  refine ⟨binds, ?_⟩
  suffices ∀ (acts : List Action) (s : BgcpState), s.paramList = buildTable binds →
      (acts.foldl (act H) s).paramList = buildTable binds from this acts _ rfl
  intro acts
  induction acts with
  | nil => exact fun s hs => hs
  | cons a acts ih =>
    intro s hs
    refine ih _ ?_
    cases a with
    -- a parse stores into the variables, never into the table
    | parse msg =>
      have hfresh : s.paramList.Fresh := by rw [hs]; exact fresh_buildTable binds
      exact (paramList_parse H msg hfresh).trans hs
    | queue c => exact hs

end BgcpState

/-! ## Worlds that agree -/

/-- The variables of the table lie in `A`. -/
def ParamList.Within (tbl : ParamList) (A : Nat → Prop) : Prop :=
  ∀ i : Fin paramNumMax, ∀ a ∈ (tbl.get i).linkedData, ∀ x, a ≤ x → x < a + (tbl.get i).size → A x

/-- What the application's handlers answer and leave in `A` depends on their input and on
    the memory in `A` only. -/
def Handlers.Local (H : Handlers) (A : Nat → Prop) : Prop :=
  ∀ f input m m', Mem.Agree A m m' →
    (H f input m).2 = (H f input m').2 ∧ Mem.Agree A (H f input m).1 (H f input m').1

/-- The worlds agree on the addresses in `A` and on the live queue. -/
def World.Agree (A : Nat → Prop) (w w' : World) : Prop :=
  Mem.Agree A w.mem w'.mem ∧ w.rq.view = w'.rq.view

variable {A : Nat → Prop}

/-- Pushing depends on the view of the queue only. -/
theorem view_queuePushParamData_congr {rq rq' : BGCPQueue} (h : rq.view = rq'.view)
    (funcNum : UInt8) (num : UInt16) (data : Option (List UInt8)) (size : UInt8) :
    (rq.queuePushParamData funcNum num data size).view =
      (rq'.queuePushParamData funcNum num data size).view := by
  have hfunc : rq.curFunc = rq'.curFunc := congrArg QueueView.curFunc h
  have hpage : rq.curPage = rq'.curPage := congrArg QueueView.curPage h
  have hbytes : rq.bytes = rq'.bytes := congrArg QueueView.bytes h
  simp only [BGCPQueue.view_queuePushParamData, h, hfunc, hpage, hbytes]

/-- An answer on a number that is not bound goes equally into queues that look equal. -/
theorem view_queuePushNoSupParam_congr {rq rq' : BGCPQueue} (h : rq.view = rq'.view)
    (num : UInt16) :
    (rq.queuePushNoSupParam num).view = (rq'.queuePushNoSupParam num).view := by
  have hfunc : rq.curFunc = rq'.curFunc := congrArg QueueView.curFunc h
  have hpage : rq.curPage = rq'.curPage := congrArg QueueView.curPage h
  have hbytes : rq.bytes = rq'.bytes := congrArg QueueView.bytes h
  simp only [BGCPQueue.view_queuePushNoSupParam, hfunc, hpage, hbytes]

/-- The response handler reads the variable only. -/
def RespFunc.Fits (r : RespFunc) (param : Param) : Prop :=
  match r with
  | .sendUint8T | .sendBoolDataType => 1 ≤ param.size
  | .sendUint16T => 2 ≤ param.size
  | .sendBinDataType => BgcpState.toUnsigned 4 param.limits.max ≤ param.size
  | .sendStrDataType => False
  | .custom _ => True

/-- The response handler of the parameter reads its variable only. -/
def Param.RespFits (param : Param) : Prop :=
  ∀ funcs r, getParamDataProcessor param = some funcs → funcs.respFunc = some r → r.Fits param

/-- The handlers of a bound slot answer no more than its variable. -/
theorem respFits_buildTable (calls : List BindCall) (i : Fin paramNumMax) :
    ((buildTable calls).get i).RespFits := by
  refine buildTable_induction Param.RespFits ?_ (fun c _ => ?_) i
  · -- a free slot has the type of an 8-bit number
    intro funcs r hproc hr
    obtain rfl := Option.some.inj hproc
    obtain rfl := Option.some.inj hr
    exact Nat.le_refl _
  · intro funcs r hproc hr
    -- the length of a buffer is its limit, which fits 32 bits
    have hsize (n : UInt16) : BgcpState.toUnsigned 4 (n.toNat : Int) ≤ (n.toNat : Int).toNat := by
      have := n.toNat_lt
      simp only [BgcpState.toUnsigned]
      omega
    cases c with
    | cmd n executor =>
      obtain rfl := Option.some.inj hproc
      cases hr
    | resp n responder =>
      obtain rfl := Option.some.inj hproc
      obtain ⟨_, _, rfl⟩ := Option.map_eq_some_iff.mp hr
      trivial
    | action n a updateFunc respFunc =>
      obtain rfl := Option.some.inj hproc
      obtain ⟨_, _, rfl⟩ := Option.map_eq_some_iff.mp hr
      trivial
    | binary n a size | const n a size | str n a min size =>
      obtain rfl := Option.some.inj hproc
      obtain rfl := Option.some.inj hr
      exact hsize size
    | _ =>
      obtain rfl := Option.some.inj hproc
      obtain rfl := Option.some.inj hr
      exact Nat.le_refl _

namespace World.Agree

variable {H : Handlers} {param : Param} {input : Option (List UInt8)} {w w' : World}

/-- Answers of a handler keep two worlds in agreement. -/
theorem respond (h : Agree A w w') (num : UInt16) (blocks : List (List UInt8)) :
    Agree A (w.respond num blocks) (w'.respond num blocks) := by
  refine ⟨h.1, ?_⟩
  suffices ∀ rq rq' : BGCPQueue, rq.view = rq'.view →
      (blocks.foldl (fun rq block => rq.queuePushParamData bgcpFuncResp num (some block)
        block.length.toUInt8) rq).view =
      (blocks.foldl (fun rq block => rq.queuePushParamData bgcpFuncResp num (some block)
        block.length.toUInt8) rq').view from this _ _ h.2
  -- one block after the other
  induction blocks with
  | nil => exact fun rq rq' h => h
  | cons block blocks ih =>
    exact fun rq rq' h => ih _ _ (view_queuePushParamData_congr h _ _ _ _)

/-- A handler of the application that looks at `A` only keeps two worlds in agreement. -/
theorem callHandler (hH : H.Local A) (h : Agree A w w') (f : HandlerPtr) :
    Agree A (w.callHandler H param input f) (w'.callHandler H param input f) := by
  obtain ⟨hblocks, hmem⟩ := hH f ⟨param.paramNum, param.linkedData, input⟩ _ _ h.1
  have hstart : Agree A
      { w with mem := (H f ⟨param.paramNum, param.linkedData, input⟩ w.mem).1 }
      { w' with mem := (H f ⟨param.paramNum, param.linkedData, input⟩ w'.mem).1 } :=
    ⟨hmem, h.2⟩
  show Agree A (World.respond _ (H f _ w.mem).2 _) (World.respond _ (H f _ w'.mem).2 _)
  rw [hblocks]
  exact hstart.respond _ _

/-- What a built-in handler stores depends on the variable only. -/
theorem storeOf_eq (h : Agree A w w') {f : UpdateFunc} (hfit : f.Fits param) {a : Nat}
    (hin : ∀ x, a ≤ x → x < a + param.size → A x) (inc : Int) :
    storeOf f param inc input w.mem a = storeOf f param inc input w'.mem a := by
  have hload {n : Nat} (hn : n ≤ param.size) : w.mem.load a n = w'.mem.load a n :=
    h.1.load fun x hlo hhi => hin x hlo (by omega)
  cases f with
  | updateUint8T => simp only [storeOf, hload hfit]
  | updateUint16T => simp only [storeOf, hload hfit]
  -- both look at the first byte of the variable
  | updateBoolDataType | updateRangeData =>
    have hbyte := hload hfit
    rw [Mem.load_one, Mem.load_one] at hbyte
    simp only [storeOf, List.head_eq_of_cons_eq hbyte]
  | _ => rfl

/-- An update keeps two worlds in agreement. -/
theorem update (hH : H.Local A) (h : Agree A w w') {f : UpdateFunc} (hfit : f.Fits param)
    (hin : ∀ a ∈ param.linkedData, ∀ x, a ≤ x → x < a + param.size → A x) (inc : Int) :
    Agree A (w.update H param inc input f) (w'.update H param inc input f) := by
  cases f with
  | custom f => exact h.callHandler hH f
  | updateStrDataType =>
    simp only [World.update, World.updateStr]
    split
    · cases param.linkedData with
      | none => exact h
      -- the same bytes are stored in both
      | some a => exact ⟨(h.1.store _ _).store _ _, h.2⟩
    · exact h
  | _ =>
    simp only [World.update]
    cases ha : param.linkedData with
    | none => exact h
    | some a =>
      dsimp only
      rw [h.storeOf_eq hfit (hin a ha) inc]
      split
      · exact h
      · exact ⟨h.1.store _ _, h.2⟩

/-- An answer from the variable keeps two worlds in agreement. -/
theorem send (h : Agree A w w') {size : Nat} (hsize : size ≤ param.size)
    (hin : ∀ a ∈ param.linkedData, ∀ x, a ≤ x → x < a + param.size → A x) :
    Agree A (w.send param size) (w'.send param size) := by
  refine ⟨h.1, ?_⟩
  simp only [World.send]
  cases ha : param.linkedData with
  | none => exact view_queuePushParamData_congr h.2 _ _ _ _
  | some a =>
    have hle : size % 256 ≤ param.size := Nat.le_trans (Nat.mod_le _ _) hsize
    have hload : w.mem.load a (size % 256) = w'.mem.load a (size % 256) :=
      h.1.load fun x hlo hhi => hin a ha x hlo (by omega)
    simp only [Option.map_some, hload]
    exact view_queuePushParamData_congr h.2 _ _ _ _

/-- Any answer keeps two worlds in agreement. -/
theorem answer (hH : H.Local A) (h : Agree A w w') {r : RespFunc} (hfit : r.Fits param)
    (hin : ∀ a ∈ param.linkedData, ∀ x, a ≤ x → x < a + param.size → A x) :
    Agree A (w.answer H param input r) (w'.answer H param input r) := by
  cases r with
  | custom f => exact h.callHandler hH f
  | sendStrDataType => exact hfit.elim
  | _ => exact h.send hfit hin

/-- What is done about one command keeps two worlds in agreement. -/
theorem process (hH : H.Local A) (h : Agree A w w') (hfits : param.Fits)
    (hresp : param.RespFits)
    (hin : ∀ a ∈ param.linkedData, ∀ x, a ≤ x → x < a + param.size → A x) (func : UInt8) :
    Agree A (w.process H param input func) (w'.process H param input func) := by
  simp only [World.process]
  cases hproc : getParamDataProcessor param with
  | none => exact h
  | some funcs =>
    dsimp only
    -- first the update, then the answer
    have hupdate : Agree A
        (BgcpState.callIf (isWriteFunc func) funcs.dataUpdateFunc
          (World.update H param (incOf func) input) w)
        (BgcpState.callIf (isWriteFunc func) funcs.dataUpdateFunc
          (World.update H param (incOf func) input) w') := by
      cases isWriteFunc func with
      | false => exact h
      | true =>
        cases hf : funcs.dataUpdateFunc with
        | none => exact h
        | some f => exact h.update hH (hfits funcs f hproc hf) hin _
    cases isReadFunc func with
    | false => exact hupdate
    | true =>
      cases hr : funcs.respFunc with
      | none => exact hupdate
      | some r => exact hupdate.answer hH (hresp funcs r hproc hr) hin

variable {tbl : ParamList}

/-- One event of a message keeps two worlds in agreement. -/
theorem apply (hH : H.Local A) (hfits : ∀ i : Fin paramNumMax, (tbl.get i).Fits)
    (hresp : ∀ i : Fin paramNumMax, (tbl.get i).RespFits) (hin : tbl.Within A) (h : Agree A w w')
    (ev : PerformEvent) : Agree A (w.apply H tbl ev) (w'.apply H tbl ev) := by
  simp only [World.apply]
  cases getParam tbl ev.paramNum with
  | none =>
    dsimp only
    split
    · exact ⟨h.1, view_queuePushNoSupParam_congr h.2 _⟩
    · exact h
  | some i =>
    cases ev.block with
    | refused => exact h
    | notSupported => exact h
    | data bytes => exact h.process hH (hfits i) (hresp i) (hin i) _

/-- All events of a message keep two worlds in agreement. -/
theorem applyAll (hH : H.Local A) (hfits : ∀ i : Fin paramNumMax, (tbl.get i).Fits)
    (hresp : ∀ i : Fin paramNumMax, (tbl.get i).RespFits) (hin : tbl.Within A) (h : Agree A w w')
    (evs : List PerformEvent) : Agree A (w.applyAll H tbl evs) (w'.applyAll H tbl evs) := by
  induction evs generalizing w w' with
  | nil => exact h
  | cons ev evs ih => exact ih (h.apply hH hfits hresp hin ev)

end World.Agree

/-! ## Responses -/

namespace BgcpState

/-- After any two histories that lead to the same table and the same values, `parse` of the
    message leaves the same request queue. -/
def NoLeak (H : Handlers) (msg : List UInt8) : Prop :=
  ∀ (A : Nat → Prop) (s s' : BgcpState), Reached H s → Reached H s' → s.paramList = s'.paramList →
    s.paramList.Within A → H.Local A → Mem.Agree A s.mem s'.mem →
    (s.parse H msg).rq.bytes = (s'.parse H msg).rq.bytes

/-- A message with an invalid function leaves the queue as it was. -/
theorem rq_parse_of_not_valid (H : Handlers) {msg : List UInt8}
    (hvalid : isValidFunc (msg.headD noFunc) = false) (s : BgcpState) :
    (s.parse H msg).rq = s.rq := by
  cases msg with
  | nil => rfl
  | cons func rest =>
    rw [List.headD_cons] at hvalid
    simp only [parse, beginParse_cons, hvalid]
    rfl

/-- An invalid function lets the history show: an empty one against one that pushed a
    response. -/
theorem isValidFunc_of_noLeak {H : Handlers} {msg : List UInt8} (h : NoLeak H msg) :
    isValidFunc (msg.headD noFunc) = true := by
  have hfirst : Reached H ⟨.zero, .zero, buildTable [], fun _ => 0⟩ := ⟨[], _, [], rfl⟩
  have hsecond : Reached H
      ⟨.zero, BGCPQueue.zero.queuePushNoSupParam 1, buildTable [], fun _ => 0⟩ :=
    ⟨[], _, [.queue (.noSupParam 1)], rfl⟩
  -- the whole memory is in `A`, so every handler is local
  have hlocal : H.Local fun _ => True := by
    intro f input m m' hm
    obtain rfl : m = m' := funext fun x => hm x trivial
    exact ⟨rfl, fun _ _ => rfl⟩
  have heq := h (fun _ => True) _ _ hfirst hsecond rfl (fun _ _ _ _ _ _ => trivial) hlocal
    fun _ _ => rfl
  cases hvalid : isValidFunc (msg.headD noFunc) with
  | true => rfl
  | false =>
    -- the queue is answered as it was left: empty in one state, not in the other
    rw [rq_parse_of_not_valid H hvalid, rq_parse_of_not_valid H hvalid] at heq
    have hlen := congrArg List.length heq
    rw [BGCPQueue.length_bytes, BGCPQueue.length_bytes] at hlen
    exact absurd hlen (by decide)

/-- A valid function resets the queue, and from there both runs agree. -/
theorem noLeak_of_isValidFunc (H : Handlers) {msg : List UInt8}
    (hvalid : isValidFunc (msg.headD noFunc) = true) : NoLeak H msg := by
  intro A s s' hs hs' htbl hin hH hmem
  obtain ⟨binds, hbinds⟩ := hs.paramList
  -- the message is begun, so the queue is reset
  have hbegin (s : BgcpState) : (s.beginParse msg).1 = true := by
    cases msg with
    | nil => exact absurd hvalid (by decide)
    | cons func rest => exact hvalid
  have hworld := world_parse H msg s
  have hworld' := world_parse H msg s'
  rw [if_pos (hbegin s)] at hworld
  rw [if_pos (hbegin s'), ← htbl] at hworld'
  -- from there both parses go in step
  have hstart : World.Agree A ⟨s.mem, s.rq.resetReqQueue⟩ ⟨s'.mem, s'.rq.resetReqQueue⟩ :=
    ⟨hmem, rfl⟩
  have hagree := hstart.applyAll hH (by rw [hbinds]; exact fits_buildTable binds)
    (by rw [hbinds]; exact respFits_buildTable binds) hin (decode msg)
  rw [← hworld, ← hworld'] at hagree
  exact congrArg QueueView.bytes hagree.2

/-- Nothing leaks from earlier calls into the response to a message exactly if the message
    opens with a function code: `parse` leaves any other message before the reset of the
    response queue. -/
theorem noLeak_iff (H : Handlers) (msg : List UInt8) :
    NoLeak H msg ↔ isValidFunc (msg.headD noFunc) = true :=
  ⟨isValidFunc_of_noLeak, noLeak_of_isValidFunc H⟩

theorem not_noLeak_of_invalid_func : ¬ NoLeak (fun _ _ m => (m, [])) [noFunc, 1] := by
  intro h
  have heq := h (fun _ => True) ⟨.zero, .zero, buildTable [], fun _ => 0⟩
    (BgcpState.parse (fun _ _ m => (m, [])) [bgcpFuncR, 1]
      ⟨.zero, .zero, buildTable [], fun _ => 0⟩)
    ⟨[], _, [], rfl⟩ ⟨[], _, [.parse [bgcpFuncR, 1]], rfl⟩ (by decide +kernel)
    (fun _ _ _ _ _ _ => trivial)
    (fun f input m m' hm => ⟨rfl, hm⟩) (fun _ _ => rfl)
  have hlen := congrArg List.length heq
  rw [BGCPQueue.length_bytes, BGCPQueue.length_bytes] at hlen
  exact absurd hlen (by decide +kernel)

end BgcpState

end EspTesting.Bgcp
