import EspTesting.Spec.BgcpRoundTrip

/-!
# When a push is all or nothing

An entry is written in pieces, and every piece is checked for room on its own. So a push
that meets a queue with too little room for the entry usually leaves a part of it behind,
and takes over the function and the page of an entry that is not in the message.
`allOrNothing_iff` says exactly which pushes are clean: those of an entry that fits, and
those that meet a queue with no room for a single byte and change neither function nor
page. As long as all pushes are clean, the queue holds the message for the entries taken.
-/

namespace EspTesting.Bgcp

namespace BGCPQueue

/-- The bytes the queue should write for an entry in its current state. -/
def encoding (rq : BGCPQueue) (e : Entry) : List UInt8 :=
  e.encode rq.bytes.isEmpty rq.curFunc rq.curPage

/-- There is room for the whole entry. -/
def Fits (rq : BGCPQueue) (e : Entry) : Prop :=
  rq.queueSize + (rq.encoding e).length < queueBufSize

instance (rq : BGCPQueue) (e : Entry) : Decidable (rq.Fits e) :=
  inferInstanceAs (Decidable (_ < _))

/-- The entry fits, or the queue has no room for a byte and the entry's function and page
    are in force already. -/
def Clean (rq : BGCPQueue) (e : Entry) : Prop :=
  rq.Fits e ∨ rq.queueSize = queueBufSize - 1 ∧ rq.curFunc = e.func.code ∧ rq.curPage = e.page

instance (rq : BGCPQueue) (e : Entry) : Decidable (rq.Clean e) :=
  inferInstanceAs (Decidable (_ ∨ _))

/-- A push appends the complete encoding of the entry and takes over its function and page,
    or it changes nothing a caller can see. -/
def AllOrNothing (rq : BGCPQueue) (e : Entry) : Prop :=
  (rq.pushEntry e).view = ⟨e.func.code, e.page, rq.bytes ++ rq.encoding e⟩ ∨
    (rq.pushEntry e).view = rq.view

/-- A push of an entry that does not fit never appends the complete encoding. -/
private theorem length_pushEntry_lt {rq : BGCPQueue} {e : Entry} (he : e.WellFormed)
    (hfit : ¬ rq.Fits e) :
    (rq.pushEntry e).bytes.length < rq.bytes.length + (rq.encoding e).length := by
  have hview := congrArg QueueView.bytes (rq.view_pushEntry he)
  have hsize := rq.size_lt
  simp only [Fits] at hfit
  rw [show (rq.pushEntry e).bytes = _ from hview]
  refine BoundedBuffer.length_appendAll_lt (e.pieces_ne_nil _ _ _) ?_ ?_
  · rw [length_bytes]
    exact hsize
  · rw [length_bytes]
    exact Nat.le_of_not_lt hfit

/-- With the function and the page in force, a queue with room for a byte keeps at least
    the first piece of the entry's body. -/
private theorem length_lt_pushEntry {rq : BGCPQueue} {e : Entry} (he : e.WellFormed)
    (hfunc : rq.curFunc = e.func.code) (hpage : rq.curPage = e.page)
    (hroom : rq.queueSize + 1 < queueBufSize) :
    rq.bytes.length < (rq.pushEntry e).bytes.length := by
  have hview := congrArg QueueView.bytes (rq.view_pushEntry he)
  obtain ⟨b, rest, hbody⟩ := e.bodyPieces_eq_cons
  have hpieces : e.pieces rq.bytes.isEmpty rq.curFunc rq.curPage = [b] :: rest := by
    simp only [Entry.pieces, funcPieces, pagePieces, hfunc, hpage, ne_eq, not_true_eq_false,
      if_false, List.nil_append, hbody]
  rw [show (rq.pushEntry e).bytes = _ from hview, hpieces]
  refine BoundedBuffer.length_lt_appendAll (List.cons_ne_nil b []) ?_
  rw [length_bytes, List.length_singleton]
  exact hroom

/-- A push is all or nothing exactly if it is clean. -/
theorem allOrNothing_iff (rq : BGCPQueue) {e : Entry} (he : e.WellFormed) :
    rq.AllOrNothing e ↔ rq.Clean e := by
  constructor
  · intro h
    by_cases hfit : rq.Fits e
    · exact Or.inl hfit
    · have hlt := length_pushEntry_lt he hfit
      rcases h with hall | hnothing
      · have hbytes := congrArg (fun v => v.bytes.length) hall
        simp only [view, List.length_append] at hbytes
        omega
      · -- nothing changed, so function and page were in force and no byte had room
        have hview := rq.view_pushEntry he
        rw [hnothing] at hview
        have hfunc : rq.curFunc = e.func.code := congrArg QueueView.curFunc hview
        have hpage : rq.curPage = e.page := congrArg QueueView.curPage hview
        have hbytes : (rq.pushEntry e).bytes = rq.bytes := congrArg QueueView.bytes hnothing
        have hsize := rq.size_lt
        refine Or.inr ⟨?_, hfunc, hpage⟩
        by_cases hroom : rq.queueSize + 1 < queueBufSize
        · have := length_lt_pushEntry he hfunc hpage hroom
          rw [hbytes] at this
          exact absurd this (Nat.lt_irrefl _)
        · simp only [queueBufSize] at hroom hsize ⊢
          omega
  · rintro (hfit | ⟨hfull, hfunc, hpage⟩)
    · have hfit' : rq.bytes.length +
          (e.encode rq.bytes.isEmpty rq.curFunc rq.curPage).length < queueBufSize := by
        rw [length_bytes]
        exact hfit
      exact Or.inl (view_pushEntry_of_fits he hfit')
    · refine Or.inr ?_
      have hbytes : BoundedBuffer.appendAll queueBufSize rq.bytes
          (e.pieces rq.bytes.isEmpty rq.curFunc rq.curPage) = rq.bytes := by
        refine BoundedBuffer.appendAll_of_full (e.pieces_ne_nil _ _ _) ?_
        rw [length_bytes, hfull]
        decide
      rw [rq.view_pushEntry he, hbytes, ← hfunc, ← hpage]
      rfl

/-! ## Runs -/

/-- The entries of a run that the queue took as a whole. -/
def taken (rq : BGCPQueue) : List Entry → List Entry
  | [] => []
  | e :: es => (if rq.Fits e then [e] else []) ++ (rq.pushEntry e).taken es

/-- Every push of a run satisfies `P` in the state it meets. -/
def EachPush (P : BGCPQueue → Entry → Prop) (rq : BGCPQueue) (es : List Entry) : Prop :=
  ∀ before e after, es = before ++ e :: after → P (rq.pushAll before) e

theorem eachPush_nil {P : BGCPQueue → Entry → Prop} {rq : BGCPQueue} : EachPush P rq [] := by
  intro before e after hes
  cases before <;> contradiction

/-- The first push of a run, and the others behind it. -/
theorem eachPush_cons_iff {P : BGCPQueue → Entry → Prop} {rq : BGCPQueue} {e : Entry}
    {es : List Entry} : EachPush P rq (e :: es) ↔ P rq e ∧ EachPush P (rq.pushEntry e) es := by
  constructor
  · intro h
    refine ⟨h [] e es rfl, fun before e' after hes => ?_⟩
    exact h (e :: before) e' after (by rw [hes, List.cons_append])
  · rintro ⟨hfirst, hrest⟩ before e' after hes
    cases before with
    | nil =>
      obtain ⟨rfl, rfl⟩ := List.cons.inj hes
      exact hfirst
    | cons e₁ before =>
      obtain ⟨rfl, htail⟩ := List.cons.inj hes
      exact hrest before e' after htail

/-- After clean pushes the live bytes are the old ones followed by the message for the
    entries taken. -/
private theorem bytes_pushAll_of_clean {rq : BGCPQueue} {es : List Entry}
    (hes : ∀ e ∈ es, e.WellFormed) (hclean : EachPush Clean rq es) :
    (rq.pushAll es).bytes =
      rq.bytes ++ encodeFrom rq.bytes.isEmpty rq.curFunc rq.curPage (rq.taken es) := by
  induction es generalizing rq with
  | nil => simp only [pushAll, List.foldl_nil, taken, encodeFrom, List.append_nil]
  | cons e es ih =>
    have he := hes e (List.mem_cons_self ..)
    have htail := ih (fun e' h => hes e' (List.mem_cons_of_mem _ h)) (eachPush_cons_iff.mp hclean).2
    simp only [pushAll, List.foldl_cons] at htail ⊢
    rw [htail, taken]
    by_cases hfit : rq.Fits e
    · -- an entry that fits is pushed whole
      have hfit' : rq.bytes.length +
          (e.encode rq.bytes.isEmpty rq.curFunc rq.curPage).length < queueBufSize := by
        rw [length_bytes]
        exact hfit
      have hview := view_pushEntry_of_fits he hfit'
      have hfunc : (rq.pushEntry e).curFunc = e.func.code := congrArg QueueView.curFunc hview
      have hpage : (rq.pushEntry e).curPage = e.page := congrArg QueueView.curPage hview
      have hbytes : (rq.pushEntry e).bytes = _ := congrArg QueueView.bytes hview
      have hne : (rq.pushEntry e).bytes.isEmpty = false := by
        rw [hbytes, List.isEmpty_eq_false_iff]
        exact List.append_ne_nil_of_right_ne_nil _ (e.encode_ne_nil _ _ _)
      rw [if_pos hfit, List.singleton_append, encodeFrom, hne, hfunc, hpage, hbytes,
        List.append_assoc]
    · -- one that does not is pushed whole or not at all, and whole it would be too long
      have hview : (rq.pushEntry e).view = rq.view := by
        rcases (rq.allOrNothing_iff he).mpr (hclean [] e es rfl) with hall | hnothing
        · have hlt := length_pushEntry_lt he hfit
          have hbytes := congrArg (fun v => v.bytes.length) hall
          simp only [view, List.length_append] at hbytes
          omega
        · exact hnothing
      have hfunc : (rq.pushEntry e).curFunc = rq.curFunc := congrArg QueueView.curFunc hview
      have hpage : (rq.pushEntry e).curPage = rq.curPage := congrArg QueueView.curPage hview
      have hbytes : (rq.pushEntry e).bytes = rq.bytes := congrArg QueueView.bytes hview
      rw [if_neg hfit, List.nil_append, hfunc, hpage, hbytes]

private theorem mem_of_mem_taken {rq : BGCPQueue} {es : List Entry} {e : Entry}
    (h : e ∈ rq.taken es) : e ∈ es := by
  induction es generalizing rq with
  | nil => exact h
  | cons e' es ih =>
    rw [taken, List.mem_append] at h
    rcases h with h | h
    · split at h
      · rw [List.mem_singleton.mp h]
        exact List.mem_cons_self ..
      · exact absurd h List.not_mem_nil
    · exact List.mem_cons_of_mem _ (ih h)

/-- In every state reached from a reset by queue calls, a push is all or nothing exactly if
    it is clean; and as long as all pushes of a run are clean, the queue holds, and the
    decoder reads, the entries taken. -/
theorem push_atomic (rq : BGCPQueue) :
    (∀ (calls : List Call) (e : Entry), e.WellFormed →
      ((calls.foldl call rq.resetReqQueue).AllOrNothing e ↔
        (calls.foldl call rq.resetReqQueue).Clean e)) ∧
    ∀ es : List Entry, (∀ e ∈ es, e.WellFormed) → EachPush Clean rq.resetReqQueue es →
      EachPush AllOrNothing rq.resetReqQueue es ∧
      (rq.resetReqQueue.pushAll es).bytes = encode (rq.resetReqQueue.taken es) ∧
      decode (rq.resetReqQueue.pushAll es).bytes =
        (rq.resetReqQueue.taken es).map Entry.event := by
  refine ⟨fun calls e he => allOrNothing_iff _ he, fun es hes hclean => ⟨?_, ?_⟩⟩
  · intro before e after hsplit
    have he : e.WellFormed :=
      hes e (by rw [hsplit]; exact List.mem_append_right _ (List.mem_cons_self ..))
    exact (allOrNothing_iff _ he).mpr (hclean before e after hsplit)
  · have hbytes : (rq.resetReqQueue.pushAll es).bytes = encode (rq.resetReqQueue.taken es) :=
      bytes_pushAll_of_clean hes hclean
    rw [hbytes]
    exact ⟨rfl, decode_encode fun e he => hes e (mem_of_mem_taken he)⟩

/-- Two answers that fill the queue to its last byte. -/
def fillQueue : List Entry :=
  [.param .resp 1 (List.replicate 255 0), .param .resp 2 (List.replicate 249 0)]

/-- A third answer meets a full queue, and is refused as a whole. -/
theorem push_atomic_full :
    EachPush AllOrNothing zero.resetReqQueue (fillQueue ++ [.param .resp 3 [1]]) ∧
      decode (zero.resetReqQueue.pushAll (fillQueue ++ [.param .resp 3 [1]])).bytes =
        fillQueue.map Entry.event := by
  have hclean : EachPush Clean zero.resetReqQueue (fillQueue ++ [.param .resp 3 [1]]) := by
    rw [fillQueue, List.cons_append, eachPush_cons_iff, List.cons_append, eachPush_cons_iff,
      List.nil_append, eachPush_cons_iff]
    simp only [Clean, Fits, encoding, bytes_isEmpty]
    exact ⟨by decide +kernel, by decide +kernel, by decide +kernel, eachPush_nil⟩
  obtain ⟨hatomic, _, hdecode⟩ := (push_atomic zero).2 _ (by decide +kernel) hclean
  have htaken : zero.resetReqQueue.taken (fillQueue ++ [.param .resp 3 [1]]) = fillQueue := by
    simp only [taken, fillQueue, Fits, encoding, bytes_isEmpty, List.cons_append, List.nil_append]
    decide +kernel
  rw [htaken] at hdecode
  exact ⟨hatomic, hdecode⟩

/-- With 509 bytes in the queue, a request that changes function and page leaves its
    function command behind and nothing else. -/
theorem not_allOrNothing_of_overflow :
    ¬ (zero.resetReqQueue.pushAll [.param .resp 1 (List.replicate 255 0),
        .param .resp 2 (List.replicate 247 0)]).AllOrNothing (.param .r 0x0101 []) := by
  rw [allOrNothing_iff _ (by decide)]
  -- with the fill level for the live bytes, nothing here depends on the buffer
  simp only [Clean, Fits, encoding, bytes_isEmpty]
  decide +kernel

end BGCPQueue

end EspTesting.Bgcp
