import EspTesting.Native.St25dv
import EspTesting.Spec.I2cSendSync

/-!
# Loading and storing a byte of the tag

What `st25dv_read_byte` and `st25dv_write_bit` may rely on when `i2c_send_sync` returns
`ESP_OK`: if the task was at rest and the bus serves the read, the byte is the one the tag
sent, and only that byte, with the bits of the mask changed, is written back.

## Key results

- `OnlyRequest.invariant`: the invariant rule for the task at work on one request
- `i2cSendSync_reports_iff`: when `ESP_OK` is to be relied on
- `not_i2cSendSync_reports_of_nack`: a device that does not answer
-/

namespace EspTesting.I2c

variable {env : I2cEnv} {w : I2cWorld} {ticket : Nat} {req : I2cRequest} {op : I2cOp}
  {rest : List I2cOp} {failCount : Nat} {result : EspErr}

/-! ## The task at work on one request only -/

/-- All the task has to do is the request `req`, sent under the number `ticket`. -/
inductive OnlyRequest (ticket : Nat) (req : I2cRequest) (w : I2cWorld) : Prop where
  | queued (htask : w.task = .receive) (hqueue : w.i2cQueue = [(ticket, req)])
  | loop (rest : List I2cOp) (failCount : Nat) (result : EspErr)
      (htask : w.task = .loop ticket req rest failCount result) (hqueue : w.i2cQueue = [])
      (hrest : rest <:+ req.ops)
  | finished (htask : w.task = .testQueue ∨ w.task = .setBits ∨ w.task = .receive)
      (hqueue : w.i2cQueue = [])

/-- A turn of the loop leaves the queue alone and keeps to the operations of the request. -/
theorem onlyRequest_i2cTaskLoop (hqueue : w.i2cQueue = []) (hrest : op :: rest <:+ req.ops) :
    OnlyRequest ticket req (i2cTaskLoop env ticket req op rest failCount result w) := by
  have hturn := turnOf_i2cTaskLoop env ticket req op rest failCount result w
  obtain htask | ⟨rest', failCount', result', hrest', htask⟩ := hturn.task
  · exact .finished (Or.inl htask) (hturn.i2cQueue.trans hqueue)
  · exact .loop rest' failCount' result' htask (hturn.i2cQueue.trans hqueue)
      (hrest'.trans hrest)

/-- What survives a turn of the loop, and depends on the memory, the transactions and the
    reports only, survives the work on the request. -/
theorem OnlyRequest.invariant {I : I2cWorld → Prop}
    (hsame : ∀ w w' : I2cWorld, w'.mem = w.mem → w'.transactions = w.transactions →
      w'.notified = w.notified → I w → I w')
    (hturn : ∀ w op rest failCount result, op ∈ req.ops → I w →
      I (i2cTaskLoop env ticket req op rest failCount result w))
    (h : OnlyRequest ticket req w) (hI : I w) (n : Nat) : I (i2cTaskRun env n w) := by
  suffices OnlyRequest ticket req (i2cTaskRun env n w) ∧ I (i2cTaskRun env n w) from this.2
  refine Loop.iterate_invariant (I := fun w => OnlyRequest ticket req w ∧ I w) ?_ n ⟨h, hI⟩
  -- only the turns on an operation touch memory, bus or log
  rintro w hrunning ⟨h, hI⟩
  unfold i2cTaskStep
  cases h with
  | queued htask hqueue =>
    simp only [htask, hqueue]
    exact ⟨.loop req.ops 0 espOk rfl rfl List.suffix_rfl, hsame w _ rfl rfl rfl hI⟩
  | loop rest failCount result htask hqueue hrest =>
    simp only [htask]
    cases rest with
    | nil => exact ⟨.finished (Or.inl rfl) hqueue, hsame w _ rfl rfl rfl hI⟩
    | cons op rest =>
      exact ⟨onlyRequest_i2cTaskLoop hqueue hrest,
        hturn w op rest failCount result (hrest.mem (List.mem_cons_self ..)) hI⟩
  | finished htask hqueue =>
    obtain htask | htask | htask := htask
    · simp only [htask, hqueue, List.isEmpty_nil, if_true]
      exact ⟨.finished (Or.inr (Or.inl rfl)) rfl, hsame w _ rfl rfl rfl hI⟩
    · simp only [htask]
      exact ⟨.finished (Or.inr (Or.inr rfl)) hqueue, hsame w _ rfl rfl rfl hI⟩
    · exact absurd ⟨htask, hqueue⟩ (running_eq_true_iff.mp hrunning)

/-! ## Reading a byte -/

section

variable (env : I2cEnv) (port : Int) (st25Address : UInt8) (address : UInt16)

/-- The transaction of `st25dv_read_byte`. -/
def readByteTransaction : I2cTransaction := .read port st25Address address true false 1

/-- Transaction `n` read the byte of the tag, and the tag answered with `b`. -/
def ReadAt (w : I2cWorld) (n : Nat) (b : UInt8) : Prop :=
  w.transactions[n]? = some (readByteTransaction port st25Address address) ∧
    (env.bus n).err = espOk ∧ b = (env.bus n).data 0

/-- The read that is the only operation of the request sent as `ticket`, with `t₀`
    transactions before it, has filled `*byte` if it has completed, and no other transaction
    was made for it. -/
structure Reading (ticket t₀ byte : Nat) (w : I2cWorld) : Prop where
  le : t₀ ≤ w.transactions.length
  reads : ∀ n tr, t₀ ≤ n → w.transactions[n]? = some tr →
    tr = readByteTransaction port st25Address address
  filled : Completed env.bus [st25dvReadByteOp address byte] (w.notified ticket) →
    ∃ n, t₀ ≤ n ∧ ReadAt env port st25Address address w n (w.mem byte)

end

variable {port : Int} {st25Address : UInt8} {address : UInt16} {t₀ byte : Nat}

/-- An attempt at the read is one transaction, whose answer goes to the buffer. -/
theorem i2cAttempt_readByteOp (result : EspErr) (w : I2cWorld) :
    i2cAttempt env (st25dvReq port st25Address (st25dvReadByteOp address byte))
        (st25dvReadByteOp address byte) result w =
      ((env.bus w.transactions.length).err,
        { w with
          i2cBuf := fun i =>
            if i < 1 then (env.bus w.transactions.length).data i else w.i2cBuf i
          transactions := w.transactions ++
            [readByteTransaction port st25Address address] }) := rfl

/-- Entries of the log behind an old end, when one more is added. -/
private theorem getElem?_append_singleton {log : List I2cTransaction} {tr tr' : I2cTransaction}
    {n : Nat} (h : (log ++ [tr'])[n]? = some tr) : log[n]? = some tr ∨ tr = tr' := by
  rw [List.getElem?_append] at h
  split at h
  · exact Or.inl h
  · have hmem := List.mem_of_getElem? h
    exact Or.inr (List.mem_singleton.mp hmem)

/-- A byte that was read stays so in a longer log. -/
theorem ReadAt.append {w' : I2cWorld} {n : Nat} {b : UInt8}
    (h : ReadAt env port st25Address address w n b)
    (hlog : w.transactions <+: w'.transactions) :
    ReadAt env port st25Address address w' n b := by
  obtain ⟨log, hlog⟩ := hlog
  obtain ⟨hlt, _⟩ := List.getElem?_eq_some_iff.mp h.1
  refine ⟨?_, h.2⟩
  rw [← hlog, List.getElem?_append_left hlt]
  exact h.1

theorem Reading.turn (h : Reading env port st25Address address ticket t₀ byte w) :
    Reading env port st25Address address ticket t₀ byte
      (i2cTaskLoop env ticket (st25dvReq port st25Address (st25dvReadByteOp address byte))
        (st25dvReadByteOp address byte) rest failCount result w) := by
  obtain ⟨hinvalid, _⟩ | ⟨_, res, w', hattempt, hcases⟩ := i2cTaskLoop_cases env ticket
    (st25dvReq port st25Address (st25dvReadByteOp address byte)) (st25dvReadByteOp address byte)
    rest failCount result w
  · exact absurd (by simp [I2cOp.Valid, st25dvReadByteOp]) hinvalid
  rw [i2cAttempt_readByteOp] at hattempt
  cases hattempt
  have hle : t₀ ≤ (w.transactions ++ [readByteTransaction port st25Address address]).length := by
    rw [List.length_append]
    exact Nat.le_trans h.le (Nat.le_add_right _ _)
  have hreads : ∀ n tr, t₀ ≤ n →
      (w.transactions ++ [readByteTransaction port st25Address address])[n]? = some tr →
      tr = readByteTransaction port st25Address address := fun n tr hn htr =>
    (getElem?_append_singleton htr).elim (h.reads n tr hn) id
  obtain ⟨hok, heq⟩ | ⟨_, _, heq⟩ | ⟨hres, _, heq⟩ := hcases <;> rw [heq]
  · refine ⟨hle, hreads, fun _ => ⟨w.transactions.length, h.le, ?_, hok, ?_⟩⟩
    · exact List.getElem?_concat_length
    · -- the callback has copied the first byte of the buffer
      show Mem.store w.mem byte [(env.bus w.transactions.length).data 0] byte = _
      exact @Mem.store_of_mem w.mem byte 0 [(env.bus w.transactions.length).data 0] Nat.one_pos
  · refine ⟨hle, hreads, fun hdone => ?_⟩
    obtain ⟨n, hn, hread⟩ := h.filled hdone
    exact ⟨n, hn, hread.append (List.prefix_append ..)⟩
  · -- the last report carries the error
    have hnot : ∀ w', ¬ Completed env.bus [st25dvReadByteOp address byte]
        ((notificationCallback env (env.bus w.transactions.length).err ticket
          (st25dvReq port st25Address (st25dvReadByteOp address byte))
          (st25dvReadByteOp address byte) w').notified ticket) := by
      intro w'
      rw [notificationCallback_notified]
      exact not_completed_concat fun hr => hres hr.1
    exact ⟨hle, hreads, fun hdone => absurd hdone (hnot _)⟩

/-- The request is all a task at rest has to do once it is sent. -/
theorem onlyRequest_sentTo (hrest : w.AtRest) :
    OnlyRequest w.sent req (sentTo req w.clearBits) :=
  .queued hrest.1 rfl

/-- A read sent to a task at rest fills its byte if it completes. -/
theorem reading_i2cTaskRun (hrest : w.AtRest) (n : Nat) :
    Reading env port st25Address address w.sent w.transactions.length byte
      (i2cTaskRun env n (sentTo (st25dvReq port st25Address (st25dvReadByteOp address byte))
        w.clearBits)) := by
  refine (onlyRequest_sentTo hrest).invariant ?_ ?_ ?_ n
  · rintro w w' hmem hlog hnotified ⟨hle, hreads, hfilled⟩
    refine ⟨hlog ▸ hle, hlog ▸ hreads, fun hdone => ?_⟩
    obtain ⟨n, hn, hread⟩ := hfilled (hnotified ▸ hdone)
    exact ⟨n, hn, hmem ▸ hread.append (hlog ▸ List.prefix_rfl)⟩
  · intro w op rest failCount result hop h
    cases List.mem_singleton.mp hop
    exact h.turn
  · refine ⟨Nat.le_refl _, fun n tr hn htr => ?_, fun hdone => ?_⟩
    · have hnone : w.transactions[n]? = none := List.getElem?_eq_none hn
      exact absurd (htr.symm.trans hnone) (by simp)
    · have hnone : (sentTo (st25dvReq port st25Address (st25dvReadByteOp address byte))
          w.clearBits).notified w.sent = [] := if_pos rfl
      exact absurd (hnone ▸ hdone) (not_completed_nil (List.cons_ne_nil _ _))

/-! ## Writing a byte -/

section

variable (port : Int) (st25Address : UInt8) (address : UInt16)

/-- The transaction of `st25dv_write_byte`. -/
def writeByteTransaction (b : UInt8) : I2cTransaction := .write port st25Address address true [b]

/-- The write that is the only operation of a request, sent after the transactions `before`,
    writes the byte `b` at `src`, and no other transaction was made for it. -/
structure Writing (before : List I2cTransaction) (src : Nat) (b : UInt8) (w : I2cWorld) :
    Prop where
  log : before <+: w.transactions
  byte : w.mem src = b
  writes : ∀ n tr, before.length ≤ n → w.transactions[n]? = some tr →
    tr = writeByteTransaction port st25Address address b

end

variable {before : List I2cTransaction} {src : Nat} {b : UInt8}

/-- An attempt at the write is one transaction. -/
theorem i2cAttempt_writeByteOp (result : EspErr) (w : I2cWorld) :
    i2cAttempt env (st25dvReq port st25Address (st25dvWriteByteOp address src))
        (st25dvWriteByteOp address src) result w =
      ((env.bus w.transactions.length).err,
        { w with transactions := w.transactions ++
            [writeByteTransaction port st25Address address (w.mem src)] }) := rfl

theorem Writing.turn (h : Writing port st25Address address before src b w) :
    Writing port st25Address address before src b
      (i2cTaskLoop env ticket (st25dvReq port st25Address (st25dvWriteByteOp address src))
        (st25dvWriteByteOp address src) rest failCount result w) := by
  obtain ⟨hinvalid, _⟩ | ⟨_, res, w', hattempt, hcases⟩ := i2cTaskLoop_cases env ticket
    (st25dvReq port st25Address (st25dvWriteByteOp address src)) (st25dvWriteByteOp address src)
    rest failCount result w
  · exact absurd (by simp [I2cOp.Valid, st25dvWriteByteOp]) hinvalid
  rw [i2cAttempt_writeByteOp, h.byte] at hattempt
  cases hattempt
  have hlog : before <+: w.transactions ++ [writeByteTransaction port st25Address address b] :=
    h.log.trans (List.prefix_append ..)
  have hwrites : ∀ n tr, before.length ≤ n →
      (w.transactions ++ [writeByteTransaction port st25Address address b])[n]? = some tr →
      tr = writeByteTransaction port st25Address address b := fun n tr hn htr =>
    (getElem?_append_singleton htr).elim (h.writes n tr hn) id
  obtain ⟨_, heq⟩ | ⟨_, _, heq⟩ | ⟨_, _, heq⟩ := hcases <;> rw [heq]
  · exact ⟨hlog, h.byte, hwrites⟩
  · exact ⟨hlog, h.byte, hwrites⟩
  · exact ⟨hlog, h.byte, hwrites⟩

/-- A write sent to a task at rest writes its byte only. -/
theorem writing_i2cTaskRun (hrest : w.AtRest) (hbyte : w.mem src = b) (n : Nat) :
    Writing port st25Address address w.transactions src b
      (i2cTaskRun env n (sentTo (st25dvReq port st25Address (st25dvWriteByteOp address src))
        w.clearBits)) := by
  refine (onlyRequest_sentTo hrest).invariant ?_ ?_ ?_ n
  · rintro w' w'' hmem hlog _ ⟨hbefore, hbyte, hwrites⟩
    exact ⟨hlog ▸ hbefore, hmem ▸ hbyte, hlog ▸ hwrites⟩
  · intro w' op rest failCount result hop h
    cases List.mem_singleton.mp hop
    exact h.turn
  · refine ⟨List.prefix_rfl, hbyte, fun n tr hn htr => ?_⟩
    have hnone : w.transactions[n]? = none := List.getElem?_eq_none hn
    exact absurd (htr.symm.trans hnone) (by simp)

/-! ## What `ESP_OK` means -/

section

variable (env : I2cEnv) (port : Int) (st25Address : UInt8) (address : UInt16)

/-- A call of `st25dv_read_byte` from `w` to `w'` has filled its byte: its operation has
    completed, and the byte is what the tag answered to one of its transactions. -/
def Filled (byte : Nat) (w w' : I2cWorld) : Prop :=
  Completed env.bus [st25dvReadByteOp address byte] (w'.notified w.sent) ∧
    ∃ n, w.transactions.length ≤ n ∧ ReadAt env port st25Address address w' n (w'.mem byte)

/-- A call of `st25dv_write_bit` from `w` to `w'` writes back only a byte it has read, with
    the bits of the mask changed. -/
def WritesBackRead (bitMask : UInt8) (bit : Bool) (w w' : I2cWorld) : Prop :=
  ∀ n port' st25Address' address' regAddr16b data, w.transactions.length ≤ n →
    w'.transactions[n]? = some (.write port' st25Address' address' regAddr16b data) →
    ∃ k b, w.transactions.length ≤ k ∧ k < n ∧ ReadAt env port st25Address address w' k b ∧
      data = [applyBit bitMask bit b]

end

/-- `ESP_OK` from `st25dv_read_byte` means that the byte is filled, however the call and the
    task interleave, exactly if the task is at rest and the bus serves the read. -/
theorem st25dvReadByte_filled_iff (env : I2cEnv) (port : Int) (st25Address : UInt8)
    (address : UInt16) (byte : Nat) (w : I2cWorld) :
    (∀ sched, (st25dvReadByte env sched port st25Address address byte w).1 = espOk →
      Filled env port st25Address address byte w
        (st25dvReadByte env sched port st25Address address byte w).2) ↔
    w.AtRest ∧ Served env.bus [st25dvReadByteOp address byte] w.transactions.length := by
  have hops : (st25dvReq port st25Address (st25dvReadByteOp address byte)).ops ≠ [] :=
    List.cons_ne_nil _ _
  have hcompleted := i2cSendSync_completed_iff env w
    (st25dvReq port st25Address (st25dvReadByteOp address byte))
  rw [or_iff_right hops] at hcompleted
  rw [← show _ ↔ w.AtRest ∧ Served env.bus [st25dvReadByteOp address byte] w.transactions.length
    from hcompleted]
  constructor
  · exact fun h sched hok => (h sched hok).1
  · intro h sched hok
    have hdone := h sched hok
    have hrest := (hcompleted.mp h).1
    unfold st25dvReadByte
    rw [i2cSendSync_of_rest hrest hops] at hdone ⊢
    exact ⟨hdone, (reading_i2cTaskRun hrest sched.wait).filled hdone⟩

/-- What a served read leaves: reads in the log, and after `ESP_OK` a task at rest. -/
theorem st25dvReadByte_spec (hrest : w.AtRest)
    (hserved : Served env.bus [st25dvReadByteOp address byte] w.transactions.length)
    (sched : Schedule) :
    Reading env port st25Address address w.sent w.transactions.length byte
      (st25dvReadByte env sched port st25Address address byte w).2 ∧
    ((st25dvReadByte env sched port st25Address address byte w).1 = espOk →
      (st25dvReadByte env sched port st25Address address byte w).2.AtRest ∧
      Filled env port st25Address address byte w
        (st25dvReadByte env sched port st25Address address byte w).2) := by
  have hops : (st25dvReq port st25Address (st25dvReadByteOp address byte)).ops ≠ [] :=
    List.cons_ne_nil _ _
  have hcall : st25dvReadByte env sched port st25Address address byte w = _ :=
    i2cSendSync_of_rest hrest hops sched
  refine ⟨?_, fun hok => ⟨?_, ?_⟩⟩
  · rw [hcall]
    exact reading_i2cTaskRun hrest sched.wait
  · have hcplt := bitI2cOperCplt_of_ok hrest hops hok
    rw [hcall]
    exact (progress_i2cTaskRun hrest sched.wait).atRest hcplt hserved
  · exact (st25dvReadByte_filled_iff env port st25Address address byte w).mpr
      ⟨hrest, hserved⟩ sched hok

/-- What a write sent to a task at rest leaves. -/
theorem st25dvWriteByte_spec (hrest : w.AtRest) (sched : Schedule) (b : UInt8) :
    Writing port st25Address address w.transactions src b
      (st25dvWriteByte env sched port st25Address address b src w).2 := by
  have hrest' : I2cWorld.AtRest { w with mem := w.mem.store src [b] } := hrest
  have hcall : st25dvWriteByte env sched port st25Address address b src w = _ :=
    i2cSendSync_of_rest hrest' (List.cons_ne_nil _ _) sched
  have hbyte : w.mem.store src [b] src = b := @Mem.store_of_mem w.mem src 0 [b] Nat.one_pos
  rw [hcall]
  exact writing_i2cTaskRun hrest' hbyte sched.wait

/-- With the task at rest and the read served, `st25dv_write_bit` writes back what it read. -/
theorem writesBackRead_st25dvWriteBit (hrest : w.AtRest)
    (hserved : Served env.bus [st25dvReadByteOp address byte] w.transactions.length)
    (readSched writeSched : Schedule) (bitMask : UInt8) (bit : Bool) (src : Nat) :
    WritesBackRead env port st25Address address bitMask bit w
      (st25dvWriteBit env readSched writeSched port st25Address address bitMask bit byte src
        w).2 := by
  have hrest₀ : I2cWorld.AtRest { w with mem := w.mem.store byte [0] } := hrest
  have hread := @st25dvReadByte_spec env _ port st25Address address byte hrest₀ hserved readSched
  unfold st25dvWriteBit
  generalize st25dvReadByte env readSched port st25Address address byte _ = r at hread ⊢
  obtain ⟨ret, w₁⟩ := r
  obtain ⟨hreading, hok⟩ := hread
  by_cases hret : ret = espOk
  · simp only [hret, ne_eq, not_true_eq_false, if_false]
    obtain ⟨hrest₁, _, k, hk, hkread⟩ := hok hret
    obtain ⟨hklt, _⟩ := List.getElem?_eq_some_iff.mp hkread.1
    have hwriting := @st25dvWriteByte_spec env w₁ port st25Address address src hrest₁ writeSched
      (applyBit bitMask bit (w₁.mem byte))
    intro n port' st25Address' address' regAddr16b data hn hwrite
    by_cases hlt : n < w₁.transactions.length
    · -- the transactions of the first call are reads
      obtain ⟨log, hlog⟩ := hwriting.log
      rw [← hlog, List.getElem?_append_left hlt] at hwrite
      exact I2cTransaction.noConfusion (hreading.reads n _ hn hwrite)
    · have heq := hwriting.writes n _ (Nat.le_of_not_lt hlt) hwrite
      cases heq
      have hkn : k < n := Nat.lt_of_lt_of_le hklt (Nat.le_of_not_lt hlt)
      exact ⟨k, w₁.mem byte, hk, hkn, hkread.append hwriting.log, rfl⟩
  · simp only [ne_eq, hret, not_false_eq_true, if_true]
    intro n port' st25Address' address' regAddr16b data hn hwrite
    exact I2cTransaction.noConfusion (hreading.reads n _ hn hwrite)

/-- `ESP_OK` is to be relied on, however a call and the task interleave, if the task is at rest
    when the call starts and the bus serves the request, and otherwise not: from
    `i2c_send_sync` it means that all operations completed, from `st25dv_read_byte` that the
    byte is filled. Then also `st25dv_write_bit` writes back only what it has read. -/
theorem i2cSendSync_reports_iff (env : I2cEnv) (w : I2cWorld) :
    (∀ req, (∀ sched, (i2cSendSync env sched req w).1 = espOk →
        Completed env.bus req.ops ((i2cSendSync env sched req w).2.notified w.sent)) ↔
      req.ops = [] ∨ w.AtRest ∧ Served env.bus req.ops w.transactions.length) ∧
    ∀ port st25Address address byte,
      ((∀ sched, (st25dvReadByte env sched port st25Address address byte w).1 = espOk →
          Filled env port st25Address address byte w
            (st25dvReadByte env sched port st25Address address byte w).2) ↔
        w.AtRest ∧ Served env.bus [st25dvReadByteOp address byte] w.transactions.length) ∧
      (w.AtRest ∧ Served env.bus [st25dvReadByteOp address byte] w.transactions.length →
        ∀ readSched writeSched bitMask bit src,
          WritesBackRead env port st25Address address bitMask bit w
            (st25dvWriteBit env readSched writeSched port st25Address address bitMask bit byte
              src w).2) := by
  refine ⟨i2cSendSync_completed_iff env w, fun port st25Address address byte => ⟨?_, ?_⟩⟩
  · exact st25dvReadByte_filled_iff env port st25Address address byte w
  · rintro ⟨hrest, hserved⟩ readSched writeSched bitMask bit src
    exact writesBackRead_st25dvWriteBit hrest hserved readSched writeSched bitMask bit src

/-! ## A device that does not answer -/

/-- A bus on which the first four transactions fail, and all others succeed. -/
def nackEnv : I2cEnv where
  bus n := { err := if n < 4 then espFail else espOk, data := fun _ => 0 }
  callback _ _ _ _ _ mem := mem

/-- After four failed reads `st25dv_read_byte` returns `ESP_OK`, and `st25dv_write_bit` goes on
    to write the mask alone. -/
theorem not_i2cSendSync_reports_of_nack :
    let w := I2cWorld.boot fun _ => 0
    let read := st25dvReadByte nackEnv ⟨0, 20⟩ 0 0x53 0 64 w
    let write := st25dvWriteBit nackEnv ⟨0, 20⟩ ⟨0, 20⟩ 0 0x53 0 0x01 true 64 65 w
    (read.1 = espOk ∧
      ¬ Completed nackEnv.bus [st25dvReadByteOp 0 64] (read.2.notified 0)) ∧
    write.1 = espOk ∧
      write.2.transactions[4]? = some (writeByteTransaction 0 0x53 0 0x01) ∧
      ¬ WritesBackRead nackEnv 0 0x53 0 0x01 true w write.2 := by
  intro w read write
  have hwrite : write.2.transactions[4]? = some (writeByteTransaction 0 0x53 0 0x01) := by
    decide +kernel
  refine ⟨⟨by decide +kernel, by decide +kernel⟩, by decide +kernel, hwrite, fun h => ?_⟩
  -- the byte written back would have been read in one of the first four transactions
  obtain ⟨k, b, _, hk, ⟨_, hok, _⟩, _⟩ := h 4 _ _ _ _ _ (Nat.zero_le _) hwrite
  have herr : (nackEnv.bus k).err = espFail := if_pos hk
  rw [herr] at hok
  exact absurd hok (by decide)

/-- A bus on which every transaction succeeds and every byte is 7. -/
def ackEnv : I2cEnv where
  bus _ := { err := espOk, data := fun _ => 7 }
  callback _ _ _ _ _ mem := mem

/-- On that bus `st25dv_read_byte` fills its byte. -/
theorem i2cSendSync_reports_ack :
    let w := I2cWorld.boot fun _ => 0
    Filled ackEnv 0 0x53 0 64 w (st25dvReadByte ackEnv ⟨0, 20⟩ 0 0x53 0 64 w).2 := by
  intro w
  have hserved : Served ackEnv.bus [st25dvReadByteOp 0 64] w.transactions.length :=
    ⟨by decide, 0, by decide, ⟨fun i hi => absurd hi (Nat.not_lt_zero i), fun _ _ => rfl⟩, trivial⟩
  have hok : (st25dvReadByte ackEnv ⟨0, 20⟩ 0 0x53 0 64 w).1 = espOk := by decide +kernel
  exact (((i2cSendSync_reports_iff ackEnv w).2 0 0x53 0 64).1.mpr ⟨⟨rfl, rfl⟩, hserved⟩) _ hok

end EspTesting.I2c
