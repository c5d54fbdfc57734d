import EspTesting.Spec.TagSerial

/-!
# Calls on a tag that nobody else uses

A call that finds the worker at rest, and waits until its request is worked off, does on the tag
what the NDEF functions take for granted: `st25dv_write` stores bytes, and `st25dv_read` loads
them. The bus may fail now and then, but not in all the attempts at one request.

## Key results

- `TagRequest.call_performs`: one call
- `st25dvRead_after_write`: what is stored is loaded again
- `st25dvOpenSession_performs`, `st25dvIsSessionOpened_eq`: the security session
-/

namespace EspTesting.I2c

open St25dv (UserMem)

variable {env : I2cEnv} {sched : Schedule} {w : I2cWorld} {landed : Nat → Bool} {devs : Devices}

/-! ## One call -/

/-- The call that makes the request. -/
def TagRequest.call (env : I2cEnv) (sched : Schedule) (t : TagRequest) (w : I2cWorld) :
    EspErr × I2cWorld :=
  match t with
  | .write port st25Address regAddr data size =>
    st25dvWrite env sched port st25Address regAddr data size w
  | .read port st25Address address data size =>
    st25dvRead env sched port st25Address address data size w

theorem TagRequest.call_eq (t : TagRequest) :
    t.call env sched w = i2cSendSync env sched t.request w := by
  cases t <;> rfl

/-- More steps than the task has to make change nothing. -/
theorem i2cTaskRun_eq_settle {n : Nat} (h : w.weight ≤ n) : i2cTaskRun env n w = settle env w := by
  obtain ⟨k, hk, hexit⟩ := Loop.exits_run (decreases_weight env) w
  exact hexit.iterate_eq (Nat.le_trans hk h)

/-- The steps that a request with one operation may take. -/
abbrev tagSteps : Nat := 13

/-- A call that finds the task at rest and waits long enough is served by itself. -/
theorem TagRequest.call_serveAlone (t : TagRequest) (hrest : w.AtRest) (hnum : w.Numbered)
    (hwait : tagSteps ≤ sched.wait) :
    t.call env sched w = (espOk, serveAlone env w.clearBits t.request) := by
  obtain ⟨n, res, hserved, -⟩ :=
    tagServed_serveAlone env t (w := w.clearBits) hrest hnum.clearBits
  have hcplt := hserved.bitI2cOperCplt
  have hsent : (i2cSendAsync t.request w.clearBits).2 = sentTo t.request w.clearBits := by
    rw [i2cSendAsync_of_rest (w := w.clearBits) hrest t.ops_ne_nil]
  -- the one operation of the request is all there is to do
  have hweight : (sentTo t.request w.clearBits).weight = tagSteps := by
    have htask : (sentTo t.request w.clearBits).task = .receive := hrest.1
    rw [I2cWorld.weight, htask]
    simp only [sentTo, queueWeight, t.request_ops, List.length_singleton, I2cTask.weight]
  have hrun : i2cTaskRun env sched.wait (sentTo t.request w.clearBits) =
      serveAlone env w.clearBits t.request := by
    rw [serveAlone, hsent]
    exact i2cTaskRun_eq_settle (hweight ▸ hwait)
  rw [t.call_eq, i2cSendSync_of_rest hrest t.ops_ne_nil, hrun, hcplt, if_pos rfl]

/-- A call has returned `ESP_OK`, and the task is at rest again. -/
structure Returned (w : I2cWorld) (out : EspErr × I2cWorld) : Prop where
  err : out.1 = espOk
  log : w.transactions <+: out.2.transactions
  atRest : out.2.AtRest
  numbered : out.2.Numbered

/-- Such a call returns `ESP_OK` whatever the bus answers. -/
theorem TagRequest.call_returns (t : TagRequest) (hrest : w.AtRest) (hnum : w.Numbered)
    (hwait : tagSteps ≤ sched.wait) : Returned w (t.call env sched w) := by
  obtain ⟨n, res, hserved, -⟩ :=
    tagServed_serveAlone env t (w := w.clearBits) hrest hnum.clearBits
  obtain ⟨hrest', hnum', -⟩ := serveAlone_spec env (w := w.clearBits) t.ops_ne_nil
    hnum.clearBits hrest
  rw [t.call_serveAlone hrest hnum hwait]
  exact ⟨rfl, hserved.transactions ▸ List.prefix_append .., hrest', hnum'⟩

/-- One of the attempts at the next request is answered with `ESP_OK`. -/
def Answers (env : I2cEnv) (w : I2cWorld) : Prop :=
  ∃ i ≤ maxRetry, (env.bus (w.transactions.length + i)).err = espOk

/-- The call performs its request, if the bus answers: the bytes go from the memory to the device,
    or the other way, and nothing else changes in either. -/
theorem TagRequest.call_performs (t : TagRequest) (hrest : w.AtRest) (hnum : w.Numbered)
    (hwait : tagSteps ≤ sched.wait) (hvalid : t.op.Valid) (hanswers : Answers env w)
    (hhonest : Honest env landed devs (t.call env sched w).2.transactions) :
    (t.call env sched w).2.view landed devs = t.perform (w.view landed devs) := by
  rw [t.call_serveAlone hrest hnum hwait] at hhonest ⊢
  obtain ⟨n, res, hserved, hgivenUp⟩ :=
    tagServed_serveAlone env t (w := w.clearBits) hrest hnum.clearBits
  apply (hserved.view_eq hhonest).1
  -- the request is not given up, since one of its attempts succeeds
  by_cases hok : res = espOk
  · exact hok
  · obtain ⟨i, hi, hbus⟩ := hanswers
    exact absurd hbus (hgivenUp hok hvalid i hi)

/-- A call of `st25dv_write` is valid whatever its size. -/
theorem valid_st25dvWriteOp (regAddr : UInt16) (data size : Nat) :
    (st25dvWriteOp regAddr data size).Valid := by
  simp [I2cOp.Valid, st25dvWriteOp]

theorem valid_st25dvReadOp (address : UInt16) (data : Nat) {size : Nat} (h : size ≤ i2cBufSize) :
    (st25dvReadOp address data size).Valid := by
  simpa [I2cOp.Valid, st25dvReadOp] using h

/-! ## There and back -/

/-- What was stored is loaded again. -/
theorem st25dvRead_store (mem : UserMem) (address : UInt16) {bytes : List UInt8}
    (h : bytes.length ≤ 65536) :
    St25dv.st25dvRead (mem.store address bytes) address bytes.length = bytes := by
  apply List.ext_getElem
  · simp [St25dv.st25dvRead]
  · intro i hi hi'
    have hoffset : (address + UInt16.ofNat i - address).toNat = i := by
      rw [UInt16.add_comm, UInt16.add_sub_cancel]
      exact UInt16.toNat_ofNat_of_lt' (Nat.lt_of_lt_of_le hi' h)
    simp only [St25dv.st25dvRead, List.getElem_map, List.getElem_range, UserMem.store, hoffset,
      List.getElem?_eq_getElem hi', Option.getD_some]

/-- Bytes that are stored with `st25dv_write` are loaded by a later `st25dv_read` into another
    buffer, and no other byte of the memory changes. -/
theorem st25dvRead_after_write {port : Int} {st25Address : UInt8} {address : UInt16}
    {src dest size : Nat} (hsize : size ≤ i2cBufSize) {sched' : Schedule}
    {stored loaded : EspErr × I2cWorld}
    (hstore : st25dvWrite env sched port st25Address address src size w = stored)
    (hload : st25dvRead env sched' port st25Address address dest size stored.2 = loaded)
    (hrest : w.AtRest) (hnum : w.Numbered) (hwait : tagSteps ≤ sched.wait)
    (hwait' : tagSteps ≤ sched'.wait) (hanswers : Answers env w)
    (hanswers' : Answers env stored.2) (hhonest : Honest env landed devs loaded.2.transactions) :
    loaded.1 = espOk ∧ loaded.2.mem = w.mem.store dest (w.mem.load src size) := by
  let t := TagRequest.write port st25Address address src size
  let t' := TagRequest.read port st25Address address dest size
  have hstored : Returned w stored := hstore ▸ t.call_returns hrest hnum hwait
  have hloaded : Returned stored.2 loaded :=
    hload ▸ t'.call_returns hstored.atRest hstored.numbered hwait'
  have hview : stored.2.view landed devs = t.perform (w.view landed devs) := by
    have hcall : t.call env sched w = stored := hstore
    rw [← hcall]
    refine t.call_performs hrest hnum hwait (valid_st25dvWriteOp address src size) hanswers ?_
    rw [hcall]
    exact hhonest.of_prefix hloaded.log
  have hview' : loaded.2.view landed devs = t'.perform (stored.2.view landed devs) := by
    have hcall : t'.call env sched' stored.2 = loaded := hload
    rw [← hcall]
    refine t'.call_performs hstored.atRest hstored.numbered hwait'
      (valid_st25dvReadOp address dest hsize) hanswers' ?_
    rw [hcall]
    exact hhonest
  refine ⟨hloaded.err, ?_⟩
  have hmem : loaded.2.mem = _ := congrArg Prod.fst hview'
  rw [hview] at hmem
  refine hmem.trans ?_
  -- what the device holds at the address are the bytes that were stored
  have hbytes : (w.mem.load src size).length = size := Mem.length_load ..
  have hfit : (w.mem.load src size).length ≤ 65536 := by
    rw [hbytes]
    exact Nat.le_trans hsize (by decide)
  have hread := st25dvRead_store (devicesAfter landed devs w.transactions port st25Address) address
    hfit
  rw [hbytes] at hread
  simp only [t, t', TagRequest.perform, Devices.store, and_self, if_true, I2cWorld.view, hread]

/-- The answer to the store is lost, and it is tried again before the load. -/
theorem st25dvRead_after_write_deafOnce :
    let mem : Mem := fun a => if a = 64 then 0x2A else 0
    let stored := st25dvWrite deafOnce ⟨0, tagSteps⟩ 0 st25dvUserAddress 0x10 64 1 (.boot mem)
    let loaded := st25dvRead deafOnce ⟨0, tagSteps⟩ 0 st25dvUserAddress 0x10 80 1 stored.2
    stored.2.transactions.length = 2 ∧ loaded.1 = espOk ∧
      loaded.2.mem = mem.store 80 (mem.load 64 1) := by
  intro mem stored loaded
  have hlength : stored.2.transactions.length = 2 := by decide +kernel
  have hlog : loaded.2.transactions = [.write 0 st25dvUserAddress 0x10 true [0x2A],
      .write 0 st25dvUserAddress 0x10 true [0x2A],
      .read 0 st25dvUserAddress 0x10 true false 1] := by decide +kernel
  have hanswers : Answers deafOnce stored.2 := by
    refine ⟨0, Nat.zero_le _, ?_⟩
    rw [hlength]
    rfl
  have hstore : st25dvWrite deafOnce ⟨0, tagSteps⟩ 0 st25dvUserAddress 0x10 64 1 (.boot mem) =
      stored := rfl
  have hload : st25dvRead deafOnce ⟨0, tagSteps⟩ 0 st25dvUserAddress 0x10 80 1 stored.2 =
      loaded := rfl
  clear_value loaded
  clear_value stored
  exact ⟨hlength, st25dvRead_after_write (by decide) hstore hload ⟨rfl, rfl⟩ (numbered_boot mem)
    (Nat.le_refl _) (Nat.le_refl _) ⟨1, by decide, rfl⟩ hanswers (honest_deafOnce _ hlog)⟩

/-! ## The security session -/

/-- The bit that `st25dv_read_bit` finds is the one on the device. -/
theorem st25dvReadBit_eq {port : Int} {st25Address : UInt8} {address : UInt16} (bitMask : UInt8)
    {byte : Nat} (hrest : w.AtRest) (hnum : w.Numbered) (hwait : tagSteps ≤ sched.wait)
    (hanswers : Answers env w) :
    let out := st25dvReadBit env sched port st25Address address bitMask byte w
    Honest env landed devs out.2.2.transactions →
      out.1 = espOk ∧ out.2.1 =
        some
          (devicesAfter landed devs w.transactions port st25Address address &&& bitMask != 0) := by
  let t := TagRequest.read port st25Address address byte 1
  let w₀ := { w with mem := w.mem.store byte [0] }
  have hnum₀ : w₀.Numbered := ⟨hnum.waiting, hnum.works, hnum.unsent⟩
  have hreturned : Returned w₀ (t.call env sched w₀) := t.call_returns hrest hnum₀ hwait
  have hout : st25dvReadBit env sched port st25Address address bitMask byte w =
      (espOk, some ((t.call env sched w₀).2.mem byte &&& bitMask != 0),
        (t.call env sched w₀).2) := by
    have hread : st25dvReadByte env sched port st25Address address byte w₀ =
        t.call env sched w₀ := rfl
    unfold st25dvReadBit
    rw [hread]
    generalize t.call env sched w₀ = out at hreturned
    obtain ⟨err, w'⟩ := out
    obtain rfl : err = espOk := hreturned.err
    rfl
  rw [hout]
  intro out hhonest
  refine ⟨rfl, ?_⟩
  have hview : (t.call env sched w₀).2.view landed devs = t.perform (w₀.view landed devs) :=
    t.call_performs hrest hnum₀ hwait (valid_st25dvReadOp address byte (by decide)) hanswers
      hhonest
  have hmem : (t.call env sched w₀).2.mem = _ := congrArg Prod.fst hview
  have hbyte : (t.call env sched w₀).2.mem byte =
      devicesAfter landed devs w.transactions port st25Address address := by
    rw [hmem]
    simp [t, w₀, TagRequest.perform, I2cWorld.view, St25dv.st25dvRead, Mem.store]
  show some _ = some _
  rw [hbyte]

/-- `st25dv_is_session_opened` finds the bit that stands in its register. -/
theorem st25dvIsSessionOpened_eq {port : Int} {st25Address : UInt8} {byte : Nat}
    (hrest : w.AtRest) (hnum : w.Numbered) (hwait : tagSteps ≤ sched.wait)
    (hanswers : Answers env w) :
    let out := st25dvIsSessionOpened env sched port st25Address byte w
    Honest env landed devs out.2.2.transactions →
      out.1 = espOk ∧ out.2.1 =
        some (devicesAfter landed devs w.transactions port st25Address regI2cSsoDyn &&&
          bitI2cSsoDynI2cSso != 0) :=
  st25dvReadBit_eq bitI2cSsoDynI2cSso hrest hnum hwait hanswers

/-- `st25dv_open_session` shows the tag the password twice, with the command between, and nothing
    else. -/
theorem st25dvOpenSession_performs {port : Int} {st25Address : UInt8} (password : UInt64)
    {buffer : Nat} (hrest : w.AtRest) (hnum : w.Numbered) (hwait : tagSteps ≤ sched.wait)
    (hanswers : Answers env w) :
    let out := st25dvOpenSession env sched port st25Address password buffer w
    Honest env landed devs out.2.transactions →
      out.1 = espOk ∧ devicesAfter landed devs out.2.transactions =
        (devicesAfter landed devs w.transactions).store port st25Address regI2cPasswdBase
          (sessionBuffer password) := by
  let t := TagRequest.write port st25Address regI2cPasswdBase buffer 17
  let w₀ := { w with mem := w.mem.store buffer (sessionBuffer password) }
  have hnum₀ : w₀.Numbered := ⟨hnum.waiting, hnum.works, hnum.unsent⟩
  intro out hhonest
  have hreturned : Returned w₀ out := t.call_returns hrest hnum₀ hwait
  have hview : out.2.view landed devs = t.perform (w₀.view landed devs) :=
    t.call_performs hrest hnum₀ hwait (valid_st25dvWriteOp regI2cPasswdBase buffer 17) hanswers
      hhonest
  have hlength : (sessionBuffer password).length = 17 := by
    simp [sessionBuffer, Mem.length_leBytes]
  have hload : w₀.mem.load buffer 17 = sessionBuffer password := by
    rw [← hlength]
    exact Mem.load_store ..
  refine ⟨hreturned.err, ?_⟩
  have hdevs : devicesAfter landed devs out.2.transactions = _ := congrArg Prod.snd hview
  rw [hdevs]
  simp only [t, TagRequest.perform, I2cWorld.view, hload]
  rfl

end EspTesting.I2c
