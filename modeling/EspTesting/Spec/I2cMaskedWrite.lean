import EspTesting.Spec.I2cCompletion
import EspTesting.Spec.I2cSendSync

/-!
# Failures masked by a read

An attempt that writes and then reads has the result of the read, which overwrites that of the
write. `ESP_OK` in the report on an operation can be relied on exactly if the write of the
attempt that is reported did not fail (`WriteConfirmed`).

## Key results

- `reported_ok_iff`: when `ESP_OK` means that all transactions of the attempt succeeded
- `not_reported_ok_of_nack`: a sensor that does not take the request for a measurement
-/

namespace EspTesting.I2c

variable {env : I2cEnv} {bus : Nat → BusAnswer} {w : I2cWorld} {ticket : Nat}
  {req : I2cRequest} {op : I2cOp} {ops : List I2cOp} {n t : Nat} {res : EspErr}

/-- An attempt at the operation consists of a write and a read. -/
def I2cOp.WritesAndReads (op : I2cOp) : Prop :=
  (op.twoStepReading || op.writeSize != 0) = true ∧ op.readSize ≠ 0

/-- If the attempts at the operation write and read, then the write of the first of them whose
    read returns `ESP_OK` returns this too. -/
def WriteConfirmed (bus : Nat → BusAnswer) (op : I2cOp) (t : Nat) : Prop :=
  op.WritesAndReads → ∀ n ≤ maxRetry, (∀ i < n, (bus (t + 2 * i + 1)).err ≠ espOk) →
    (bus (t + 2 * n + 1)).err = espOk → (bus (t + 2 * n)).err = espOk

/-! ## One attempt -/

/-- A write and a read are two transactions. -/
theorem transactionCount_eq_two (h : op.WritesAndReads) : op.transactionCount = 2 := by
  unfold I2cOp.transactionCount
  simp [h.1, h.2]

/-- Any other operation is one transaction at most. -/
theorem transactionCount_le_one (h : ¬ op.WritesAndReads) : op.transactionCount ≤ 1 := by
  unfold I2cOp.transactionCount
  unfold I2cOp.WritesAndReads at h
  split
  · rename_i hwrite
    simp [show op.readSize = 0 by simpa [hwrite] using h]
  · split <;> omega

/-- The result of an attempt that writes and reads is that of the read. -/
theorem attemptResult_of_writesAndReads (h : op.WritesAndReads) (i : Nat) :
    attemptResult bus op (t + i * op.transactionCount) = (bus (t + 2 * i + 1)).err := by
  unfold attemptResult
  rw [transactionCount_eq_two h, if_neg (by decide)]
  congr 2
  omega

/-- The attempts that fail are those whose read fails. -/
theorem failsFor_iff (h : op.WritesAndReads) :
    FailsFor bus op t n ↔ ∀ i < n, (bus (t + 2 * i + 1)).err ≠ espOk := by
  unfold FailsFor
  simp only [attemptResult_of_writesAndReads h]

/-- A write that is followed by a read succeeds on its own. -/
theorem succeeds_iff_of_writesAndReads (h : op.WritesAndReads) :
    Succeeds bus op t ↔ (bus t).err = espOk ∧ (bus (t + 1)).err = espOk := by
  unfold Succeeds
  rw [transactionCount_eq_two h]
  constructor
  · intro hall
    exact ⟨hall 0 (by decide), hall 1 (by decide)⟩
  · intro hboth i hi
    match i, hi with
    | 0, _ => exact hboth.1
    | 1, _ => exact hboth.2

/-- The result of an attempt without a second transaction tells the truth. -/
theorem succeeds_of_attemptResult (h : ¬ op.WritesAndReads)
    (hok : attemptResult bus op t = espOk) : Succeeds bus op t := by
  have hcount := transactionCount_le_one h
  intro i hi
  have hone : op.transactionCount = 1 := by omega
  unfold attemptResult at hok
  rw [hone, if_neg (by decide)] at hok
  rwa [show t + i = t + 1 - 1 by omega]

/-! ## The report -/

/-- The report on an operation. -/
def I2cReport.of (op : I2cOp) (res : EspErr) (t n : Nat) : I2cReport :=
  ⟨op, res, t + (n + 1) * op.transactionCount⟩

/-- A report is right exactly if it says success and the last attempt succeeded. -/
theorem ok_report_iff : (I2cReport.of op res t n).Ok bus ↔
    res = espOk ∧ Succeeds bus op (t + n * op.transactionCount) := by
  unfold I2cReport.Ok I2cReport.of
  rw [show t + (n + 1) * op.transactionCount - op.transactionCount =
    t + n * op.transactionCount by rw [Nat.add_one_mul]; omega]

/-- `n` attempts fail, and the one after them is reported, with `ESP_OK` or as the last one. The
    report tells the truth exactly if the write is confirmed. -/
theorem report_ok_iff (hcount : n ≤ maxRetry) (hfails : FailsFor bus op t n)
    (hresult : attemptResult bus op (t + n * op.transactionCount) = res)
    (hlast : res = espOk ∨ n = maxRetry) :
    (res = espOk → (I2cReport.of op res t n).Ok bus) ↔ WriteConfirmed bus op t := by
  rw [ok_report_iff]
  by_cases hboth : op.WritesAndReads
  · rw [attemptResult_of_writesAndReads hboth] at hresult
    rw [failsFor_iff hboth] at hfails
    rw [succeeds_iff_of_writesAndReads hboth, transactionCount_eq_two hboth, Nat.mul_comm n 2,
      hresult]
    constructor
    · intro hreport _ m hm hbefore hread
      -- the first read with `ESP_OK` is the one of the attempt reported
      have hmn : m = n := by
        by_cases hlt : m < n
        · exact absurd hread (hfails m hlt)
        · obtain hok | hlast := hlast
          · by_cases hgt : n < m
            · exact absurd (hresult.trans hok) (hbefore n hgt)
            · omega
          · omega
      subst hmn
      exact (hreport (hresult ▸ hread)).2.1
    · intro hconfirmed hok
      exact ⟨hok, hconfirmed hboth n hcount hfails (hresult.trans hok), hok⟩
  · apply iff_of_true
    · intro hok
      exact ⟨hok, succeeds_of_attemptResult hboth (hresult.trans hok)⟩
    · intro h
      exact absurd h hboth

/-- Reports are not taken back while the task works on. -/
theorem notified_prefix_iterate (env : I2cEnv) (w : I2cWorld) (ticket n m : Nat) :
    (Loop.iterate I2cWorld.serving (i2cTaskStep env) n w).notified ticket <+:
      (Loop.iterate I2cWorld.serving (i2cTaskStep env) (n + m) w).notified ticket := by
  rw [Loop.iterate_add]
  generalize Loop.iterate I2cWorld.serving (i2cTaskStep env) n w = w'
  exact Loop.iterate_invariant (I := fun w'' => w'.notified ticket <+: w''.notified ticket)
    (fun w'' _ h => h.trans (notified_prefix_i2cTaskStep env w'' ticket)) m List.prefix_rfl

/-- The first report from `w` on is the one the task comes to first. -/
theorem first_report_unique {reports : List I2cReport} {r r' : I2cReport} {m : Nat}
    (h : reports ++ [r] <+:
      (Loop.iterate I2cWorld.serving (i2cTaskStep env) n w).notified ticket)
    (h' : reports ++ [r'] <+:
      (Loop.iterate I2cWorld.serving (i2cTaskStep env) m w).notified ticket) : r = r' := by
  have hn := h.trans (notified_prefix_iterate env w ticket n m)
  have hm := h'.trans (notified_prefix_iterate env w ticket m n)
  rw [Nat.add_comm] at hm
  have heq := (List.prefix_of_prefix_length_le hn hm (by simp)).eq_of_length (by simp)
  exact List.singleton_inj.mp (List.append_cancel_left heq)

/-- However the bus answers, the report on a valid operation has `ESP_OK` only if every
    transaction of the attempt returned it, exactly if the write is confirmed. -/
theorem reported_ok_iff (env : I2cEnv) (hvalid : op.Valid)
    (htask : w.task = .loop ticket req (op :: ops) 0 espOk) :
    (∀ n r, w.notified ticket ++ [r] <+:
        (Loop.iterate I2cWorld.serving (i2cTaskStep env) n w).notified ticket →
      r.res = espOk → r.Ok env.bus) ↔
    WriteConfirmed env.bus op w.transactions.length := by
  obtain ⟨n, datas, res, w', hattempted⟩ :=
    attempts_i2cTask env hvalid htask (Nat.zero_le maxRetry) fun _ => rfl
  obtain ⟨hcount, hfails, hresult, _, hleads, hwork, htask'⟩ := hattempted
  rw [Nat.zero_add] at hcount
  -- the operation is done or given up
  have hlast : res = espOk ∨ n = maxRetry := by
    obtain ⟨hok, _⟩ | ⟨_, hlast, _⟩ := htask'
    · exact Or.inl hok
    · exact Or.inr (by omega)
  rw [← report_ok_iff hcount hfails hresult hlast]
  obtain ⟨m, hm⟩ := hleads.iterate_eq
  have hreported : w.notified ticket ++ [I2cReport.of op res w.transactions.length n] <+:
      (Loop.iterate I2cWorld.serving (i2cTaskStep env) m w).notified ticket := by
    rw [hm, hwork.notified, if_pos rfl]
    exact List.prefix_rfl
  constructor
  · intro hall
    exact hall m _ hreported
  · intro hok n' r hr
    rw [first_report_unique hr hreported]
    exact hok

/-- On a bus without failures every report tells the truth. -/
theorem reported_ok_of_ack :
    let env : I2cEnv := ⟨fun _ => ⟨espOk, fun _ => 7⟩, fun _ _ _ _ _ mem => mem⟩
    let op : I2cOp := { regAddr := 1, readSize := 2, postDelay := 50 }
    let req : I2cRequest := ⟨0, 0x40, false, none, [op]⟩
    let w := i2cTaskStep env { I2cWorld.boot (fun _ => 0) with i2cQueue := [(0, req)] }
    ∀ n r, w.notified 0 ++ [r] <+:
        (Loop.iterate I2cWorld.serving (i2cTaskStep env) n w).notified 0 →
      r.res = espOk → r.Ok env.bus := by
  intro env op req w
  exact (reported_ok_iff env (show op.Valid by decide) rfl).mpr fun _ _ _ _ _ => rfl

/-- A humidity sensor does not acknowledge the write that starts the measurement. The bytes read
    after it are reported with `ESP_OK`. -/
theorem not_reported_ok_of_nack :
    let env : I2cEnv :=
      ⟨fun n => ⟨if n = 0 then espFail else espOk, fun _ => 7⟩, fun _ _ _ _ _ mem => mem⟩
    let op : I2cOp := { regAddr := 1, readSize := 2, postDelay := 50 }
    let req : I2cRequest := ⟨0, 0x40, false, none, [op]⟩
    let w := i2cTaskStep env { I2cWorld.boot (fun _ => 0) with i2cQueue := [(0, req)] }
    op.Valid ∧ w.task = .loop 0 req [op] 0 espOk ∧ (env.bus 0).err = espFail ∧
      ¬ ∀ n r, w.notified 0 ++ [r] <+:
          (Loop.iterate I2cWorld.serving (i2cTaskStep env) n w).notified 0 →
        r.res = espOk → r.Ok env.bus := by
  intro env op req w
  refine ⟨by decide, rfl, rfl, fun h => ?_⟩
  have hreport : (Loop.iterate I2cWorld.serving (i2cTaskStep env) 1 w).notified 0 =
      [⟨op, espOk, 2⟩] := by decide +kernel
  -- the first of the two transactions is the write
  have hok := h 1 ⟨op, espOk, 2⟩ (hreport ▸ List.prefix_rfl) rfl
  exact absurd (hok.2 0 (by decide)) (by decide)

end EspTesting.I2c
