import EspTesting.ForStd.FiniteLoop
import EspTesting.Native.St25dvNdef
import Mathlib.Data.Finite.Prod

/-!
# When reading NDEF records ends

The record loop of `st25dv_ndef_read` follows a chain through the tag: each record's length
names the address of the next one, modulo 2^16. Nothing else it keeps has an influence on
where it goes. So it ends exactly if this chain does not run into a cycle, and it ends if
no record runs past the end of the address space.
-/

namespace EspTesting.St25dv

/-- The address behind the record at `address`. -/
def recordEnd (tag : UserMem) (address : UInt16) : UInt16 :=
  let (typeLength, payloadLength, behind) := ndefHeader tag address
  behind + (typeLength.toUInt16 + payloadLength)

/-- The record at `a` lies in the area the loop covers and is followed by one at `b`: it
    ends there, and no terminator stands at `b`. -/
def Follows (tag : UserMem) (enda1 : UInt8) (a b : UInt16) : Prop :=
  ndefInArea tag enda1 a = true ∧ recordEnd tag a = b ∧ tag b ≠ st25dvType5TerminatorTlv

/-- The chain of records that starts at `a` runs into a cycle. -/
def ChainCycles (tag : UserMem) (enda1 : UInt8) (a : UInt16) : Prop :=
  ∃ b, Relation.ReflTransGen (Follows tag enda1) a b ∧ Relation.TransGen (Follows tag enda1) b b

variable {tag : UserMem} {enda1 recordNum : UInt8}

/-! ## The loop as a walk over addresses -/

/-- The part of the loop's state that decides where it goes. -/
abbrev Place := UInt16 × Bool

/-- The condition of the walk. -/
def walkCond (tag : UserMem) (enda1 : UInt8) (p : Place) : Bool :=
  !p.2 && ndefInArea tag enda1 p.1

/-- One step of the walk. -/
def walkStep (tag : UserMem) (p : Place) : Place :=
  (recordEnd tag p.1, tag (recordEnd tag p.1) = st25dvType5TerminatorTlv)

/-- Whether or not the record is copied out, the address goes on by its length. -/
theorem address_ndefReadRecord (s : NdefRead) :
    (ndefReadRecord tag recordNum s).address = recordEnd tag s.address := by
  unfold ndefReadRecord recordEnd
  generalize ndefHeader tag s.address = header
  obtain ⟨typeLength, payloadLength, behind⟩ := header
  by_cases hcopy : s.recordCount + 1 = recordNum
  · simp only [hcopy, if_true]
    rw [UInt16.add_assoc]
  · simp only [hcopy, if_false]

theorem returned_ndefReadRecord (s : NdefRead) :
    (ndefReadRecord tag recordNum s).returned =
      decide (tag (ndefReadRecord tag recordNum s).address = st25dvType5TerminatorTlv) := rfl

/-- The loop ends exactly if the walk does. -/
theorem terminates_iff_walk (s : NdefRead) :
    Loop.Terminates (ndefCond tag enda1) (ndefReadRecord tag recordNum) s ↔
      Loop.Terminates (walkCond tag enda1) (walkStep tag) (s.address, s.returned) := by
  refine @Loop.terminates_map _ _ (ndefCond tag enda1) (ndefReadRecord tag recordNum)
    (walkCond tag enda1) (walkStep tag) (fun s => (s.address, s.returned)) (fun _ => rfl)
    (fun s => ?_) s
  simp only [returned_ndefReadRecord, address_ndefReadRecord, walkStep]

/-! ## The walk as a chain of records -/

/-- A step between places that have not met a terminator is a step of the chain. -/
private theorem follows_of_step {p q : Place}
    (h : Loop.Step (walkCond tag enda1) (walkStep tag) p q) (hq : q.2 = false) :
    Follows tag enda1 p.1 q.1 := by
  obtain ⟨hcond, rfl⟩ := h
  simp only [walkCond, Bool.and_eq_true] at hcond
  exact ⟨hcond.2, rfl, of_decide_eq_false hq⟩

/-- A place that takes a step has not met a terminator. -/
private theorem not_returned_of_step {p q : Place}
    (h : Loop.Step (walkCond tag enda1) (walkStep tag) p q) : p.2 = false := by
  have hcond := h.1
  simp only [walkCond, Bool.and_eq_true, Bool.not_eq_true'] at hcond
  exact hcond.1

private theorem step_of_follows {a b : UInt16} (h : Follows tag enda1 a b) :
    Loop.Step (walkCond tag enda1) (walkStep tag) (a, false) (b, false) := by
  obtain ⟨hin, rfl, hend⟩ := h
  refine ⟨?_, ?_⟩
  · simp only [walkCond, hin, Bool.not_false, Bool.and_self]
  · simp only [walkStep, hend, decide_false]

private theorem reaches_of_steps {p q : Place}
    (h : Relation.ReflTransGen (Loop.Step (walkCond tag enda1) (walkStep tag)) p q)
    (hq : q.2 = false) : Relation.ReflTransGen (Follows tag enda1) p.1 q.1 := by
  induction h with
  | refl => exact .refl
  | tail _ hstep ih => exact (ih (not_returned_of_step hstep)).tail (follows_of_step hstep hq)

/-- The walk ends exactly if the chain of records does not cycle. -/
theorem terminates_walk_iff (a : UInt16) :
    Loop.Terminates (walkCond tag enda1) (walkStep tag) (a, false) ↔
      ¬ ChainCycles tag enda1 a := by
  have hfinite : Finite UInt16 := Finite.of_injective UInt16.toFin fun _ _ h =>
    UInt16.toFin_inj.mp h
  rw [Loop.terminates_iff]
  refine not_congr ⟨?_, ?_⟩
  · rintro ⟨p, hreach, hcycle⟩
    obtain ⟨q, hstep, hback⟩ := Relation.TransGen.head'_iff.mp hcycle
    have hp := not_returned_of_step hstep
    -- the cycle passes through the state behind its first step
    have hq : q.2 = false := by
      cases hback using Relation.ReflTransGen.head_induction_on with
      | refl => exact hp
      | head hstep' _ => exact not_returned_of_step hstep'
    exact ⟨p.1, reaches_of_steps hreach hp,
      .head' (follows_of_step hstep hq) (reaches_of_steps hback hp)⟩
  · rintro ⟨b, hreach, hcycle⟩
    exact ⟨(b, false), hreach.lift (fun a => (a, false)) fun _ _ => step_of_follows,
      hcycle.lift (fun a => (a, false)) fun _ _ => step_of_follows⟩

/-- `st25dv_ndef_read` ends on a tag exactly if the tag holds no message or the chain of
    its records, from the first one on, does not run into a cycle. -/
theorem ndefRead_terminates_iff (tag : UserMem) (enda1 recordNum : UInt8) :
    (ndefIsMessage tag = true →
      Loop.Terminates (ndefCond tag enda1) (ndefReadRecord tag recordNum) (ndefStart tag)) ↔
    ndefIsMessage tag = false ∨ ¬ ChainCycles tag enda1 (ndefTlv tag).2 := by
  rw [terminates_iff_walk]
  show (_ → Loop.Terminates (walkCond tag enda1) (walkStep tag) ((ndefTlv tag).2, false)) ↔ _
  rw [terminates_walk_iff]
  -- without a message the loop is not reached
  cases ndefIsMessage tag with
  | false => simp only [Bool.false_eq_true, false_implies, true_or]
  | true => simp only [forall_const, Bool.true_eq_false, false_or]

/-! ## A sufficient condition and a tag without end -/

/-- If no record runs past the end of the address space, the chain has no cycle. -/
theorem not_chainCycles_of_no_wrap
    (h : ∀ a, ndefInArea tag enda1 a = true → a < recordEnd tag a) (a : UInt16) :
    ¬ ChainCycles tag enda1 a := by
  rintro ⟨b, _, hcycle⟩
  -- addresses go up along the chain
  have hlt : ∀ c, Relation.TransGen (Follows tag enda1) b c → b < c := by
    intro c hc
    induction hc with
    | single hstep => exact hstep.2.1 ▸ h _ hstep.1
    | tail _ hstep ih => exact UInt16.lt_trans ih (hstep.2.1 ▸ h _ hstep.1)
  exact UInt16.lt_irrefl b (hlt b hcycle)

/-- A tag whose message claims 65535 bytes and holds no terminator. -/
def endlessTag : UserMem := fun a =>
  if a = 8 then 0x03 else if a = 9 ∨ a = 10 ∨ a = 11 then 0xFF else 0

/-- On that tag the record loop never ends. -/
theorem not_terminates_endlessTag :
    ¬ (ndefIsMessage endlessTag = true → Loop.Terminates (ndefCond endlessTag 0)
      (ndefReadRecord endlessTag 1) (ndefStart endlessTag)) := by
  intro h
  obtain ⟨n, s, hexit⟩ := h (by decide)
  -- no byte is a terminator, and every address lies in front of the end of the message
  have hrun : s.returned = false := by
    refine hexit.invariant (I := fun s => s.returned = false) (fun s _ _ => ?_) rfl
    rw [returned_ndefReadRecord]
    simp only [endlessTag]
    repeat' split
    all_goals decide
  have hcond := hexit.cond_eq_false
  have haddr := s.address.toNat_lt
  have hlen : (ndefTlv endlessTag).1 = 0xFFFF := by decide
  simp only [ndefCond, ndefInArea, hrun, hlen, Bool.not_false, Bool.true_and,
    Bool.or_eq_false_iff, decide_eq_false_iff_not] at hcond
  have hbound : ccfileLength.toNat + UInt16.toNat 0xFFFF + 3 = 65546 := by decide
  exact hcond.2 (by omega)

end EspTesting.St25dv
