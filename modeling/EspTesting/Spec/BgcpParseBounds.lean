import EspTesting.Spec.BgcpParamMap
import EspTesting.Spec.BgcpValidity

/-!
# Bounds of the parser

On any message, with any table of bound parameters: the parser loop ends, no byte outside
the message is read, and a built-in update handler writes inside the variable that is bound
to its parameter's number at the time. A variable that was bound to the number before, but
no longer is, does not count.

## Key results

- `writes_parse`: the writes that the handlers log
- `mem_parse`: the memory itself, byte by byte
- `parse_bounds`
-/

namespace EspTesting.Bgcp

/-- A logged write stays inside the variable a call bound. -/
def BindCall.Covers (c : BindCall) (w : WriteEvent) : Prop :=
  w.paramNum = c.num ∧ ∃ a, c.linkedData = some a ∧ a ≤ w.dest ∧ w.dest + w.len ≤ a + c.size

/-- The byte at `x` belongs to the variable a call bound. -/
def BindCall.Holds (c : BindCall) (x : Nat) : Prop :=
  ∃ a, c.linkedData = some a ∧ a ≤ x ∧ x < a + c.size

/-- A perform step writes to the variable in force for its number only. -/
theorem World.mem_apply {H : Handlers} {binds : List BindCall} {x : Nat} (hleave : H.Leave x 1)
    {ev : PerformEvent} (hx : ∀ c, lastBound binds ev.paramNum = some c → ¬ c.Holds x)
    (w : World) : (w.apply H (buildTable binds) ev).mem x = w.mem x := by
  simp only [World.apply]
  cases hi : getParam (buildTable binds) ev.paramNum with
  | none =>
    dsimp only
    split
    · rfl
    · rfl
  | some i =>
    cases ev.block with
    | refused => rfl
    | notSupported => rfl
    | data bytes =>
      -- the variable of the slot is none, or the one in force
      have hapart : ∀ a, ((buildTable binds).get i).linkedData = some a →
          Mem.Apart a ((buildTable binds).get i).size x 1 := by
        intro a ha
        rcases get_of_getParam binds hi with hslot | ⟨c, hc, hslot⟩
        · rw [hslot] at ha
          cases ha
        · rw [hslot] at ha ⊢
          have hout := hx c hc
          have hsize := c.size_param_le
          by_cases hlo : a ≤ x
          · left
            have hhi : ¬ x < a + c.size := fun hhi => hout ⟨a, ha, hlo, hhi⟩
            omega
          · right
            omega
      have hload : (w.process H ((buildTable binds).get i) (inputOf ev.funcNum bytes)
          ev.funcNum).mem.load x 1 = w.mem.load x 1 :=
        World.load_process hleave (fits_buildTable binds i) hapart ev.funcNum
      rw [Mem.load_one, Mem.load_one] at hload
      exact List.head_eq_of_cons_eq hload

namespace BgcpState

theorem exits_parse (H : Handlers) (msg : List UInt8) {s : BgcpState}
    (h : (s.beginParse msg).1 = true) :
    ∃ n, n < msg.length ∧
      Loop.Exits parseCond (parseStep H msg) n (s.loopStart msg) (parse H msg s) := by
  cases msg with
  | nil => cases h
  | cons func rest =>
    obtain ⟨n, hn, hexit⟩ := (parse_tracks H func rest s h).1
    exact ⟨n, Nat.lt_succ_of_le hn, hexit⟩

/-- Neither a rejected message nor the loop reads outside the message. -/
theorem reads_parse (H : Handlers) (msg : List UInt8) (s : BgcpState) :
    ∀ r ∈ (parse H msg s).parser.log.reads, r < msg.length := by
  cases msg with
  | nil => exact fun _ h => absurd h List.not_mem_nil
  | cons func rest =>
    by_cases hvalid : isValidFunc func = true
    · exact (parse_tracks H func rest s hvalid).2.reads
    · -- a message that is rejected has only its first byte read
      intro r hr
      simp only [parse, beginParse_cons, hvalid] at hr
      rw [List.mem_singleton.mp hr]
      exact Nat.zero_lt_succ _

/-- Every write that a handler logs is inside the variable in force for its parameter. -/
theorem writes_parse (H : Handlers) (msg : List UInt8) {s : BgcpState} {binds : List BindCall}
    (h : s.paramList = buildTable binds) :
    ∀ w ∈ (parse H msg s).parser.log.writes,
      ∃ c, lastBound binds w.paramNum = some c ∧ c.Covers w := by
  intro w hw
  cases msg with
  | nil => cases hw
  | cons func rest =>
    by_cases hvalid : isValidFunc func = true
    · have htracks := (parse_tracks H func rest s hvalid).2
      rw [h] at htracks
      obtain ⟨num, i, hi, hnum, a, hlinked, hlo, hhi⟩ :=
        htracks.writes (fits_buildTable binds) w hw
      -- the slot was found under the number of the write
      have hkey := paramNum_of_getParam hi
      have hwrite : w.paramNum = num := hnum.trans hkey
      rcases get_of_getParam binds hi with hslot | ⟨c, hc, hslot⟩
      · rw [hslot] at hlinked
        cases hlinked
      · rw [hslot] at hnum hlinked hhi
        have hcover : w.dest + w.len ≤ a + c.size :=
          Nat.le_trans hhi (Nat.add_le_add_left c.size_param_le a)
        exact ⟨c, hwrite ▸ hc, hnum, a, hlinked, hlo, hcover⟩
    · simp only [parse, beginParse_cons, hvalid] at hw
      cases hw

/-- A message changes no byte outside the variables in force for the numbers it performs, if
    the application's own handlers do not. -/
theorem mem_parse (H : Handlers) (msg : List UInt8) {s : BgcpState} {binds : List BindCall}
    (h : s.paramList = buildTable binds) {x : Nat} (hleave : H.Leave x 1)
    (hx : ∀ ev ∈ (parse H msg s).parser.log.performs, ∀ c,
      lastBound binds ev.paramNum = some c → ¬ c.Holds x) :
    (parse H msg s).mem x = s.mem x := by
  show (parse H msg s).world.mem x = s.mem x
  rw [performs_parse] at hx
  rw [world_parse, h]
  split
  · -- induction on the perform steps, from any world
    generalize decode msg = evs at hx
    have hrun : ∀ w : World, (w.applyAll H (buildTable binds) evs).mem x = w.mem x := by
      induction evs with
      | nil => exact fun _ => rfl
      | cons ev evs ih =>
        intro w
        have hstep := World.mem_apply hleave (hx ev List.mem_cons_self) w
        have hrest := ih (fun e he => hx e (List.mem_cons_of_mem _ he))
          (w.apply H (buildTable binds) ev)
        exact hrest.trans hstep
    exact hrun _
  · rfl

/-- On any message and any table built by bind calls, the loop of `parse` ends within as
    many iterations as the message has bytes, every byte read lies in the message, every
    write of a built-in handler lies in the variable in force for the parameter it handles,
    and no byte of memory changes outside the variables of the parameters performed. -/
theorem parse_bounds (H : Handlers) (msg : List UInt8) (binds : List BindCall)
    (parser : ParserData) (rq : BGCPQueue) (mem : Mem) :
    let s : BgcpState := ⟨parser, rq, buildTable binds, mem⟩
    ((s.beginParse msg).1 = true → ∃ n, n < msg.length ∧
      Loop.Exits parseCond (parseStep H msg) n (s.loopStart msg) (parse H msg s)) ∧
    (∀ r ∈ (parse H msg s).parser.log.reads, r < msg.length) ∧
    (∀ w ∈ (parse H msg s).parser.log.writes,
      ∃ c, lastBound binds w.paramNum = some c ∧ c.Covers w) ∧
    ∀ x, H.Leave x 1 →
      (∀ ev ∈ (parse H msg s).parser.log.performs, ∀ c,
        lastBound binds ev.paramNum = some c → ¬ c.Holds x) →
      (parse H msg s).mem x = mem x :=
  ⟨exits_parse H msg, reads_parse H msg _, writes_parse H msg rfl,
    fun _ hleave hx => mem_parse H msg rfl hleave hx⟩

/-- Parameter 5 was bound to two bytes, then anew to the first of them: the second one is
    left alone by a write of two bytes. -/
theorem parse_bounds_rebound :
    let binds : List BindCall := [.binary 5 (some 40) 2, .binary 5 (some 40) 1]
    (parse (fun _ _ m => (m, [])) [bgcpFuncW, bgcpCmdSize, 2, 5, 7, 8]
      ⟨.zero, .zero, buildTable binds, fun _ => 0⟩).mem 41 = 0 := by
  intro binds
  refine (parse_bounds _ _ binds .zero .zero (fun _ => 0)).2.2.2 41 (fun _ _ _ => rfl) ?_
  rw [performs_parse]
  intro ev hev c hc
  have hevs : decode [bgcpFuncW, bgcpCmdSize, 2, 5, 7, 8] =
      [⟨bgcpFuncW, 5, .data [7, 8]⟩] := by decide +kernel
  rw [hevs, List.mem_singleton] at hev
  subst hev
  have hlast : lastBound binds 5 = some (.binary 5 (some 40) 1) := by decide +kernel
  obtain rfl := Option.some.inj (hlast.symm.trans hc)
  rintro ⟨a, ha, -, hhi⟩
  obtain rfl := Option.some.inj ha
  exact absurd hhi (by decide)

end BgcpState

end EspTesting.Bgcp
