import EspTesting.ForStd.Machine
import EspTesting.Native.WifiService

/-!
# The status bits of the station

`BIT_WIFI_STA_CONNECTED` should stand for a link with an address, and never beside
`BIT_WIFI_STA_CONN_FAIL` (`Truthful`). A disconnect clears the bit only if no attempt to
connect is left, and nothing clears the other one: the bits are truthful along exactly the
runs in which no event finds them in such a state (`StepTruthful`).

## Key results

- `truthful_wifiStep_iff`: the steps that leave truthful bits truthful
- `wifi_truthful_iff`
-/

namespace EspTesting.Wifi

/-- An event or a call that decides if the station has a link. -/
def WifiAction.link : WifiAction → Bool
  | .event (.gotIp _) | .event (.wifi .staDisconnected) | .event (.wifi .staStop) | .off _ => true
  | _ => false

/-- The event is a got-IP event. -/
def WifiAction.isGotIp : WifiAction → Bool
  | .event (.gotIp _) => true
  | _ => false

/-- The most recent event or call that decided about the link was a got-IP event. -/
def linkUp (past : List WifiAction) : Bool :=
  ((past.filter WifiAction.link).getLast?.map WifiAction.isGotIp).getD false

/-- `BIT_WIFI_STA_CONNECTED` is set. -/
abbrev WifiState.connected (s : WifiState) : Bool := deviceHasBits s.bits bitWifiStaConnected

/-- `BIT_WIFI_STA_CONN_FAIL` is set. -/
abbrev WifiState.connFail (s : WifiState) : Bool := deviceHasBits s.bits bitWifiStaConnFail

/-- No attempt to connect is left after a disconnect. -/
def WifiState.givesUp (s : WifiState) : Bool :=
  deviceHasBits s.bits bitWifiAutoConn && decide (wifiMaxRetry ≤ s.reconnectionCtrl)

/-- The bits are true of the events and calls so far. -/
structure Truthful (past : List WifiAction) (s : WifiState) : Prop where
  link : s.connected = true → linkUp past = true
  apart : ¬(s.connected = true ∧ s.connFail = true)

/-- The event or call finds the bits in a state where they stay truthful: a disconnect finds
    the station not connected, or no attempt left; a got-IP event finds no failure recorded. -/
def StepTruthful (s : WifiState) : WifiAction → Prop
  | .event (.wifi .staDisconnected) => s.connected = true → s.givesUp = true
  | .event (.gotIp _) => s.connFail = false
  | _ => True

variable {past : List WifiAction} {s : WifiState}

theorem linkUp_append (past : List WifiAction) (a : WifiAction) :
    linkUp (past ++ [a]) = if a.link then a.isGotIp else linkUp past := by
  unfold linkUp
  rw [List.filter_append]
  cases h : a.link with
  | true => simp [h]
  | false => simp [h]

/-! ## The two bits after a step -/

@[simp] theorem deviceHasBits_setBits (bits : EventBits) {i j : Nat} (hi : i < 32) :
    deviceHasBits (deviceSetBits bits (Flags.bit 32 j)) (Flags.bit 32 i) =
      (deviceHasBits bits (Flags.bit 32 i) || decide (i = j)) := by
  unfold deviceHasBits deviceSetBits
  rw [Flags.any_set hi, Flags.any_bit hi, Flags.any_bit hi, Flags.getLsbD_bit hi]

@[simp] theorem deviceHasBits_clearBits (bits : EventBits) {i j : Nat} (hi : i < 32) :
    deviceHasBits (deviceClearBits bits (Flags.bit 32 j)) (Flags.bit 32 i) =
      (deviceHasBits bits (Flags.bit 32 i) && !decide (i = j)) := by
  unfold deviceHasBits deviceClearBits
  rw [Flags.any_clear hi, Flags.any_bit hi, Flags.any_bit hi, Flags.getLsbD_bit hi]

@[simp] theorem deviceHasBits_clearBits_two (bits : EventBits) {i j k : Nat} (hi : i < 32) :
    deviceHasBits (deviceClearBits bits (Flags.bit 32 j ||| Flags.bit 32 k)) (Flags.bit 32 i) =
      (deviceHasBits bits (Flags.bit 32 i) && !(decide (i = j) || decide (i = k))) := by
  unfold deviceHasBits deviceClearBits
  rw [Flags.any_clear hi, Flags.any_bit hi, Flags.any_bit hi, BitVec.getLsbD_or,
    Flags.getLsbD_bit hi, Flags.getLsbD_bit hi]

theorem wifiEventHandler_staDisconnected (s : WifiState) :
    (wifiEventHandler s (.wifi .staDisconnected)).bits =
      if s.givesUp then
        deviceSetBits (deviceClearBits s.bits bitWifiStaConnected) bitWifiStaConnFail
      else s.bits := by
  have hgives : s.givesUp = (deviceHasBits s.bits bitWifiAutoConn &&
      decide (wifiMaxRetry ≤ s.reconnectionCtrl)) := rfl
  simp only [wifiEventHandler]
  -- with the bit of automatic connection: attempts are left, or none
  split
  · rename_i hauto
    rw [hauto, Bool.true_and] at hgives
    split
    · rename_i hleft
      rw [if_neg (by rw [hgives, decide_eq_false (by omega)]; exact Bool.false_ne_true)]
    · rename_i hnone
      rw [if_pos (by rw [hgives, decide_eq_true (by omega)])]
  · rename_i hauto
    rw [Bool.not_eq_true] at hauto
    rw [hauto, Bool.false_and] at hgives
    rw [if_neg (by rw [hgives]; exact Bool.false_ne_true)]

/-- What a step does with the bits. -/
theorem bits_wifiStep (s : WifiState) (a : WifiAction) : (wifiStep s a).bits =
    match a with
    | .event (.wifi .staDisconnected) =>
      if s.givesUp then
        deviceSetBits (deviceClearBits s.bits bitWifiStaConnected) bitWifiStaConnFail
      else s.bits
    | .event (.wifi .apStart) => deviceSetBits s.bits bitWifiApStart
    | .event (.wifi .apStaConnected) => deviceSetBits s.bits bitWifiConnected
    | .event (.wifi .apStaDisconnected) => deviceClearBits s.bits bitWifiConnected
    | .event (.wifi .staStop) | .off _ =>
      deviceClearBits s.bits (bitWifiStaConnected ||| bitWifiAutoConn)
    | .event (.gotIp _) => deviceSetBits s.bits bitWifiStaConnected
    | .on _ => deviceSetBits s.bits bitWifiAutoConn
    | _ => s.bits := by
  cases a with
  | event e =>
    cases e with
    | wifi eventId =>
      cases eventId with
      | staDisconnected => exact wifiEventHandler_staDisconnected s
      | staStart =>
        simp only [wifiStep, wifiEventHandler]
        split <;> rfl
      | _ => rfl
    | _ => rfl
  | on err => rfl
  | off err => rfl

/-- `BIT_WIFI_STA_CONNECTED` after a step. -/
theorem connected_wifiStep (s : WifiState) (a : WifiAction) : (wifiStep s a).connected =
    match a with
    | .event (.gotIp _) => true
    | .event (.wifi .staStop) | .off _ => false
    | .event (.wifi .staDisconnected) => s.connected && !s.givesUp
    | _ => s.connected := by
  show deviceHasBits (wifiStep s a).bits bitWifiStaConnected = _
  rw [bits_wifiStep]
  split
  · cases s.givesUp with
    | true => simp
    | false => simp
  all_goals simp

/-- `BIT_WIFI_STA_CONN_FAIL` after a step: nothing clears it. -/
theorem connFail_wifiStep (s : WifiState) (a : WifiAction) : (wifiStep s a).connFail =
    match a with
    | .event (.wifi .staDisconnected) => s.connFail || s.givesUp
    | _ => s.connFail := by
  show deviceHasBits (wifiStep s a).bits bitWifiStaConnFail = _
  rw [bits_wifiStep]
  split
  · cases s.givesUp with
    | true => simp
    | false => simp
  all_goals simp

/-! ## Truthful runs -/

/-- A step that moves neither the link nor the two bits. -/
theorem Truthful.congr {past' : List WifiAction} {s' : WifiState} (h : Truthful past s)
    (hlink : linkUp past' = linkUp past) (hconn : s'.connected = s.connected)
    (hfail : s'.connFail = s.connFail) : Truthful past' s' := by
  constructor
  · rw [hlink, hconn]
    exact h.link
  · rw [hconn, hfail]
    exact h.apart

/-- Where the bit of the link is clear, both bits are truthful. -/
theorem truthful_of_not_connected (h : s.connected = false) : Truthful past s := by
  constructor
  · intro hset
    exact absurd (hset.symm.trans h) Bool.noConfusion
  · rintro ⟨hset, _⟩
    exact absurd (hset.symm.trans h) Bool.noConfusion

/-- A disconnect leaves truthful bits only if it clears the bit of the link. -/
theorem truthful_staDisconnected_iff (past : List WifiAction) (s : WifiState) :
    Truthful (past ++ [.event (.wifi .staDisconnected)])
        (wifiStep s (.event (.wifi .staDisconnected))) ↔
      (s.connected = true → s.givesUp = true) := by
  have hconn := connected_wifiStep s (.event (.wifi .staDisconnected))
  constructor
  · intro h hset
    cases hgives : s.givesUp with
    | true => rfl
    | false =>
      -- the bit stays, and the most recent event is the disconnect
      have hup := h.link (by rw [hconn, hset, hgives]; rfl)
      rw [linkUp_append] at hup
      exact hup
  · intro hgives
    apply truthful_of_not_connected
    rw [hconn]
    cases hset : s.connected with
    | true => rw [hgives hset]; rfl
    | false => rfl

/-- An address leaves truthful bits only if no failure is recorded. -/
theorem truthful_gotIp_iff (past : List WifiAction) (s : WifiState) (ipInfo : NetifIpInfo) :
    Truthful (past ++ [.event (.gotIp ipInfo)]) (wifiStep s (.event (.gotIp ipInfo))) ↔
      s.connFail = false := by
  have hconn := connected_wifiStep s (.event (.gotIp ipInfo))
  have hfail := connFail_wifiStep s (.event (.gotIp ipInfo))
  constructor
  · intro h
    have hapart := h.apart
    rw [hconn, hfail] at hapart
    exact Bool.eq_false_iff.mpr fun hset => hapart ⟨rfl, hset⟩
  · -- the link is up now
    intro hnone
    constructor
    · intro _
      exact linkUp_append past (.event (.gotIp ipInfo))
    · rw [hfail, hnone]
      exact fun hboth => Bool.false_ne_true hboth.2

/-- The steps that leave truthful bits truthful. -/
theorem truthful_wifiStep_iff (past : List WifiAction) (s : WifiState) (a : WifiAction)
    (h : Truthful past s) : Truthful (past ++ [a]) (wifiStep s a) ↔ StepTruthful s a := by
  have hlink := linkUp_append past a
  have hconn := connected_wifiStep s a
  have hfail := connFail_wifiStep s a
  -- only two events can break the truth
  cases a with
  | event e =>
    cases e with
    | wifi eventId =>
      cases eventId with
      | staDisconnected => exact truthful_staDisconnected_iff past s
      | staStop => exact iff_of_true (truthful_of_not_connected hconn) trivial
      | _ => exact iff_of_true (h.congr hlink hconn hfail) trivial
    | gotIp ipInfo => exact truthful_gotIp_iff past s ipInfo
    | otherIp eventId => exact iff_of_true (h.congr hlink hconn hfail) trivial
    | otherBase => exact iff_of_true (h.congr hlink hconn hfail) trivial
  | on err => exact iff_of_true (h.congr hlink hconn hfail) trivial
  | off err => exact iff_of_true (truthful_of_not_connected hconn) trivial

/-- From a start without a link, the bits are truthful at every point of exactly the runs
    in which no disconnect finds the station connected while an attempt to connect is left or
    none is made, and no got-IP event finds a failure recorded. -/
theorem wifi_truthful_iff (bits : EventBits) (userCtx : Option DevIpInfo)
    (hconn : deviceHasBits bits bitWifiStaConnected = false)
    (actions : List WifiAction) :
    (∀ past, past <+: actions →
      Truthful past (Machine.run wifiStep (.boot bits userCtx) past)) ↔
      Machine.Meets wifiStep StepTruthful (.boot bits userCtx) actions := by
  apply Machine.forall_prefix_iff_meets truthful_wifiStep_iff
  exact truthful_of_not_connected hconn

/-- The first address of a station that was never disconnected. -/
theorem wifi_truthful_iff_gotIp :
    Truthful [.on espOk, .event (.wifi .staStart), .event (.gotIp ⟨0, 0, 0⟩)]
      (Machine.run wifiStep (.boot 0 none)
        [.on espOk, .event (.wifi .staStart), .event (.gotIp ⟨0, 0, 0⟩)]) :=
  (wifi_truthful_iff 0 none (by decide)
      [.on espOk, .event (.wifi .staStart), .event (.gotIp ⟨0, 0, 0⟩)]).mpr
    ⟨trivial, trivial, show (WifiState.connFail _) = false by decide +kernel, trivial⟩ _
    List.prefix_rfl

/-- A station that loses its link and tries to connect again is still reported as connected. -/
theorem wifi_not_truthful :
    ¬Truthful [.on espOk, .event (.gotIp ⟨0, 0, 0⟩), .event (.wifi .staDisconnected)]
      (Machine.run wifiStep (.boot 0 none)
        [.on espOk, .event (.gotIp ⟨0, 0, 0⟩), .event (.wifi .staDisconnected)]) := by
  intro h
  exact absurd (h.link (by decide)) (by decide)

end EspTesting.Wifi
