import EspTesting.Native.WifiMode

/-!
# The record of the Wi-Fi mode

`wifi_set_mode` changes the mode of the driver first and its own record of it last. In between,
a configuration that is refused ends the function, with the driver in the new mode and the
record on the old one. What the start of the radio and the setting of the addresses return is
ignored, so the function also reports success where one of these failed.

## Key results

- `changeMode_of_taken`: what was done if the configurations are taken
- `changeMode_of_refused`: what is left behind if one is refused
- `wifiSetMode_keepsRecord_iff`
-/

namespace EspTesting.Wifi

variable {r : DriverResults} {s s' s'' : WifiService} {c : DriverCall} {newMode : DevWifiMode}
  {staCfg : WifiStaConfig} {apCfg : WifiApConfig}

/-! ## Calls of the driver -/

/-- The call, if it succeeds. -/
def DriverResults.taken (r : DriverResults) (c : DriverCall) : List DriverCall :=
  if r.err c = espOk then [c] else []

/-- The driver took a call exactly if it was made and answered with `ESP_OK`. -/
@[simp] theorem mem_taken {c' : DriverCall} : c' ∈ r.taken c ↔ c' = c ∧ r.err c = espOk := by
  unfold DriverResults.taken
  split <;> simp [*]

/-- Between the two states, the calls `added` succeeded, and neither the settings nor the mode
    of the driver changed. -/
structure Extends (s s' : WifiService) (added : List DriverCall) : Prop where
  conf : s'.conf = s.conf
  mode : s'.mode = s.mode
  done : s'.done = s.done ++ added

/-- Nothing is done. -/
theorem Extends.refl (s : WifiService) : Extends s s [] :=
  ⟨rfl, rfl, (List.append_nil _).symm⟩

/-- Two stretches of calls one behind the other. -/
theorem Extends.trans {as bs : List DriverCall} (h : Extends s s' as) (h' : Extends s' s'' bs) :
    Extends s s'' (as ++ bs) where
  conf := h'.conf.trans h.conf
  mode := h'.mode.trans h.mode
  done := by rw [h'.done, h.done, List.append_assoc]

/-- The call succeeded. -/
def WifiService.add (s : WifiService) (c : DriverCall) : WifiService :=
  { s with done := s.done ++ [c] }

/-- One call the driver took. -/
theorem extends_add (s : WifiService) (c : DriverCall) : Extends s (s.add c) [c] := ⟨rfl, rfl, rfl⟩

/-- A call that the driver takes, if it is no change of the mode. -/
theorem call_of_ok (h : r.err c = espOk) (hc : ∀ mode, c ≠ .setMode mode) (s : WifiService) :
    s.call r c = (true, s.add c) := by
  unfold WifiService.call WifiService.add
  rw [if_pos h]
  cases c with
  | setMode mode => exact absurd rfl (hc mode)
  | _ => rfl

/-- A call that the driver refuses. -/
theorem call_of_not_ok (h : r.err c ≠ espOk) (s : WifiService) : s.call r c = (false, s) :=
  if_neg h

/-- A call succeeds exactly if the driver takes it. -/
theorem fst_call : (s.call r c).1 = true ↔ r.err c = espOk := by
  unfold WifiService.call
  split <;> simp [*]

/-- A call adds itself, if it is taken. -/
theorem extends_call (hc : ∀ mode, c ≠ .setMode mode) (s : WifiService) :
    Extends s (s.call r c).2 (r.taken c) := by
  unfold DriverResults.taken
  by_cases h : r.err c = espOk
  · rw [call_of_ok h hc, if_pos h]
    exact extends_add s c
  · rw [call_of_not_ok h, if_neg h]
    exact Extends.refl s

/-! ## Calls one after another -/

/-- The call succeeds. -/
def DriverResults.ok (r : DriverResults) (c : DriverCall) : Bool := r.err c = espOk

/-- The calls one after another, up to one that fails. -/
def callAll (r : DriverResults) : WifiService → List DriverCall → Bool × WifiService
  | s, [] => (true, s)
  | s, c :: cs =>
    let (ok, s) := s.call r c
    if !ok then (false, s) else callAll r s cs

/-- Calls in order add those in front of the first one that is refused. -/
theorem extends_callAll {cs : List DriverCall} (hcs : ∀ c ∈ cs, ∀ mode, c ≠ .setMode mode)
    (s : WifiService) : Extends s (callAll r s cs).2 (cs.takeWhile r.ok) := by
  induction cs generalizing s with
  | nil => exact Extends.refl s
  | cons c cs ih =>
    have hc := hcs c (List.mem_cons_self ..)
    have hrest := fun c' hc' => hcs c' (List.mem_cons_of_mem c hc')
    unfold callAll
    by_cases h : r.err c = espOk
    · have hok : r.ok c = true := decide_eq_true h
      rw [call_of_ok h hc, List.takeWhile_cons_of_pos hok]
      exact (extends_add s c).trans (ih hrest (s.add c))
    · have hok : ¬r.ok c = true := fun hok => h (of_decide_eq_true hok)
      rw [call_of_not_ok h, List.takeWhile_cons_of_neg hok]
      exact Extends.refl s

/-- The calls of `set_sta_ip_info`. -/
def staIpCalls (info : DevIpInfo) : List DriverCall :=
  if info.enable then [.dhcpcStop, .setIpInfo .sta info.toNetif, .setDnsInfo info.dns]
  else [.dhcpcStart]

/-- The calls of `set_ap_ip_info`. -/
def apIpCalls (info : DevIpInfo) : List DriverCall :=
  if info.enable then [.dhcpsStop, .setIpInfo .ap info.toNetif, .dhcpsStart] else []

/-- The last of several calls. -/
theorem callAll_singleton (r : DriverResults) (s : WifiService) (c : DriverCall) :
    callAll r s [c] = s.call r c := by
  unfold callAll
  generalize s.call r c = p
  obtain ⟨ok, s'⟩ := p
  cases ok with
  | false => rfl
  | true => rfl

/-- The addresses of the station are set by calls in order. -/
theorem setStaIpInfo_eq (r : DriverResults) (s : WifiService) (info : DevIpInfo) :
    setStaIpInfo r s info = callAll r s (staIpCalls info) := by
  unfold setStaIpInfo staIpCalls
  cases info.enable with
  | false => exact (callAll_singleton r s .dhcpcStart).symm
  | true =>
    simp only [callAll.eq_2 r _ .dhcpcStop, callAll.eq_2 r _ (.setIpInfo ..), callAll_singleton,
      Bool.not_true, Bool.false_eq_true, if_false, if_true]

/-- The addresses of the access point are set by calls in order. -/
theorem setApIpInfo_eq (r : DriverResults) (s : WifiService) (info : DevIpInfo) :
    setApIpInfo r s info = callAll r s (apIpCalls info) := by
  unfold setApIpInfo apIpCalls
  cases info.enable with
  | false => rfl
  | true =>
    simp only [callAll.eq_2 r _ .dhcpsStop, callAll.eq_2 r _ (.setIpInfo ..), callAll_singleton,
      Bool.not_true, Bool.false_eq_true, if_false, if_true]

/-- What setting the addresses of the station adds. -/
theorem extends_setStaIpInfo (r : DriverResults) (s : WifiService) (info : DevIpInfo) :
    Extends s (setStaIpInfo r s info).2 ((staIpCalls info).takeWhile r.ok) := by
  rw [setStaIpInfo_eq]
  apply extends_callAll
  unfold staIpCalls
  split <;> simp

/-- What setting the addresses of the access point adds. -/
theorem extends_setApIpInfo (r : DriverResults) (s : WifiService) (info : DevIpInfo) :
    Extends s (setApIpInfo r s info).2 ((apIpCalls info).takeWhile r.ok) := by
  rw [setApIpInfo_eq]
  apply extends_callAll
  unfold apIpCalls
  split <;> simp

/-! ## The parts of `wifi_set_mode` -/

/-- The configuration of an interface that the mode has is what the result is about. -/
theorem exists_config {inMode : Bool} {calls : List DriverCall} (hip : Extends s s' calls)
    (hc : ∀ mode, c ≠ .setMode mode) :
    ∃ s'', Extends s s'' (if inMode then calls ++ r.taken c else []) ∧
      (if inMode then s'.call r c else (true, s)) =
        (decide (inMode = true → r.err c = espOk), s'') := by
  cases inMode with
  | false => exact ⟨s, Extends.refl s, by simp⟩
  | true =>
    refine ⟨_, hip.trans (extends_call hc s'), Prod.ext ?_ rfl⟩
    rw [Bool.eq_iff_iff, decide_eq_true_eq]
    simpa using fst_call

/-- The calls that succeed are among those made. -/
theorem mem_of_mem_config {inMode : Bool} {calls : List DriverCall} {c' : DriverCall}
    (h : c' ∈ if inMode then calls.takeWhile r.ok ++ r.taken c else []) :
    c' ∈ calls ∨ c' = c := by
  split at h
  · obtain h | h := List.mem_append.mp h
    · exact Or.inl ((List.takeWhile_sublist r.ok).subset h)
    · exact Or.inr (mem_taken.mp h).1
  · exact absurd h List.not_mem_nil

/-- The calls of `configSta` that succeed. -/
def staDone (r : DriverResults) (conf : DevWifiConfig) (newMode : DevWifiMode)
    (staCfg : WifiStaConfig) : List DriverCall :=
  if newMode.hasSta then
    (staIpCalls conf.sta.ipInfo).takeWhile r.ok ++ r.taken (.setStaConfig staCfg)
  else []

/-- The calls of `configAp` that succeed. -/
def apDone (r : DriverResults) (conf : DevWifiConfig) (newMode : DevWifiMode)
    (apCfg : WifiApConfig) : List DriverCall :=
  if newMode.hasAp then
    (apIpCalls conf.ap.ipInfo).takeWhile r.ok ++ r.taken (.setApConfig apCfg)
  else []

/-- The station is configured exactly if the driver takes its configuration. -/
theorem configSta_eq (r : DriverResults) (s : WifiService) (newMode : DevWifiMode)
    (staCfg : WifiStaConfig) :
    ∃ s', Extends s s' (staDone r s.conf newMode staCfg) ∧ configSta r s newMode staCfg =
      (decide (newMode.hasSta = true → r.err (.setStaConfig staCfg) = espOk), s') :=
  exists_config (extends_setStaIpInfo r s s.conf.sta.ipInfo) nofun

/-- The access point is configured exactly if the driver takes its configuration. -/
theorem configAp_eq (r : DriverResults) (s : WifiService) (newMode : DevWifiMode)
    (apCfg : WifiApConfig) :
    ∃ s', Extends s s' (apDone r s.conf newMode apCfg) ∧ configAp r s newMode apCfg =
      (decide (newMode.hasAp = true → r.err (.setApConfig apCfg) = espOk), s') :=
  exists_config (extends_setApIpInfo r s s.conf.ap.ipInfo) nofun

/-- The calls for the station are about the station. -/
theorem cases_of_mem_staDone {conf : DevWifiConfig} (h : c ∈ staDone r conf newMode staCfg) :
    c = .dhcpcStart ∨ c = .dhcpcStop ∨ c = .setIpInfo .sta conf.sta.ipInfo.toNetif ∨
      c = .setDnsInfo conf.sta.ipInfo.dns ∨ c = .setStaConfig staCfg := by
  obtain hmem | hcfg := mem_of_mem_config h
  · unfold staIpCalls at hmem
    split at hmem
    · simp only [List.mem_cons, List.not_mem_nil, or_false] at hmem
      grind
    · exact Or.inl (List.mem_singleton.mp hmem)
  · grind

/-- The calls for the access point are about the access point. -/
theorem cases_of_mem_apDone {conf : DevWifiConfig} (h : c ∈ apDone r conf newMode apCfg) :
    c = .dhcpsStart ∨ c = .dhcpsStop ∨ c = .setIpInfo .ap conf.ap.ipInfo.toNetif ∨
      c = .setApConfig apCfg := by
  obtain hmem | hcfg := mem_of_mem_config h
  · unfold apIpCalls at hmem
    split at hmem
    · simp only [List.mem_cons, List.not_mem_nil, or_false] at hmem
      grind
    · exact absurd hmem List.not_mem_nil
  · grind

/-- Switching off stops the driver. -/
theorem extends_off (r : DriverResults) (s : WifiService) :
    Extends s (s.off r).2 (r.taken .stop) := by
  have hstop := extends_call (r := r) (c := .stop) nofun s
  exact ⟨hstop.conf, hstop.mode, hstop.done⟩

/-- Switching on starts the driver. -/
theorem extends_on (r : DriverResults) (s : WifiService) :
    Extends s (s.on r).2 (r.taken .start) := by
  have hstart := extends_call (r := r) (c := .start) nofun s
  exact ⟨hstart.conf, hstart.mode, hstart.done⟩

/-- Nothing but the two calls in front of the change of the mode. -/
theorem extends_switchOff (r : DriverResults) (s : WifiService) :
    ∃ done, Extends s (switchOff r s) done ∧ ∀ c ∈ done, c = .getMode ∨ c = .stop := by
  have hget := extends_call (r := r) (c := .getMode) nofun s
  unfold switchOff
  dsimp only
  -- the mode the driver answers only decides whether it is stopped
  generalize (if (s.call r .getMode).1 then (s.call r .getMode).2.mode else r.uninit) = mode
  split
  · refine ⟨_, hget.trans (extends_off r _), fun c hc => ?_⟩
    obtain hc | hc := List.mem_append.mp hc
    · exact Or.inl (mem_taken.mp hc).1
    · exact Or.inr (mem_taken.mp hc).1
  · exact ⟨_, hget, fun c hc => Or.inl (mem_taken.mp hc).1⟩

/-- Setting the power makes no other call. -/
theorem extends_setWifiTxPowerExactDbm (r : DriverResults) (s : WifiService) (dbm : Float32) :
    ∃ done, Extends s (setWifiTxPowerExactDbm r s dbm).2 done ∧
      ∀ c ∈ done, ∃ raw, c = .setMaxTxPower raw := by
  unfold setWifiTxPowerExactDbm
  split
  · exact ⟨[], Extends.refl s, nofun⟩
  · exact ⟨_, extends_call (c := .setMaxTxPower _) nofun s, fun c hc => ⟨_, (mem_taken.mp hc).1⟩⟩

/-- Nothing but the start of the radio and the setting of its power. -/
theorem extends_switchOn (r : DriverResults) (s : WifiService) (newMode : DevWifiMode) :
    ∃ done, Extends s (switchOn r s newMode) done ∧
      (∀ c ∈ done, c = .start ∨ ∃ raw, c = .setMaxTxPower raw) ∧
      (.start ∈ done ↔ newMode ≠ .null ∧ r.err .start = espOk) := by
  unfold switchOn
  by_cases hmode : newMode = .null
  · exact ⟨[], by simpa [hmode] using Extends.refl s, nofun, by simp [hmode]⟩
  · -- the driver is started, and then the power is set
    have hon := extends_on r s
    obtain ⟨done, hpower, hcalls⟩ :=
      extends_setWifiTxPowerExactDbm r (s.on r).2 (s.on r).2.conf.ap.powerDbm
    rw [if_pos (bne_iff_ne.mpr hmode)]
    dsimp only
    split
    · refine ⟨_, hon.trans hpower, fun c hc => ?_, ?_⟩
      · obtain hc | hc := List.mem_append.mp hc
        · exact Or.inl (mem_taken.mp hc).1
        · exact Or.inr (hcalls c hc)
      · have hstart : .start ∉ done := fun hmem => nomatch hcalls _ hmem
        simp [hmode, hstart]
    · exact ⟨_, hon, fun c hc => Or.inl (mem_taken.mp hc).1, by simp [hmode]⟩

/-! ## The change of the mode -/

/-- The configurations of the interfaces of the mode are taken. -/
def ConfigsTaken (r : DriverResults) (newMode : DevWifiMode) (staCfg : WifiStaConfig)
    (apCfg : WifiApConfig) : Prop :=
  (newMode.hasSta = true → r.err (.setStaConfig staCfg) = espOk) ∧
    (newMode.hasAp = true → r.err (.setApConfig apCfg) = espOk)

/-- The call sets something of an interface. -/
def DriverCall.IsSetting : DriverCall → Prop
  | .setIpInfo .. | .setDnsInfo _ | .setStaConfig _ | .setApConfig _ => True
  | _ => False

/-- The calls in front of the configurations and behind them set nothing of an interface. -/
theorem mem_setting_iff {before off sta ap on : List DriverCall} {mode : WifiMode}
    (hoff : ∀ c ∈ off, c = .getMode ∨ c = .stop)
    (hon : ∀ c ∈ on, c = .start ∨ ∃ raw, c = .setMaxTxPower raw) (hc : c.IsSetting) :
    c ∈ before ++ off ++ [.setMode mode] ++ sta ++ ap ++ on ↔ c ∈ before ∨ c ∈ sta ∨ c ∈ ap := by
  -- the stages around make no call that sets anything
  have hoff' : c ∉ off := by
    intro hmem
    obtain rfl | rfl := hoff c hmem
    · exact hc
    · exact hc
  have hon' : c ∉ on := by
    intro hmem
    obtain rfl | ⟨raw, rfl⟩ := hon c hmem
    · exact hc
    · exact hc
  have hmode : c ≠ .setMode mode := by
    intro heq
    rw [heq] at hc
    exact hc
  simp [hoff', hon', hmode]

/-- The mode is changed in the driver. -/
def WifiService.setMode (s : WifiService) (mode : WifiMode) : WifiService :=
  { s with mode, done := s.done ++ [.setMode mode] }

/-- The mode is changed if the driver takes it. -/
theorem call_setMode {mode : WifiMode} (h : r.err (.setMode mode) = espOk) (s : WifiService) :
    s.call r (.setMode mode) = (true, s.setMode mode) :=
  if_pos h

/-- The driver refuses the mode. -/
theorem changeMode_of_not_ok (staCfg : WifiStaConfig) (apCfg : WifiApConfig)
    (h : r.err (.setMode (getWifiMode newMode)) ≠ espOk) :
    ∃ s', changeMode r s newMode staCfg apCfg = (false, s') ∧ s'.conf = s.conf ∧
      s'.mode = s.mode := by
  obtain ⟨_, hoff, _⟩ := extends_switchOff r s
  unfold changeMode
  dsimp only
  rw [call_of_not_ok h]
  exact ⟨_, rfl, hoff.conf, hoff.mode⟩

/-- The driver takes the mode, and refuses a configuration: the record stays as it is. -/
theorem changeMode_of_refused (h : r.err (.setMode (getWifiMode newMode)) = espOk)
    (hrefused : ¬ConfigsTaken r newMode staCfg apCfg) :
    ∃ s', changeMode r s newMode staCfg apCfg = (false, s') ∧ s'.conf = s.conf ∧
      s'.mode = getWifiMode newMode := by
  unfold changeMode
  dsimp only
  obtain ⟨_, hoff, _⟩ := extends_switchOff r s
  rw [call_setMode h]
  obtain ⟨s₁, hext₁, hsta⟩ :=
    configSta_eq r ((switchOff r s).setMode (getWifiMode newMode)) newMode staCfg
  obtain ⟨s₂, hext₂, hap⟩ := configAp_eq r s₁ newMode apCfg
  have hconf₁ : s₁.conf = s.conf := hext₁.conf.trans hoff.conf
  have hmode₁ : s₁.mode = getWifiMode newMode := hext₁.mode
  dsimp only
  rw [hsta]
  by_cases htaken : newMode.hasSta = true → r.err (.setStaConfig staCfg) = espOk
  · -- the station took its configuration, so it is the access point
    have hap' := fun htaken' => hrefused ⟨htaken, htaken'⟩
    rw [decide_eq_true htaken]
    dsimp only
    rw [hap, decide_eq_false hap']
    exact ⟨s₂, rfl, hext₂.conf.trans hconf₁, hext₂.mode.trans hmode₁⟩
  · rw [decide_eq_false htaken]
    exact ⟨s₁, rfl, hconf₁, hmode₁⟩

/-- The driver takes the mode and the configurations: all that is left can only be ignored. -/
theorem changeMode_of_taken (h : r.err (.setMode (getWifiMode newMode)) = espOk)
    (htaken : ConfigsTaken r newMode staCfg apCfg) :
    ∃ s', changeMode r s newMode staCfg apCfg = (true, s') ∧ s'.conf.curMode = newMode ∧
      s'.mode = getWifiMode newMode ∧
      (∀ c : DriverCall, c.IsSetting → (c ∈ s'.done ↔ c ∈ s.done ∨
        c ∈ staDone r s.conf newMode staCfg ∨ c ∈ apDone r s.conf newMode apCfg)) ∧
      (.start ∈ s'.done ↔ .start ∈ s.done ∨ newMode ≠ .null ∧ r.err .start = espOk) := by
  unfold changeMode
  dsimp only
  -- stage by stage what was added
  obtain ⟨off, hoff, hoffCalls⟩ := extends_switchOff r s
  rw [call_setMode h]
  obtain ⟨s₁, hext₁, hsta⟩ :=
    configSta_eq r ((switchOff r s).setMode (getWifiMode newMode)) newMode staCfg
  obtain ⟨s₂, hext₂, hap⟩ := configAp_eq r s₁ newMode apCfg
  obtain ⟨on, hon, honCalls, hstart⟩ := extends_switchOn r s₂ newMode
  have hconf₁ : s₁.conf = s.conf := hext₁.conf.trans hoff.conf
  dsimp only
  rw [hsta, decide_eq_true htaken.1]
  dsimp only
  rw [hap, decide_eq_true htaken.2]
  refine ⟨_, rfl, rfl, (hon.mode.trans hext₂.mode).trans hext₁.mode, ?_⟩
  have hdone : (switchOn r s₂ newMode).done = s.done ++ off ++ [.setMode (getWifiMode newMode)] ++
      staDone r s.conf newMode staCfg ++ apDone r s.conf newMode apCfg ++ on := by
    rw [hon.done, hext₂.done, hext₁.done, hconf₁, ← hoff.conf, ← hoff.done]
    rfl
  show (∀ c : DriverCall, c.IsSetting → (c ∈ (switchOn r s₂ newMode).done ↔ _)) ∧
    (.start ∈ (switchOn r s₂ newMode).done ↔ _)
  rw [hdone]
  constructor
  · -- what is set comes from the two configurations
    exact fun c hc => mem_setting_iff hoffCalls honCalls hc
  · have hoff' : .start ∉ off := fun hmem => nomatch hoffCalls _ hmem
    have hsta' : .start ∉ staDone r s.conf newMode staCfg :=
      fun hmem => nomatch cases_of_mem_staDone hmem
    have hap' : .start ∉ apDone r s.conf newMode apCfg :=
      fun hmem => nomatch cases_of_mem_apDone hmem
    simp [hoff', hsta', hap', hstart]

/-! ## What is promised -/

/-- The settings of the station were applied: its configuration and, if they are given, its
    addresses. -/
def StaApplied (sta : DevStaConf) (done : List DriverCall) : Prop :=
  (∃ cfg, fillStaCfg sta = some cfg ∧ .setStaConfig cfg ∈ done) ∧
    (sta.ipInfo.enable = true →
      .setIpInfo .sta sta.ipInfo.toNetif ∈ done ∧ .setDnsInfo sta.ipInfo.dns ∈ done)

/-- The settings of the access point were applied. -/
def ApApplied (ap : DevApConf) (done : List DriverCall) : Prop :=
  (∃ cfg, fillApCfg ap = some cfg ∧ .setApConfig cfg ∈ done) ∧
    (ap.ipInfo.enable = true → .setIpInfo .ap ap.ipInfo.toNetif ∈ done)

/-- The mode is the one of the driver, its settings were applied, and the radio was started. -/
structure ModeSet (conf : DevWifiConfig) (newMode : DevWifiMode) (s : WifiService) : Prop where
  mode : getWifiMode newMode = s.mode
  sta : newMode.hasSta = true → StaApplied conf.sta s.done
  ap : newMode.hasAp = true → ApApplied conf.ap s.done
  started : newMode ≠ .null → .start ∈ s.done

/-- The record maps to the mode of the driver, and a mode reported as set is. -/
structure KeepsRecord (conf : DevWifiConfig) (newMode : DevWifiMode)
    (result : Bool × WifiService) : Prop where
  record : getWifiMode result.2.conf.curMode = result.2.mode
  reported : result.1 = true → ModeSet conf newMode result.2

/-! ## When it is kept -/

/-- The addresses of the station, if they are given, are taken. -/
def StaAddressesTaken (r : DriverResults) (info : DevIpInfo) : Prop :=
  info.enable = true → r.err .dhcpcStop = espOk ∧
    r.err (.setIpInfo .sta info.toNetif) = espOk ∧ r.err (.setDnsInfo info.dns) = espOk

/-- The addresses of the access point, if they are given, are taken. -/
def ApAddressesTaken (r : DriverResults) (info : DevIpInfo) : Prop :=
  info.enable = true → r.err .dhcpsStop = espOk ∧ r.err (.setIpInfo .ap info.toNetif) = espOk

/-- What has to hold behind the change of the mode: either a configuration is refused and the
    mode is the one that the record maps to anyway, or the configurations, the addresses and
    the start of the radio all succeed. -/
def SettlesMode (r : DriverResults) (conf : DevWifiConfig) (newMode : DevWifiMode)
    (staCfg : WifiStaConfig) (apCfg : WifiApConfig) : Prop :=
  (¬ConfigsTaken r newMode staCfg apCfg → getWifiMode conf.curMode = getWifiMode newMode) ∧
    (ConfigsTaken r newMode staCfg apCfg →
      (newMode.hasSta = true → StaAddressesTaken r conf.sta.ipInfo) ∧
      (newMode.hasAp = true → ApAddressesTaken r conf.ap.ipInfo) ∧
      (newMode ≠ .null → r.err .start = espOk))

/-- The calls of the driver spare the record: if the function gets as far as changing the mode,
    what comes behind settles it. -/
def SparesRecord (r : DriverResults) (wifiInit : Bool) (conf : DevWifiConfig)
    (newMode : DevWifiMode) : Prop :=
  wifiInit = true →
    ∀ staCfg, (if newMode.hasSta then fillStaCfg conf.sta else some {}) = some staCfg →
    ∀ apCfg, (if newMode.hasAp then fillApCfg conf.ap else some {}) = some apCfg →
    r.err (.setMode (getWifiMode newMode)) = espOk → SettlesMode r conf newMode staCfg apCfg

/-- The station is as its record says exactly if the driver takes its addresses. -/
theorem staApplied_iff {conf : DevWifiConfig} {done : List DriverCall}
    (hsta : newMode.hasSta = true) (hcfg : fillStaCfg conf.sta = some staCfg)
    (htaken : ConfigsTaken r newMode staCfg apCfg)
    (hdone : ∀ c : DriverCall, c.IsSetting → (c ∈ done ↔
      c ∈ staDone r conf newMode staCfg ∨ c ∈ apDone r conf newMode apCfg)) :
    StaApplied conf.sta done ↔ StaAddressesTaken r conf.sta.ipInfo := by
  -- its configuration was taken
  have hset : .setStaConfig staCfg ∈ done := by
    rw [hdone (.setStaConfig staCfg) trivial]
    simp [staDone, hsta, htaken.1 hsta]
  unfold StaApplied StaAddressesTaken
  rw [and_iff_right ⟨staCfg, hcfg, hset⟩]
  apply imp_congr_right
  intro henable
  rw [hdone (.setIpInfo ..) trivial, hdone (.setDnsInfo _) trivial]
  have hip : .setIpInfo .sta conf.sta.ipInfo.toNetif ∉ apDone r conf newMode apCfg :=
    fun hmem => nomatch cases_of_mem_apDone hmem
  have hdns : .setDnsInfo conf.sta.ipInfo.dns ∉ apDone r conf newMode apCfg :=
    fun hmem => nomatch cases_of_mem_apDone hmem
  simp only [hip, hdns, or_false, staDone, hsta, staIpCalls, henable, if_true, List.mem_append,
    List.takeWhile_cons, DriverResults.ok, decide_eq_true_eq]
  grind [mem_taken]

/-- The access point is as its record says exactly if the driver takes its addresses. -/
theorem apApplied_iff {conf : DevWifiConfig} {done : List DriverCall}
    (hap : newMode.hasAp = true) (hcfg : fillApCfg conf.ap = some apCfg)
    (htaken : ConfigsTaken r newMode staCfg apCfg)
    (hdone : ∀ c : DriverCall, c.IsSetting → (c ∈ done ↔
      c ∈ staDone r conf newMode staCfg ∨ c ∈ apDone r conf newMode apCfg)) :
    ApApplied conf.ap done ↔ ApAddressesTaken r conf.ap.ipInfo := by
  -- its configuration was taken
  have hset : .setApConfig apCfg ∈ done := by
    rw [hdone (.setApConfig apCfg) trivial]
    simp [apDone, hap, htaken.2 hap]
  unfold ApApplied ApAddressesTaken
  rw [and_iff_right ⟨apCfg, hcfg, hset⟩]
  apply imp_congr_right
  intro henable
  rw [hdone (.setIpInfo ..) trivial]
  have hip : .setIpInfo .ap conf.ap.ipInfo.toNetif ∉ staDone r conf newMode staCfg :=
    fun hmem => nomatch cases_of_mem_staDone hmem
  simp only [hip, false_or, apDone, hap, apIpCalls, henable, if_true, List.mem_append,
    List.takeWhile_cons, DriverResults.ok, decide_eq_true_eq]
  grind [mem_taken]

/-- Nothing was changed. -/
theorem keepsRecord_of_unchanged {conf : DevWifiConfig} (hconf : s.conf = conf)
    (hmode : s.mode = getWifiMode conf.curMode) : KeepsRecord conf newMode (false, s) :=
  ⟨by rw [hconf, hmode], nofun⟩

/-- The record is kept behind the checks of the settings. -/
theorem changeMode_keepsRecord_iff (conf : DevWifiConfig) (wifi : WifiState)
    (hsta : newMode.hasSta = true → fillStaCfg conf.sta = some staCfg)
    (hap : newMode.hasAp = true → fillApCfg conf.ap = some apCfg) :
    KeepsRecord conf newMode
        (changeMode r ⟨conf, wifi, getWifiMode conf.curMode, []⟩ newMode staCfg apCfg) ↔
      (r.err (.setMode (getWifiMode newMode)) = espOk →
        SettlesMode r conf newMode staCfg apCfg) := by
  by_cases hmode : r.err (.setMode (getWifiMode newMode)) = espOk
  · rw [forall_prop_of_true hmode]
    unfold SettlesMode
    by_cases htaken : ConfigsTaken r newMode staCfg apCfg
    · -- success is reported, and the record is on the new mode
      obtain ⟨s', heq, hrecord, hmode', hdone, hstart⟩ := changeMode_of_taken (s :=
        ⟨conf, wifi, getWifiMode conf.curMode, []⟩) hmode htaken
      simp only [List.not_mem_nil, false_or] at hdone hstart
      rw [heq, and_iff_right fun h => absurd htaken h, forall_prop_of_true htaken]
      constructor
      · intro hkeep
        obtain ⟨_, hsta', hap', hstarted⟩ := hkeep.reported rfl
        exact ⟨fun h => (staApplied_iff h (hsta h) htaken hdone).mp (hsta' h),
          fun h => (apApplied_iff h (hap h) htaken hdone).mp (hap' h),
          fun h => (hstart.mp (hstarted h)).2⟩
      · rintro ⟨hsta', hap', hstarted⟩
        refine ⟨by rw [hrecord, hmode'], fun _ => ⟨hmode'.symm, ?_, ?_, ?_⟩⟩
        · exact fun h => (staApplied_iff h (hsta h) htaken hdone).mpr (hsta' h)
        · exact fun h => (apApplied_iff h (hap h) htaken hdone).mpr (hap' h)
        · exact fun h => hstart.mpr ⟨h, hstarted h⟩
    · -- the record is on the mode before, the driver is not
      obtain ⟨s', heq, hconf, hmode'⟩ := changeMode_of_refused (s :=
        ⟨conf, wifi, getWifiMode conf.curMode, []⟩) hmode htaken
      rw [heq, and_iff_left fun h => absurd h htaken, forall_prop_of_true htaken]
      constructor
      · intro hkeep
        have hrecord := hkeep.record
        rw [hconf, hmode'] at hrecord
        exact hrecord
      · intro hrecord
        exact ⟨by rw [hconf, hmode', ← hrecord], nofun⟩
  · obtain ⟨s', heq, hconf, hmode'⟩ := changeMode_of_not_ok (s :=
      ⟨conf, wifi, getWifiMode conf.curMode, []⟩) staCfg apCfg hmode
    rw [heq]
    exact iff_of_true (keepsRecord_of_unchanged hconf hmode') fun h => absurd h hmode

/-- From a record that maps to the mode of the driver, the function keeps it so, and reports
    only what it did, exactly if the calls of the driver spare the record. -/
theorem wifiSetMode_keepsRecord_iff (r : DriverResults) (wifiInit : Bool) (conf : DevWifiConfig)
    (wifi : WifiState) (newMode : DevWifiMode) :
    KeepsRecord conf newMode
        (wifiSetMode r wifiInit ⟨conf, wifi, getWifiMode conf.curMode, []⟩ newMode) ↔
      SparesRecord r wifiInit conf newMode := by
  unfold wifiSetMode SparesRecord
  cases wifiInit with
  | false => exact iff_of_true (keepsRecord_of_unchanged rfl rfl) nofun
  | true =>
    rw [forall_prop_of_true rfl]
    dsimp only [Bool.not_true]
    cases hsta : if newMode.hasSta then fillStaCfg conf.sta else some {} with
    -- a record that cannot be copied stops it in front of the driver
    | none => exact iff_of_true (keepsRecord_of_unchanged rfl rfl) nofun
    | some staCfg =>
      cases hap : if newMode.hasAp then fillApCfg conf.ap else some {} with
      | none =>
        exact iff_of_true (keepsRecord_of_unchanged rfl rfl) fun _ _ => nofun
      | some apCfg =>
        have hsta' : newMode.hasSta = true → fillStaCfg conf.sta = some staCfg := by
          intro h
          rw [if_pos h] at hsta
          exact hsta
        have hap' : newMode.hasAp = true → fillApCfg conf.ap = some apCfg := by
          intro h
          rw [if_pos h] at hap
          exact hap
        simp only [Option.some.injEq, forall_eq']
        exact changeMode_keepsRecord_iff conf wifi hsta' hap'

/-- Settings with a station, in no mode. -/
def homeConf : DevWifiConfig where
  sta :=
    { ssid := [104, 111, 109, 101], password := [], ipInfo := ⟨false, 0, 0, 0, 0⟩ }
  ap :=
    { ssid := [], password := [], ipInfo := ⟨false, 0, 0, 0, 0⟩, ch := 1, powerDbm := 10.5 }
  curMode := .null

/-- The driver refuses the configuration of the station: it is in the mode of a station, and
    the record is not. The driver does not start the radio: success is reported. -/
theorem wifiSetMode_sta_fails :
    ¬KeepsRecord homeConf .sta
      (wifiSetMode ⟨fun c => if c matches .setStaConfig _ then espFail else espOk, .null⟩ true
        ⟨homeConf, .boot 0 none, getWifiMode homeConf.curMode, []⟩ .sta) ∧
    ¬KeepsRecord homeConf .sta
      (wifiSetMode ⟨fun c => if c = .start then espFail else espOk, .null⟩ true
        ⟨homeConf, .boot 0 none, getWifiMode homeConf.curMode, []⟩ .sta) := by
  constructor
  · intro h
    exact absurd h.record (by decide)
  · intro h
    have hset := h.reported (by decide)
    exact absurd (hset.started (by decide)) (by decide)

end EspTesting.Wifi
