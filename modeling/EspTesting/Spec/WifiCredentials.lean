import EspTesting.ForStd.Vector
import EspTesting.Native.Device
import EspTesting.Spec.WifiRecord
import Mathlib.Data.List.TakeWhile

/-!
# The credentials of the station

The settings have room for an SSID of 32 bytes and a password of 64, with a zero behind it, and
so has the driver, which needs no zero there. `cpy_str` refuses a string that fills the buffer
of the driver, so the longest strings that can be stored cannot be used.

## Key results

- `cpyStr_storeStr`: what is read back of a string that was stored
- `wifiSetMode_handsOver_iff`
-/

namespace EspTesting.Wifi

open EspTesting.Device

variable {buf str ssid password : List UInt8} {max : Nat}

/-! ## Strings in the settings -/

theorem bne_zero_of_mem {c : UInt8} (h : 0 ∉ str) (hc : c ∈ str) : (c != 0) = true := by
  rw [bne_iff_ne]
  intro hzero
  rw [hzero] at hc
  exact h hc

theorem takeWhile_ne_zero (h : 0 ∉ str) : str.takeWhile (· != 0) = str :=
  List.takeWhile_eq_self_iff.mpr fun _ hc => bne_zero_of_mem h hc

/-- A string that fits is stored as a whole. -/
theorem storeStr_of_le (hstr : 0 ∉ str) (hlen : str.length ≤ max) (buf : List UInt8) :
    storeStr buf str max = str ++ 0 :: buf.drop (str.length + 1) := by
  unfold storeStr
  rw [List.take_of_length_le hlen, takeWhile_ne_zero hstr]

/-- A string that was stored is read back if it does not fill the buffer it is read into. -/
theorem cpyStr_storeStr (hstr : 0 ∉ str) (hlen : str.length ≤ max) (buf : List UInt8) :
    cpyStr (storeStr buf str max) max = if str.length < max then some str else none := by
  have hread : ((storeStr buf str max).take max).takeWhile (· != 0) = str := by
    rw [storeStr_of_le hstr hlen, List.take_append, List.take_of_length_le hlen]
    by_cases hlt : str.length < max
    · -- the zero behind the string is read
      obtain ⟨k, hk⟩ : ∃ k, max - str.length = k + 1 := ⟨max - str.length - 1, by omega⟩
      rw [hk, List.take_succ_cons,
        List.takeWhile_append_of_pos fun _ hc => bne_zero_of_mem hstr hc]
      simp
    · rw [show max - str.length = 0 by omega, List.take_zero, List.append_nil]
      exact takeWhile_ne_zero hstr
  unfold cpyStr
  simp only [hread]
  split
  · rw [if_neg (by omega)]
  · rw [if_pos (by omega)]

/-! ## What the driver is handed -/

/-- The field of the driver for the SSID, zeroed before the copy. -/
def WifiStaConfig.ssidField (cfg : WifiStaConfig) : Vector UInt8 32 :=
  (Vector.replicate 32 0).writeAt 0 cfg.ssid

/-- The field of the driver for the password. -/
def WifiStaConfig.passwordField (cfg : WifiStaConfig) : Vector UInt8 64 :=
  (Vector.replicate 64 0).writeAt 0 cfg.password

/-- The credentials are of a length for which there is room in the settings. -/
structure Storable (ssid password : List UInt8) : Prop where
  ssid_pos : 1 ≤ ssid.length
  ssid_le : ssid.length ≤ maxSsidLen
  ssid_str : 0 ∉ ssid
  password_min : password.length = 0 ∨ 8 ≤ password.length
  password_le : password.length ≤ maxPwdLen
  password_str : 0 ∉ password

/-- The mode was set, and the driver was given a configuration with exactly these credentials,
    padded with zeros. -/
def HandsOver (ssid password : List UInt8) (result : Bool × WifiService) : Prop :=
  result.1 = true ∧ (∃ cfg, .setStaConfig cfg ∈ result.2.done) ∧
    ∀ cfg, .setStaConfig cfg ∈ result.2.done →
      cfg.ssidField.toList = ssid ++ List.replicate (32 - ssid.length) 0 ∧
      cfg.passwordField.toList = password ++ List.replicate (64 - password.length) 0

/-- A copy to the begin of a zeroed field. -/
theorem toList_writeAt_replicate {n : Nat} (hlen : str.length ≤ n) :
    ((Vector.replicate n (0 : UInt8)).writeAt 0 str).toList =
      str ++ List.replicate (n - str.length) 0 := by
  rw [Vector.toList_writeAt _ _ (by omega)]
  simp

/-- The settings of the station, with credentials that were stored. -/
theorem fillStaCfg_set (h : Storable ssid password) (conf : DevWifiConfig) :
    fillStaCfg (setStaPwd (setStaSsid conf ssid) password).sta =
      if ssid.length < maxSsidLen ∧ password.length < maxPwdLen then
        some ⟨ssid, password, if password.length != 0 then .wpa2Psk else .open⟩
      else none := by
  have hssid := cpyStr_storeStr h.ssid_str h.ssid_le conf.sta.ssid
  have hpassword := cpyStr_storeStr h.password_str h.password_le conf.sta.password
  have hpos := h.ssid_pos
  have hgood : badPasswordLen password.length = false := by
    unfold badPasswordLen
    have hmin := h.password_min
    simp
    omega
  unfold fillStaCfg copyCredentials setStaPwd setStaSsid
  simp only [hssid, hpassword]
  by_cases hs : ssid.length < maxSsidLen
  · by_cases hp : password.length < maxPwdLen
    · simp [hs, hp, hgood, Nat.not_lt.mpr hpos]
    · simp [hs, hp, Nat.not_lt.mpr hpos]
  · simp [hs]

/-- Where no call of the driver fails, it is given the settings of the station. -/
theorem wifiSetMode_sta (hok : ∀ c, r.err c = espOk) {s : WifiService} {staCfg : WifiStaConfig}
    (hcfg : fillStaCfg s.conf.sta = some staCfg) (hdone : s.done = []) :
    (wifiSetMode r true s .sta).1 = true ∧
      ∀ cfg, .setStaConfig cfg ∈ (wifiSetMode r true s .sta).2.done ↔ cfg = staCfg := by
  have htaken : ConfigsTaken r .sta staCfg {} := ⟨fun _ => hok _, fun _ => hok _⟩
  have hset : wifiSetMode r true s .sta = changeMode r s .sta staCfg {} := by
    unfold wifiSetMode
    simp [DevWifiMode.hasSta, DevWifiMode.hasAp, hcfg]
  obtain ⟨s', heq, _, _, hmem, _⟩ := changeMode_of_taken (s := s) (hok _) htaken
  rw [hset, heq]
  refine ⟨rfl, fun cfg => ?_⟩
  show .setStaConfig cfg ∈ s'.done ↔ _
  rw [hmem (.setStaConfig cfg) trivial, hdone]
  have hap : apDone r s.conf .sta {} = [] := rfl
  have hsta : .setStaConfig cfg ∈ staDone r s.conf .sta staCfg ↔ cfg = staCfg := by
    constructor
    · intro h
      simpa using cases_of_mem_staDone h
    · rintro rfl
      exact List.mem_append_right _ (mem_taken.mpr ⟨rfl, hok _⟩)
  simp [hap, hsta]

/-- Credentials that can be stored are used exactly if neither of them fills its field of the
    driver. -/
theorem wifiSetMode_handsOver_iff (r : DriverResults) (hok : ∀ c, r.err c = espOk)
    (conf : DevWifiConfig) (wifi : WifiState) (mode : WifiMode) (ssid password : List UInt8)
    (h : Storable ssid password) :
    HandsOver ssid password (wifiSetMode r true
        ⟨setStaPwd (setStaSsid conf ssid) password, wifi, mode, []⟩ .sta) ↔
      ssid.length < maxSsidLen ∧ password.length < maxPwdLen := by
  have hcfg := fillStaCfg_set h conf
  by_cases hfit : ssid.length < maxSsidLen ∧ password.length < maxPwdLen
  · rw [if_pos hfit] at hcfg
    obtain ⟨hset, hmem⟩ := wifiSetMode_sta (s :=
      ⟨setStaPwd (setStaSsid conf ssid) password, wifi, mode, []⟩) hok hcfg rfl
    apply iff_of_true _ hfit
    refine ⟨hset, ⟨_, (hmem _).mpr rfl⟩, fun cfg hcfg => ?_⟩
    rw [(hmem cfg).mp hcfg]
    exact ⟨toList_writeAt_replicate h.ssid_le, toList_writeAt_replicate h.password_le⟩
  · -- one of the copies is refused, in front of every call of the driver
    rw [if_neg hfit] at hcfg
    apply iff_of_false _ hfit
    intro hand
    have hset := hand.1
    unfold wifiSetMode at hset
    simp [DevWifiMode.hasSta, hcfg] at hset

/-- An SSID that fills the field of the driver is refused, and so is such a password. -/
theorem wifiSetMode_full_fails :
    Storable (List.replicate 32 97) [] ∧
    ¬HandsOver (List.replicate 32 97) [] (wifiSetMode ⟨fun _ => espOk, .null⟩ true
      ⟨setStaPwd (setStaSsid homeConf (List.replicate 32 97)) [], .boot 0 none, .null, []⟩
      .sta) ∧
    Storable [97] (List.replicate 64 98) ∧
    ¬HandsOver [97] (List.replicate 64 98) (wifiSetMode ⟨fun _ => espOk, .null⟩ true
      ⟨setStaPwd (setStaSsid homeConf [97]) (List.replicate 64 98), .boot 0 none, .null, []⟩
      .sta) := by
  refine ⟨⟨by decide, by decide, by decide, by decide, by decide, by decide⟩, ?_,
    ⟨by decide, by decide, by decide, by decide, by decide, by decide⟩, ?_⟩
  · intro h
    exact absurd h.1 (by decide)
  · intro h
    exact absurd h.1 (by decide)

/-- The credentials of a station with a password of 8 bytes. -/
theorem wifiSetMode_handsOver_home :
    HandsOver [104, 111, 109, 101] (List.replicate 8 97) (wifiSetMode ⟨fun _ => espOk, .null⟩
      true ⟨setStaPwd (setStaSsid homeConf [104, 111, 109, 101]) (List.replicate 8 97),
        .boot 0 none, .null, []⟩ .sta) :=
  (wifiSetMode_handsOver_iff ⟨fun _ => espOk, .null⟩ (fun _ => rfl) homeConf (.boot 0 none) .null
    [104, 111, 109, 101] (List.replicate 8 97)
    ⟨by decide, by decide, by decide, by decide, by decide, by decide⟩).mpr (by decide)

end EspTesting.Wifi
