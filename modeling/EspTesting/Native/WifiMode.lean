import EspTesting.Native.WifiService

/-!
# Wi-Fi modes

`wifi_set_mode` and the functions it calls (`wifi_service.c`, `global_helpers.c`). Of the
driver, only the mode it was last set to is modelled: what its calls return is given, and the
calls that succeed are recorded. The events it sends meanwhile and the delay behind the stop
of the radio are left out.
-/

namespace EspTesting.Wifi

/-! ## Modes -/

/-- `wifi_mode_t` -/
inductive WifiMode where
  | null
  | sta
  | ap
  | apsta
  deriving DecidableEq, Repr

/-- `dev_wifi_mode_t` -/
inductive DevWifiMode where
  | notInit
  | null
  | sta
  | ap
  | apsta
  /-- a number without a name: `cur_mode` is an `int` -/
  | other (value : Int)
  deriving DecidableEq, Repr

/-- `get_wifi_mode` -/
def getWifiMode : DevWifiMode → WifiMode
  | .sta => .sta
  | .ap => .ap
  | .apsta => .apsta
  | _ => .null

/-- `mode == DEV_WIFI_MODE_STA || mode == DEV_WIFI_MODE_APSTA` -/
def DevWifiMode.hasSta (mode : DevWifiMode) : Bool := mode = .sta || mode = .apsta

/-- `mode == DEV_WIFI_MODE_AP || mode == DEV_WIFI_MODE_APSTA` -/
def DevWifiMode.hasAp (mode : DevWifiMode) : Bool := mode = .ap || mode = .apsta

/-! ## Settings -/

/-- `AP_MAX_CONNECTION` -/
abbrev apMaxConnection : UInt8 := 2

/-- `dev_ap_conf_t` -/
structure DevApConf where
  ssid : List UInt8
  password : List UInt8
  ipInfo : DevIpInfo
  ch : UInt8
  powerDbm : Float32

/-- `dev_sta_conf_t`, without the broadcast address -/
structure DevStaConf where
  ssid : List UInt8
  password : List UInt8
  ipInfo : DevIpInfo

/-- `dev_wifi_config_t` -/
structure DevWifiConfig where
  ap : DevApConf
  sta : DevStaConf
  curMode : DevWifiMode

/-- `wifi_auth_mode_t`, the values that are used -/
inductive WifiAuthMode where
  | open
  | wpa2Psk
  | wpaWpa2Psk
  deriving DecidableEq, Repr

/-- `wifi_config_t` of the station, the fields that are set -/
structure WifiStaConfig where
  ssid : List UInt8 := []
  password : List UInt8 := []
  authmode : WifiAuthMode := .open
  deriving DecidableEq, Repr

/-- `wifi_config_t` of the access point, the fields that are set -/
structure WifiApConfig where
  ssid : List UInt8 := []
  password : List UInt8 := []
  authmode : WifiAuthMode := .open
  maxConnection : UInt8 := 0
  channel : UInt8 := 0
  deriving DecidableEq, Repr

/-- `cpy_str`: the bytes that are copied, `none` for `-1`. -/
def cpyStr (src : List UInt8) (dstBufSize : Nat) : Option (List UInt8) :=
  -- the first `strnlen(src, dst_buf_size)` bytes
  let str := (src.take dstBufSize).takeWhile (· != 0)
  if str.length = dstBufSize then none else some str

/-- The length of a password that is refused. -/
def badPasswordLen (len : Nat) : Bool := decide (len > 0) && decide (len < 8)

/-- The SSID and the password of an interface, `none` where `wifi_set_mode` returns. -/
def copyCredentials (ssid password : List UInt8) : Option (List UInt8 × List UInt8) :=
  match cpyStr ssid 32 with
  | none => none
  | some ssid =>
    if ssid.length < 1 then none
    else
      match cpyStr password 64 with
      | none => none
      | some password => if badPasswordLen password.length then none else some (ssid, password)

/-- `sta_cfg` -/
def fillStaCfg (sta : DevStaConf) : Option WifiStaConfig :=
  (copyCredentials sta.ssid sta.password).map fun c =>
    { ssid := c.1
      password := c.2
      authmode := if c.2.length != 0 then .wpa2Psk else .open }

/-- `ap_cfg` -/
def fillApCfg (ap : DevApConf) : Option WifiApConfig :=
  (copyCredentials ap.ssid ap.password).map fun c =>
    { ssid := c.1
      password := c.2
      authmode := if c.2.length != 0 then .wpaWpa2Psk else .open
      maxConnection := apMaxConnection
      channel := if ap.ch = 0 || ap.ch > 13 then 1 else ap.ch }

/-! ## The driver -/

/-- `sta_netif` and `ap_netif` -/
inductive Netif where
  | sta
  | ap
  deriving DecidableEq, Repr

/-- A call of the Wi-Fi driver or of the network interface. -/
inductive DriverCall where
  /-- `esp_wifi_get_mode` -/
  | getMode
  /-- `esp_wifi_stop` -/
  | stop
  /-- `esp_wifi_set_mode` -/
  | setMode (mode : WifiMode)
  /-- `esp_netif_dhcpc_start` -/
  | dhcpcStart
  /-- `esp_netif_dhcpc_stop` -/
  | dhcpcStop
  /-- `esp_netif_dhcps_start` -/
  | dhcpsStart
  /-- `esp_netif_dhcps_stop` -/
  | dhcpsStop
  /-- `esp_netif_set_ip_info` -/
  | setIpInfo (netif : Netif) (ipInfo : NetifIpInfo)
  /-- `esp_netif_set_dns_info` for the main server -/
  | setDnsInfo (ip : UInt32)
  /-- `esp_wifi_set_config(WIFI_IF_STA, ..)` -/
  | setStaConfig (cfg : WifiStaConfig)
  /-- `esp_wifi_set_config(WIFI_IF_AP, ..)` -/
  | setApConfig (cfg : WifiApConfig)
  /-- `esp_wifi_start` -/
  | start
  /-- `esp_wifi_set_max_tx_power` -/
  | setMaxTxPower (raw : Int8)
  deriving DecidableEq, Repr

/-- What the calls of the driver return, and what is in a variable for the mode that
    `esp_wifi_get_mode` does not write. No call is made twice. -/
structure DriverResults where
  err : DriverCall → EspErr
  uninit : WifiMode

/-- The settings, the state of the service, the mode last set in the driver, and the calls
    that succeeded so far. -/
structure WifiService where
  conf : DevWifiConfig
  wifi : WifiState
  mode : WifiMode
  done : List DriverCall

/-- A call of the driver; it succeeds if it returns `ESP_OK`. -/
def WifiService.call (r : DriverResults) (s : WifiService) (c : DriverCall) :
    Bool × WifiService :=
  if r.err c = espOk then
    let mode :=
      match c with
      | .setMode mode => mode
      | _ => s.mode
    (true, { s with mode, done := s.done ++ [c] })
  else (false, s)

/-- `set_wifi_on` -/
def WifiService.on (r : DriverResults) (s : WifiService) : Bool × WifiService :=
  let (ok, wifi) := setWifiOn s.wifi (r.err .start)
  (ok, { (s.call r .start).2 with wifi })

/-- `set_wifi_off` -/
def WifiService.off (r : DriverResults) (s : WifiService) : Bool × WifiService :=
  let (ok, wifi) := setWifiOff s.wifi (r.err .stop)
  (ok, { (s.call r .stop).2 with wifi })

/-- The addresses of the settings. -/
def DevIpInfo.toNetif (info : DevIpInfo) : NetifIpInfo :=
  { ip := info.ip, netmask := info.netmask, gw := info.gateway }

/-- `set_ap_ip_info` -/
def setApIpInfo (r : DriverResults) (s : WifiService) (info : DevIpInfo) :
    Bool × WifiService :=
  if !info.enable then (true, s)
  else
    let (ok, s) := s.call r .dhcpsStop
    if !ok then (false, s)
    else
      let (ok, s) := s.call r (.setIpInfo .ap info.toNetif)
      if !ok then (false, s) else s.call r .dhcpsStart

/-- `set_sta_ip_info` -/
def setStaIpInfo (r : DriverResults) (s : WifiService) (info : DevIpInfo) :
    Bool × WifiService :=
  if !info.enable then s.call r .dhcpcStart
  else
    let (ok, s) := s.call r .dhcpcStop
    if !ok then (false, s)
    else
      let (ok, s) := s.call r (.setIpInfo .sta info.toNetif)
      if !ok then (false, s) else s.call r (.setDnsInfo info.dns)

/-- `dbm_to_raw_tx_power` -/
def dbmToRawTxPower (dbm : Float32) : Int8 :=
  let raw := (dbm * 4.0 + 0.5).toInt8
  let raw := if raw < 8 then 8 else raw
  if raw > 84 then 84 else raw

/-- `set_wifi_tx_power_exact_dbm` -/
def setWifiTxPowerExactDbm (r : DriverResults) (s : WifiService) (dbm : Float32) :
    Bool × WifiService :=
  if dbm < 2.0 || dbm > 21.0 then (false, s)
  else s.call r (.setMaxTxPower (dbmToRawTxPower dbm))

/-! ## Setting the mode -/

/-- `wifi_set_mode` for the station, behind the change of the mode -/
def configSta (r : DriverResults) (s : WifiService) (newMode : DevWifiMode)
    (staCfg : WifiStaConfig) : Bool × WifiService :=
  if newMode.hasSta then
    let (_, s) := setStaIpInfo r s s.conf.sta.ipInfo
    s.call r (.setStaConfig staCfg)
  else (true, s)

/-- `wifi_set_mode` for the access point, behind the change of the mode -/
def configAp (r : DriverResults) (s : WifiService) (newMode : DevWifiMode)
    (apCfg : WifiApConfig) : Bool × WifiService :=
  if newMode.hasAp then
    let (_, s) := setApIpInfo r s s.conf.ap.ipInfo
    s.call r (.setApConfig apCfg)
  else (true, s)

/-- `wifi_set_mode` behind the configurations -/
def switchOn (r : DriverResults) (s : WifiService) (newMode : DevWifiMode) : WifiService :=
  if newMode != .null then
    let (_, s) := s.on r
    if newMode.hasAp then (setWifiTxPowerExactDbm r s s.conf.ap.powerDbm).2 else s
  else s

/-- `wifi_set_mode` up to the change of the mode -/
def switchOff (r : DriverResults) (s : WifiService) : WifiService :=
  let (ok, s) := s.call r .getMode
  let curWifiMode := if ok then s.mode else r.uninit
  if curWifiMode != .null then (s.off r).2 else s

/-- `wifi_set_mode` behind the checks of the settings -/
def changeMode (r : DriverResults) (s : WifiService) (newMode : DevWifiMode)
    (staCfg : WifiStaConfig) (apCfg : WifiApConfig) : Bool × WifiService :=
  let s := switchOff r s
  let (ok, s) := s.call r (.setMode (getWifiMode newMode))
  if !ok then (false, s)
  else
    let (ok, s) := configSta r s newMode staCfg
    if !ok then (false, s)
    else
      let (ok, s) := configAp r s newMode apCfg
      if !ok then (false, s)
      else
        let s := switchOn r s newMode
        (true, { s with conf.curMode := newMode })

/-- `wifi_set_mode` -/
def wifiSetMode (r : DriverResults) (wifiInit : Bool) (s : WifiService)
    (newMode : DevWifiMode) : Bool × WifiService :=
  if !wifiInit then (false, s)
  else
    -- the configuration of an interface that is not used stays zero
    match if newMode.hasSta then fillStaCfg s.conf.sta else some {} with
    | none => (false, s)
    | some staCfg =>
      match if newMode.hasAp then fillApCfg s.conf.ap else some {} with
      | none => (false, s)
      | some apCfg => changeMode r s newMode staCfg apCfg

end EspTesting.Wifi
