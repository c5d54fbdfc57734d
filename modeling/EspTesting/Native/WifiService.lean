import EspTesting.Native.EspErr
import EspTesting.Native.DeviceBits

/-!
# Wi-Fi status

The event handler of the Wi-Fi service with the two functions that start and stop the driver
(`wifi_service.c`). The driver itself is not modelled: its events arrive in any order, and the
calls it gets are recorded.
-/

namespace EspTesting.Wifi

/-- `WIFI_MAX_RETRY` -/
abbrev wifiMaxRetry : Int := 10

/-- `esp_netif_ip_info_t`: the addresses of a got-IP event. -/
structure NetifIpInfo where
  ip : UInt32
  netmask : UInt32
  gw : UInt32
  deriving DecidableEq, Repr

/-- `dev_ip_info_t` -/
structure DevIpInfo where
  enable : Bool
  netmask : UInt32
  gateway : UInt32
  ip : UInt32
  dns : UInt32
  deriving DecidableEq, Repr

/-- The events of the base `WIFI_EVENT`, by their ids. -/
inductive WifiEventId where
  | staStart
  | staDisconnected
  | apStart
  | apStaConnected
  | staStop
  | apStaDisconnected
  /-- an id the handler does not name -/
  | other (eventId : Int)
  deriving DecidableEq, Repr

/-- An event, with its base, its id and the data that is read. -/
inductive WifiEvent where
  | wifi (eventId : WifiEventId)
  /-- `IP_EVENT_STA_GOT_IP` -/
  | gotIp (ipInfo : NetifIpInfo)
  /-- another event of the base `IP_EVENT` -/
  | otherIp (eventId : Int)
  /-- an event of another base -/
  | otherBase
  deriving DecidableEq, Repr

/-- A call made to the driver or to the event manager. -/
inductive WifiCall where
  /-- `esp_wifi_connect` -/
  | connect
  /-- `esp_wifi_start` -/
  | start
  /-- `esp_wifi_stop` -/
  | stop
  /-- `set_event(EVN_STA_CONNECTED, ctx)`, with what the context points to -/
  | staConnected (ctx : Option DevIpInfo)
  deriving DecidableEq, Repr

/-- The device bits, the counter of the handler, the settings its context points to (`none` if
    it is `NULL`) and the calls so far. -/
structure WifiState where
  bits : EventBits
  reconnectionCtrl : Int
  userCtx : Option DevIpInfo
  calls : List WifiCall
  deriving DecidableEq, Repr

/-- The state before the first event. -/
def WifiState.boot (bits : EventBits) (userCtx : Option DevIpInfo) : WifiState :=
  ⟨bits, 0, userCtx, []⟩

/-- The addresses of a got-IP event, stored in the settings. -/
def DevIpInfo.store (info : DevIpInfo) (ipInfo : NetifIpInfo) : DevIpInfo :=
  { info with ip := ipInfo.ip, gateway := ipInfo.gw, netmask := ipInfo.netmask }

/-- `wifi_event_handler` -/
def wifiEventHandler (s : WifiState) : WifiEvent → WifiState
  | .wifi .staStart =>
    if deviceHasBits s.bits bitWifiAutoConn then
      { s with reconnectionCtrl := 0, calls := s.calls ++ [.connect] }
    else s
  | .wifi .staDisconnected =>
    if deviceHasBits s.bits bitWifiAutoConn then
      if s.reconnectionCtrl < wifiMaxRetry then
        { s with
          calls := s.calls ++ [.connect]
          reconnectionCtrl := s.reconnectionCtrl + 1 }
      else
        -- no attempt is left
        { s with
          bits := deviceSetBits (deviceClearBits s.bits bitWifiStaConnected) bitWifiStaConnFail }
    else s
  | .wifi .apStart => { s with bits := deviceSetBits s.bits bitWifiApStart }
  | .wifi .apStaConnected => { s with bits := deviceSetBits s.bits bitWifiConnected }
  | .wifi .staStop =>
    { s with bits := deviceClearBits s.bits (bitWifiStaConnected ||| bitWifiAutoConn) }
  | .wifi .apStaDisconnected => { s with bits := deviceClearBits s.bits bitWifiConnected }
  | .wifi (.other _) => s
  | .gotIp ipInfo =>
    -- the settings are written if there are any, and the event points to them
    let ctx := s.userCtx.map (·.store ipInfo)
    { bits := deviceSetBits s.bits bitWifiStaConnected
      reconnectionCtrl := 0
      userCtx := ctx
      calls := s.calls ++ [.staConnected ctx] }
  | .otherIp _ => s
  | .otherBase => s

/-- `set_wifi_on`, where `esp_wifi_start` returns `err`. -/
def setWifiOn (s : WifiState) (err : EspErr) : Bool × WifiState :=
  (err = espOk,
    { s with bits := deviceSetBits s.bits bitWifiAutoConn, calls := s.calls ++ [.start] })

/-- `set_wifi_off`, where `esp_wifi_stop` returns `err`. -/
def setWifiOff (s : WifiState) (err : EspErr) : Bool × WifiState :=
  (err = espOk,
    { s with
      bits := deviceClearBits s.bits (bitWifiStaConnected ||| bitWifiAutoConn)
      calls := s.calls ++ [.stop] })

/-- An event delivered to the handler, or a call of the application. -/
inductive WifiAction where
  | event (e : WifiEvent)
  /-- `set_wifi_on`, with the result of the driver -/
  | on (err : EspErr)
  /-- `set_wifi_off`, with the result of the driver -/
  | off (err : EspErr)
  deriving DecidableEq, Repr

/-- The state after an event or a call. -/
def wifiStep (s : WifiState) : WifiAction → WifiState
  | .event e => wifiEventHandler s e
  | .on err => (setWifiOn s err).2
  | .off err => (setWifiOff s err).2

end EspTesting.Wifi
