import EspTesting.ForStd.Flags

/-!
# Device bits

The event group with the state bits of the device (`device.c`, `device_def.h`). The bits are
named that the modelled functions use.
-/

namespace EspTesting

/-- `EventBits_t` -/
abbrev EventBits := BitVec 32

/-- `BIT_WIFI_STA_CONNECTED` -/
abbrev bitWifiStaConnected : EventBits := Flags.bit 32 6
/-- `BIT_WIFI_STA_CONN_FAIL` -/
abbrev bitWifiStaConnFail : EventBits := Flags.bit 32 7
/-- `BIT_WIFI_AP_START` -/
abbrev bitWifiApStart : EventBits := Flags.bit 32 8
/-- `BIT_WIFI_CONNECTED` -/
abbrev bitWifiConnected : EventBits := Flags.bit 32 9
/-- `BIT_WIFI_AUTO_CONN` -/
abbrev bitWifiAutoConn : EventBits := Flags.bit 32 10

/-- `device_set_bits` -/
def deviceSetBits (bits val : EventBits) : EventBits := Flags.set bits val

/-- `device_clear_bits` -/
def deviceClearBits (bits val : EventBits) : EventBits := Flags.clear bits val

/-- The condition `device_get_bits() & val`. -/
def deviceHasBits (bits val : EventBits) : Bool := Flags.any bits val

end EspTesting
