import EspTesting.Native.CJsonPrint
import EspTesting.Native.St25dvNdefWrite

/-!
# The records of the firmware

The two kinds of record that the firmware writes to the tag (`st25dv_ndef.c`): the name of an app,
and an object of cJSON as text.
-/

namespace EspTesting.St25dv

open CJson (Item Doubles Hooks Stop nameBytes cJsonPrintUnformatted)
open Http (cString)

variable {D : Type} (F : Doubles D)

/-- `NDEF_ST25DV_TNF_MIME` -/
abbrev ndefSt25dvTnfMime : UInt8 := 0x02
/-- `NDEF_ST25DV_TNF_EXTERNAL` -/
abbrev ndefSt25dvTnfExternal : UInt8 := 0x04
/-- `NDEF_APP_LAUNCHER_TYPE` -/
def ndefAppLauncherType : List UInt8 := nameBytes "android.com:pkg"
/-- `NDEF_JSON_TYPE` -/
def ndefJsonType : List UInt8 := nameBytes "application/json"

/-- `st25dv_ndef_write_app_launcher_record` -/
def st25dvNdefWriteAppLauncherRecord (address : UInt16) (mb me : Bool) (appPackage : List UInt8)
    (tag : Tag) : EspErr × UInt16 × Tag :=
  let record : Std25dvNdefRecord := ⟨ndefSt25dvTnfExternal, ndefAppLauncherType, appPackage⟩
  (espOk, (st25dvNdefWriteContent address mb me record tag).2)

/-- `st25dv_ndef_write_json_record`. Without a text there is no string to write. -/
def st25dvNdefWriteJsonRecord (hooks : Hooks) (address : UInt16) (mb me : Bool)
    (jsonData : Item D) (tag : Tag) : Except Stop (EspErr × UInt16 × Tag) := do
  let json ← cJsonPrintUnformatted F hooks jsonData
  let record : Std25dvNdefRecord := ⟨ndefSt25dvTnfMime, ndefJsonType, cString json⟩
  return (espOk, (st25dvNdefWriteContent address mb me record tag).2)

end EspTesting.St25dv
