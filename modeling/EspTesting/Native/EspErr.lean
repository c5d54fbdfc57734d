/-!
# Error codes

`esp_err_t` and the codes of ESP-IDF the modelled functions use.
-/

namespace EspTesting

/-- `esp_err_t` -/
abbrev EspErr := Int

/-- `ESP_OK` -/
abbrev espOk : EspErr := 0
/-- `ESP_FAIL` -/
abbrev espFail : EspErr := -1
/-- `ESP_ERR_INVALID_ARG` -/
abbrev espErrInvalidArg : EspErr := 0x102
/-- `ESP_ERR_TIMEOUT` -/
abbrev espErrTimeout : EspErr := 0x107
/-- `ESP_ERR_NVS_NOT_FOUND` -/
abbrev espErrNvsNotFound : EspErr := 0x1102
/-- `ESP_ERR_NVS_INVALID_LENGTH` -/
abbrev espErrNvsInvalidLength : EspErr := 0x110c
/-- `ESP_ERR_HTTPD_HANDLERS_FULL` -/
abbrev espErrHttpdHandlersFull : EspErr := 0xb001
/-- `ESP_ERR_HTTPD_HANDLER_EXISTS` -/
abbrev espErrHttpdHandlerExists : EspErr := 0xb002

end EspTesting
