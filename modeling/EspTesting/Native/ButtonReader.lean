import EspTesting.ForStd.Flags
import EspTesting.Native.DeviceBits

/-!
# Buttons

The reader of the three buttons (`button_reader.c`, `device_gpio.c`). The levels of the pins
are a function that may be another one at every poll; times are unsigned milliseconds. The
setup of the pins by the driver is not modelled.
-/

namespace EspTesting.Button

/-- `START_TIME` -/
abbrev startTime : UInt32 := 1000
/-- `DEBOUNCE_TIME` -/
abbrev debounceTime : UInt32 := 75
/-- `HELD_TIME` -/
abbrev heldTime : UInt32 := 800

/-- `BUT_MULTI_PRESS` -/
abbrev butMultiPress : EventBits := Flags.bit 32 6

/-- `GpioState` -/
inductive GpioState where
  | inactive
  | active
  | click
  | held
  deriving DecidableEq, Repr

/-- `GpioCtx`, without the state that nothing uses -/
structure GpioCtx where
  pinNum : Nat
  activeLevel : Bool
  startActiveTime : UInt32
  deriving DecidableEq, Repr

/-- The number of buttons. -/
abbrev butCount : Nat := 3

/-- `but_list` -/
abbrev ButList := Vector GpioCtx butCount

/-- `gpio_init_data_list`: the pins of the left, the right and the center button, with their
    active level. -/
def gpioInitDataList : Vector (Nat × Bool) butCount := #v[(40, false), (42, false), (41, false)]

/-- `device_conf_gpio_in` -/
def deviceConfGpioIn (pinNum : Nat) (activeLevel : Bool) : GpioCtx :=
  { pinNum, activeLevel, startActiveTime := startTime }

/-- The buttons after `device_gpio_init`. -/
def butListInit : ButList := gpioInitDataList.map fun conf => deviceConfGpioIn conf.1 conf.2

/-- `get_inp_state`, where `level` is `gpio_get_level` -/
def getInpState (conf : GpioCtx) (level : Nat → Bool) (curTime : UInt32) : GpioState × GpioCtx :=
  if conf.startActiveTime > curTime then (.inactive, conf)
  else
    let activeStateTime := curTime - conf.startActiveTime
    if level conf.pinNum = conf.activeLevel then
      (if activeStateTime > heldTime then .held else .active, conf)
    else if activeStateTime > debounceTime then (.click, conf)
    else
      -- the button is idle: an active state can begin now at the earliest
      (.inactive, { conf with startActiveTime := curTime })

/-- The variables of the loop over the buttons. -/
structure Scan where
  butList : ButList
  bits : EventBits
  held : Nat
  click : Nat
  deriving DecidableEq, Repr

/-- A pass of the loop over the buttons. -/
def scanButton (ms : UInt32) (level : Nat → Bool) (s : Scan) (i : Fin butCount) : Scan :=
  let (butVal, conf) := getInpState (s.butList.get i) level ms
  let s := { s with butList := s.butList.set i conf i.isLt }
  if butVal = .inactive then s
  else if butVal = .held then
    { s with bits := Flags.set s.bits (Flags.bit 32 (i * 2 + 1)), held := s.held + 1 }
  else if butVal = .click || s.held != 0 || s.click != 0 then
    -- an active button counts as clicked beside one in front of it
    { s with bits := Flags.set s.bits (Flags.bit 32 (i * 2)), click := s.click + 1 }
  else s

/-- The loop over the buttons. -/
def scanButtons (butList : ButList) (ms : UInt32) (level : Nat → Bool) : Scan :=
  (List.finRange butCount).foldl (scanButton ms level) ⟨butList, 0, 0, 0⟩

/-- `device_read_but_handler`, with the report that goes out with `EVN_BUT_PRESS` -/
def deviceReadButHandler (butList : ButList) (ms : UInt32) (level : Nat → Bool) :
    Option EventBits × ButList :=
  let s := scanButtons butList ms level
  if s.bits != 0 then
    let debounce := if s.held != 0 then heldTime else debounceTime
    let butList := s.butList.map fun conf => { conf with startActiveTime := ms + debounce }
    (some (if s.held + s.click > 1 then Flags.set s.bits butMultiPress else s.bits), butList)
  else (none, s.butList)

end EspTesting.Button
