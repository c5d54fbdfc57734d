import EspTesting.Native.EspErr

/-!
# Device memory

`read_flash` and `write_flash` (`device_memory.c`). The library of the flash is given: what its
calls return, what they do, and what its documentation says about both.
-/

namespace EspTesting.Flash

/-- `nvs_open_mode_t` -/
inductive NvsOpenMode where
  | readonly
  | readwrite
  deriving DecidableEq, Repr

/-- `SPACE_NAME` -/
abbrev spaceName : String := "nvs"

/-- A pointer to `size` bytes, `none` for `NULL`. -/
abbrev Buffer (size : UInt32) := Option (Vector UInt8 size.toNat)

/-- The library of the flash. A call that fails may do anything that the laws do not rule out. -/
structure Nvs (σ : Type) where
  /-- `nvs_open`, with what is in the variable for the handle behind it -/
  openSpace : String → NvsOpenMode → σ → EspErr × Nat × σ
  /-- `nvs_get_blob`, with the buffer and the length behind it -/
  getBlob : {n : Nat} → Nat → String → Vector UInt8 n → σ → EspErr × Vector UInt8 n × Nat × σ
  /-- `nvs_set_blob` -/
  setBlob : Nat → String → List UInt8 → σ → EspErr × σ
  /-- `nvs_commit` -/
  commit : Nat → σ → EspErr × σ
  /-- `nvs_close` -/
  close : Nat → σ → σ
  /-- The blob that is stored under a name. -/
  stored : σ → String → Option (List UInt8)
  stored_openSpace : ∀ space mode s, stored (openSpace space mode s).2.2 = stored s
  stored_close : ∀ handle s, stored (close handle s) = stored s
  /-- A blob is only read as a whole, to the begin of the buffer. -/
  getBlob_ok : ∀ {n : Nat} handle name (buf : Vector UInt8 n) s,
    (getBlob handle name buf s).1 = espOk → ∃ blob, stored s name = some blob ∧
      (getBlob handle name buf s).2.1.toList = blob ++ buf.toList.drop blob.length ∧
      (getBlob handle name buf s).2.2.1 = blob.length
  /-- A blob for which there is room is read. -/
  getBlob_of_le : ∀ {n : Nat} space mode name (buf : Vector UInt8 n) s blob,
    (openSpace space mode s).1 = espOk → stored (openSpace space mode s).2.2 name = some blob →
      blob.length ≤ n →
      (getBlob (openSpace space mode s).2.1 name buf (openSpace space mode s).2.2).1 = espOk
  /-- A blob that was set and committed is stored. -/
  stored_commit : ∀ handle name blob s, (setBlob handle name blob s).1 = espOk →
    (commit handle (setBlob handle name blob s).2).1 = espOk →
      stored (commit handle (setBlob handle name blob s).2).2 name = some blob

/-- A call for a blob, or for all that were set. -/
inductive NvsCall where
  | getBlob (name : String)
  | setBlob (name : String) (blob : List UInt8)
  | commit
  deriving DecidableEq, Repr

/-- The flash, and the calls for blobs that succeeded so far. -/
structure FlashState (σ : Type) where
  nvs : σ
  done : List NvsCall

/-- The calls that succeeded, behind one more call. -/
def noteCall (done : List NvsCall) (e : EspErr) (call : NvsCall) : List NvsCall :=
  if e = espOk then done ++ [call] else done

/-- An `int` as the `bool` that a function returns. -/
def toBool (e : EspErr) : Bool := e != 0

variable {σ : Type}

/-- `read_flash`, with the buffer behind it -/
def readFlash (nvs : Nvs σ) (dataName : String) (dataSize : UInt32) (dataBuf : Buffer dataSize)
    (s : FlashState σ) : Bool × Buffer dataSize × FlashState σ :=
  match dataBuf with
  | none => (toBool espErrInvalidArg, none, s)
  | some buf =>
    if dataSize = 0 then (toBool espErrInvalidArg, some buf, s)
    else
      let (e, nvsHandle, flash) := nvs.openSpace spaceName .readonly s.nvs
      if e ≠ espOk then (false, some buf, { s with nvs := nvs.close nvsHandle flash })
      else
        -- the length that is read is not looked at
        let (e, buf, _, flash) := nvs.getBlob nvsHandle dataName buf flash
        let done := noteCall s.done e (.getBlob dataName)
        if e ≠ espOk then (false, some buf, ⟨nvs.close nvsHandle flash, done⟩)
        else (true, some buf, ⟨nvs.close nvsHandle flash, done⟩)

/-- `write_flash` -/
def writeFlash (nvs : Nvs σ) (dataName : String) (dataSize : UInt32) (data : Buffer dataSize)
    (s : FlashState σ) : Bool × FlashState σ :=
  match data with
  | none => (toBool espErrInvalidArg, s)
  | some data =>
    if dataSize = 0 then (toBool espErrInvalidArg, s)
    else
      let (e, nvsHandle, flash) := nvs.openSpace spaceName .readwrite s.nvs
      if e ≠ espOk then (false, { s with nvs := nvs.close nvsHandle flash })
      else
        let (e, flash) := nvs.setBlob nvsHandle dataName data.toList flash
        let done := noteCall s.done e (.setBlob dataName data.toList)
        if e ≠ espOk then (false, ⟨nvs.close nvsHandle flash, done⟩)
        else
          let (e, flash) := nvs.commit nvsHandle flash
          let done := noteCall done e .commit
          if e ≠ espOk then (false, ⟨nvs.close nvsHandle flash, done⟩)
          else (true, ⟨nvs.close nvsHandle flash, done⟩)

end EspTesting.Flash
