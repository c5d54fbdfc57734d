import EspTesting.ForStd.Loop

/-!
# OTA update from a stream

`ota_update_stream` and `check_header` (`ota_update_stream.c`) with the image header and
`read_u32_le` (`ota_internal.h`).

The input stream, the mbedtls calls and the callbacks are code of the caller or outside the
component and are parameters here. A call of `read` is represented by the bytes it stores: the
count it returns is their number, and no byte stands for an error, as `httpd_read` and
`uart_read` report it. The update also returns the log of what it read, checked and handed on.
-/

namespace EspTesting.Ota

/-- `BIN_SIZE` -/
abbrev binSizeMax : UInt32 := 0x120000
/-- `ESP_ENC_HEADER_MAGIC`, the four characters that are compared -/
abbrev espEncHeaderMagic : List UInt8 := [0x56, 0x45, 0x4E, 0x00]
/-- `AES_KEY_SIZE_BYTES` -/
abbrev aesKeySizeBytes : Nat := 256 / 8
/-- `sizeof(buf_in)` -/
abbrev bufInSize : Nat := 1024
/-- `sizeof(esp_enc_img_rsa_header_t)` -/
abbrev headerSize : Nat := 512

/-! ## The image header -/

/-- `read_u32_le` -/
def readU32Le (b : List UInt8) : UInt32 :=
  (b.getD 0 0).toUInt32 ||| ((b.getD 1 0).toUInt32 <<< 8) |||
    ((b.getD 2 0).toUInt32 <<< 16) ||| ((b.getD 3 0).toUInt32 <<< 24)

/-- `esp_enc_img_rsa_header_t`, without the reserved bytes at its end -/
structure EspEncImgRsaHeader where
  magic : List UInt8
  encGcmKey : List UInt8
  iv : List UInt8
  binSize : List UInt8
  authTag : List UInt8
  deriving DecidableEq, Repr

/-- The packed layout of the header: 4, 384, 16, 4 and 16 bytes. -/
def EspEncImgRsaHeader.ofBytes (raw : List UInt8) : EspEncImgRsaHeader where
  magic := raw.take 4
  encGcmKey := (raw.drop 4).take 384
  iv := (raw.drop 388).take 16
  binSize := (raw.drop 404).take 4
  authTag := (raw.drop 408).take 16

/-! ## The callbacks -/

/-- `ota_input_stream_t` -/
structure OtaInputStream (σ : Type _) where
  read : σ → Nat → List UInt8 × σ

/-- `ota_check_header_fn`; the length passed is that of the list. -/
abbrev OtaCheckHeaderFn (τ : Type _) := List UInt8 → τ → Bool × τ

/-- `ota_process_chunk_fn`; the length passed is that of the list. -/
abbrev OtaProcessChunkFn (τ : Type _) := List UInt8 → τ → Bool × τ

/-- The mbedtls calls of an update, with the embedded RSA key; `none` is a result other than
    zero. `pkDecrypt` gives the `actual_len` bytes it wrote, `gcmUpdate` the `decrypted_len`
    bytes, `gcmFinish` the tag. -/
structure Crypto (γ : Type _) where
  pkParseKey : Bool
  pkDecrypt : List UInt8 → Option (List UInt8)
  gcmSetkey : List UInt8 → Option γ
  gcmStarts : γ → List UInt8 → Option γ
  gcmUpdate : γ → List UInt8 → Option (List UInt8 × γ)
  gcmFinish : γ → Option (List UInt8)

variable {σ τ γ : Type _}

/-- `check_header` -/
def checkHeader : OtaCheckHeaderFn τ := fun headerRaw ctx =>
  if headerRaw.length < headerSize then (false, ctx)
  else
    let hdr := EspEncImgRsaHeader.ofBytes headerRaw
    if hdr.magic ≠ espEncHeaderMagic then (false, ctx)
    else
      let binSize := readU32Le hdr.binSize
      if binSize = 0 ∨ binSize > binSizeMax then (false, ctx)
      else (true, ctx)

/-! ## The update -/

/-- What an update does with the stream and the callbacks. -/
inductive OtaEvent where
  | headerRead (bytes : List UInt8)
  | headerChecked (accepted : Bool)
  | chunkRead (bytes : List UInt8)
  | chunkProcessed (data : List UInt8)
  deriving DecidableEq, Repr

/-- Steps 2 to 4 of `ota_update_stream`: the RSA key, the AES key and the GCM context. -/
def gcmSetup (crypto : Crypto γ) (header : EspEncImgRsaHeader) : Option γ :=
  if crypto.pkParseKey = false then none
  else
    match crypto.pkDecrypt header.encGcmKey with
    | none => none
    | some aesKey =>
      if aesKey.length ≠ aesKeySizeBytes then none
      else
        match crypto.gcmSetkey aesKey with
        | none => none
        | some gcm => crypto.gcmStarts gcm header.iv

/-- The variables of the loop of `ota_update_stream`; `res` is false once a check of the loop
    has left for `free_gcm`. -/
structure OtaLoop (σ τ γ : Type _) where
  stream : σ
  ctx : τ
  gcm : γ
  remaining : Nat
  res : Bool
  log : List OtaEvent

namespace OtaLoop

/-- The loop goes on. -/
def more (s : OtaLoop σ τ γ) : Bool := s.res && decide (0 < s.remaining)

/-- `chunk_len` -/
def chunkLen (remaining : Nat) : Nat :=
  if remaining > bufInSize then bufInSize else remaining

/-- One turn of the loop of `ota_update_stream`. -/
def chunkStep (input : OtaInputStream σ) (crypto : Crypto γ)
    (processChunk : OtaProcessChunkFn τ) (s : OtaLoop σ τ γ) : OtaLoop σ τ γ :=
  let (bufIn, stream) := input.read s.stream (chunkLen s.remaining)
  let s := { s with stream, log := s.log ++ [OtaEvent.chunkRead bufIn] }
  -- a short answer ends the update
  if bufIn.length ≠ chunkLen s.remaining then { s with res := false }
  else
    match crypto.gcmUpdate s.gcm bufIn with
    | none => { s with res := false }
    | some (bufOut, gcm) =>
      let (res, ctx) := processChunk bufOut s.ctx
      let s := { s with gcm, ctx, res, log := s.log ++ [OtaEvent.chunkProcessed bufOut] }
      -- `remaining` is not touched where the callback refuses the chunk
      if res then { s with remaining := s.remaining - chunkLen s.remaining } else s

/-- The bytes left to read, none once a check has failed. -/
def measure (s : OtaLoop σ τ γ) : Nat := if s.res then s.remaining else 0

end OtaLoop

/-- What an update returns, with the state it leaves behind and its log. -/
structure OtaResult (σ τ : Type _) where
  res : Bool
  stream : σ
  ctx : τ
  log : List OtaEvent

/-- Step 6 of `ota_update_stream`: the computed tag is that of the header. -/
def tagMatches (crypto : Crypto γ) (gcm : γ) (header : EspEncImgRsaHeader) : Bool :=
  match crypto.gcmFinish gcm with
  | none => false
  | some tagCheck => tagCheck == header.authTag

/-- The loop of `ota_update_stream`. -/
def readChunks (input : OtaInputStream σ) (crypto : Crypto γ)
    (processChunk : OtaProcessChunkFn τ) : OtaLoop σ τ γ → OtaLoop σ τ γ :=
  Loop.run OtaLoop.more (OtaLoop.chunkStep input crypto processChunk) OtaLoop.measure

/-- `ota_update_stream` -/
def otaUpdateStream (input : OtaInputStream σ) (crypto : Crypto γ)
    (checkHeader : OtaCheckHeaderFn τ) (processChunk : OtaProcessChunkFn τ)
    (stream : σ) (ctx : τ) : OtaResult σ τ :=
  let (raw, stream) := input.read stream headerSize
  let log := [OtaEvent.headerRead raw]
  -- the callback sees only a complete header
  if raw.length ≠ headerSize then { res := false, stream, ctx, log }
  else
    let (res, ctx) := checkHeader raw ctx
    let log := log ++ [OtaEvent.headerChecked res]
    if res = false then { res, stream, ctx, log }
    else
      let header := EspEncImgRsaHeader.ofBytes raw
      match gcmSetup crypto header with
      | none => { res := false, stream, ctx, log }
      | some gcm =>
        let remaining := (readU32Le header.binSize).toNat
        let s := readChunks input crypto processChunk
          { stream, ctx, gcm, remaining, res := true, log }
        -- the tag is computed only if the loop ended by itself
        { res := s.res && tagMatches crypto s.gcm header
          stream := s.stream, ctx := s.ctx, log := s.log }

end EspTesting.Ota
