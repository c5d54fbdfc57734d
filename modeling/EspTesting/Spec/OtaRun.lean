import Mathlib.Data.List.Basic
import EspTesting.ForStd.Memory
import EspTesting.ForStd.UInt
import EspTesting.Native.OtaUpdateStream

/-!
# Runs of an OTA update

What one turn of the loop of `ota_update_stream` does (`Turn`), and when the update reaches
the loop (`Ready`).

## Key results

- `turn_chunkStep`: a turn is one of four kinds
- `readChunks_step` / `readChunks_done`: the loop turn by turn
- `Ready.otaUpdateStream_eq` / `otaUpdateStream_of_not_ready`: an update reaches its loop, or it
  fails before
-/

namespace EspTesting.Ota

open Loop OtaLoop

variable {σ τ γ : Type _}

/-! ## The log -/

/-- The data handed to `process_chunk`, call by call. -/
def chunks (log : List OtaEvent) : List (List UInt8) :=
  log.flatMap fun e => match e with
    | .chunkProcessed data => [data]
    | _ => []

/-- The bytes read behind the header. -/
def payload (log : List OtaEvent) : List UInt8 :=
  log.flatMap fun e => match e with
    | .chunkRead bytes => bytes
    | _ => []

/-- The payload of two stretches of the log. -/
@[simp] theorem payload_append (log log' : List OtaEvent) :
    payload (log ++ log') = payload log ++ payload log' :=
  List.flatMap_append

/-! ## One turn of the loop -/

section Turn

variable (input : OtaInputStream σ) (crypto : Crypto γ) (processChunk : OtaProcessChunkFn τ)

/-- What a turn of the loop can do. -/
inductive Turn (s : OtaLoop σ τ γ) : OtaLoop σ τ γ → Prop where
  | short {bytes : List UInt8} {stream : σ}
      (hread : input.read s.stream (chunkLen s.remaining) = (bytes, stream))
      (hshort : bytes.length ≠ chunkLen s.remaining) :
      Turn s { s with stream, res := false, log := s.log ++ [.chunkRead bytes] }
  | undecrypted {bytes : List UInt8} {stream : σ}
      (hread : input.read s.stream (chunkLen s.remaining) = (bytes, stream))
      (hfull : bytes.length = chunkLen s.remaining)
      (hupdate : crypto.gcmUpdate s.gcm bytes = none) :
      Turn s { s with stream, res := false, log := s.log ++ [.chunkRead bytes] }
  | refused {bytes out : List UInt8} {stream : σ} {gcm : γ} {ctx : τ}
      (hread : input.read s.stream (chunkLen s.remaining) = (bytes, stream))
      (hfull : bytes.length = chunkLen s.remaining)
      (hupdate : crypto.gcmUpdate s.gcm bytes = some (out, gcm))
      (hchunk : processChunk out s.ctx = (false, ctx)) :
      Turn s { s with
        stream, gcm, ctx, res := false
        log := s.log ++ [.chunkRead bytes, .chunkProcessed out] }
  | accepted {bytes out : List UInt8} {stream : σ} {gcm : γ} {ctx : τ}
      (hread : input.read s.stream (chunkLen s.remaining) = (bytes, stream))
      (hfull : bytes.length = chunkLen s.remaining)
      (hupdate : crypto.gcmUpdate s.gcm bytes = some (out, gcm))
      (hchunk : processChunk out s.ctx = (true, ctx)) :
      Turn s { s with
        stream, gcm, ctx, res := true, remaining := s.remaining - chunkLen s.remaining
        log := s.log ++ [.chunkRead bytes, .chunkProcessed out] }

/-- A turn of the loop reads one chunk and acts on the answer. -/
theorem turn_chunkStep (s : OtaLoop σ τ γ) :
    Turn input crypto processChunk s (chunkStep input crypto processChunk s) := by
  obtain ⟨bytes, stream, hread⟩ : ∃ bytes stream,
    input.read s.stream (chunkLen s.remaining) = (bytes, stream) := ⟨_, _, rfl⟩
  -- the checks of the turn, in their order
  by_cases hfull : bytes.length = chunkLen s.remaining
  · cases hupdate : crypto.gcmUpdate s.gcm bytes with
    | none =>
      have hstep : Turn input crypto processChunk s _ := .undecrypted hread hfull hupdate
      simpa [chunkStep, hread, hfull, hupdate] using hstep
    | some r =>
      obtain ⟨out, gcm⟩ := r
      obtain ⟨res, ctx, hchunk⟩ : ∃ res ctx, processChunk out s.ctx = (res, ctx) := ⟨_, _, rfl⟩
      cases res with
      | false => simpa [chunkStep, hread, hfull, hupdate, hchunk] using
          Turn.refused hread hfull hupdate hchunk
      | true => simpa [chunkStep, hread, hfull, hupdate, hchunk] using
          Turn.accepted hread hfull hupdate hchunk
  · have hstep : Turn input crypto processChunk s _ := .short hread hfull
    simpa [chunkStep, hread, hfull] using hstep

/-- A chunk is what remains, and 1024 bytes at most. -/
theorem chunkLen_eq_min (remaining : Nat) : chunkLen remaining = min remaining 1024 := by
  have h1024 : bufInSize = 1024 := rfl
  unfold chunkLen
  split <;> omega

/-- The loop goes on while nothing failed and bytes remain. -/
theorem more_eq_true_iff {s : OtaLoop σ τ γ} :
    s.more = true ↔ s.res = true ∧ 0 < s.remaining := by
  simp [more]

/-- A failed check or a chunk done brings the end of the loop closer. -/
theorem decreases_measure :
    Decreases more (chunkStep input crypto processChunk) OtaLoop.measure := by
  intro s hmore
  obtain ⟨hres, hpos⟩ := more_eq_true_iff.mp hmore
  have hlen := chunkLen_eq_min s.remaining
  have hturn := turn_chunkStep input crypto processChunk s
  revert hturn
  generalize chunkStep input crypto processChunk s = s'
  intro hturn
  -- a turn that fails takes the measure to zero, the other one takes off a chunk
  cases hturn with
  | short | undecrypted | refused => simp [OtaLoop.measure, hres, hpos]
  | accepted =>
    simp only [OtaLoop.measure, hres, if_true]
    omega

variable {input crypto processChunk}

/-- The loop begins with a turn. -/
theorem readChunks_step {s : OtaLoop σ τ γ} (h : s.more = true) :
    readChunks input crypto processChunk s =
      readChunks input crypto processChunk (chunkStep input crypto processChunk s) :=
  run_step (decreases_measure input crypto processChunk) h

/-- The loop is over. -/
theorem readChunks_done {s : OtaLoop σ τ γ} (h : s.more = false) :
    readChunks input crypto processChunk s = s :=
  run_done h

/-- What every turn keeps holds where the loop ends. -/
theorem readChunks_invariant {I : OtaLoop σ τ γ → Prop}
    (hturn : ∀ s s', s.more = true → Turn input crypto processChunk s s' → I s → I s')
    {s : OtaLoop σ τ γ} (hs : I s) : I (readChunks input crypto processChunk s) := by
  obtain ⟨n, _, hexit⟩ := exits_run (decreases_measure input crypto processChunk) s
  exact hexit.invariant
    (fun s hmore => hturn s _ hmore (turn_chunkStep input crypto processChunk s)) hs

end Turn

/-! ## The way to the loop -/

/-- The header was read in full, it passes the check, and the keys in it set up the cipher. -/
structure Ready (input : OtaInputStream σ) (crypto : Crypto γ)
    (checkHeader : OtaCheckHeaderFn τ) (stream : σ) (ctx : τ) (gcm : γ) : Prop where
  full : (input.read stream headerSize).1.length = headerSize
  accepted : (checkHeader (input.read stream headerSize).1 ctx).1 = true
  setup : gcmSetup crypto (.ofBytes (input.read stream headerSize).1) = some gcm

section Update

variable (input : OtaInputStream σ) (crypto : Crypto γ) (checkHeader : OtaCheckHeaderFn τ)
  (processChunk : OtaProcessChunkFn τ)

/-- The loop of an update as it starts. -/
def firstTurn (stream : σ) (ctx : τ) (gcm : γ) : OtaLoop σ τ γ :=
  let raw := (input.read stream headerSize).1
  { stream := (input.read stream headerSize).2
    ctx := (checkHeader raw ctx).2
    gcm
    remaining := (readU32Le (EspEncImgRsaHeader.ofBytes raw).binSize).toNat
    res := true
    log := [.headerRead raw, .headerChecked true] }

variable {input crypto checkHeader processChunk} {stream : σ} {ctx : τ}

/-- A stream that is ready: the header, the loop and the end. -/
theorem Ready.otaUpdateStream_eq {gcm : γ} (h : Ready input crypto checkHeader stream ctx gcm) :
    otaUpdateStream input crypto checkHeader processChunk stream ctx =
      let s := readChunks input crypto processChunk (firstTurn input checkHeader stream ctx gcm)
      { res := s.res && tagMatches crypto s.gcm (.ofBytes (input.read stream headerSize).1)
        stream := s.stream, ctx := s.ctx, log := s.log } := by
  obtain ⟨hfull, haccepted, hsetup⟩ := h
  simp [otaUpdateStream, hfull, haccepted, hsetup, firstTurn]

/-- An update that is not ready for its loop fails without a chunk handed on. -/
theorem otaUpdateStream_of_not_ready
    (h : ¬ ∃ gcm, Ready input crypto checkHeader stream ctx gcm) :
    (otaUpdateStream input crypto checkHeader processChunk stream ctx).res = false ∧
      chunks (otaUpdateStream input crypto checkHeader processChunk stream ctx).log = [] := by
  -- whichever check fails, the log has no chunk yet
  by_cases hfull : (input.read stream headerSize).1.length = headerSize
  · cases haccepted : (checkHeader (input.read stream headerSize).1 ctx).1 with
    | false => simp [otaUpdateStream, hfull, haccepted, chunks]
    | true =>
      cases hsetup : gcmSetup crypto (.ofBytes (input.read stream headerSize).1) with
      | none => simp [otaUpdateStream, hfull, haccepted, hsetup, chunks]
      | some gcm => exact absurd ⟨gcm, hfull, haccepted, hsetup⟩ h
  · simp [otaUpdateStream, hfull, chunks]

end Update

/-! ## The header check -/

/-- `read_u32_le` of four bytes is their little-endian number. -/
theorem readU32Le_toNat {b : List UInt8} (h : b.length = 4) :
    (readU32Le b).toNat = Mem.leValue b := by
  obtain ⟨b₀, b, rfl⟩ := List.exists_cons_of_length_eq_add_one h
  obtain ⟨b₁, b₂, b₃, rfl⟩ := List.length_eq_three.mp (Nat.succ.inj h)
  simp only [readU32Le, List.getD_cons_zero, List.getD_cons_succ, UInt32.toNat_join_bytes,
    Mem.leValue]
  omega

/-- The size field of a complete header. -/
theorem length_binSize {headerRaw : List UInt8} (h : headerSize ≤ headerRaw.length) :
    (EspEncImgRsaHeader.ofBytes headerRaw).binSize.length = 4 := by
  have h512 : headerSize = 512 := rfl
  simp [EspEncImgRsaHeader.ofBytes]
  omega

/-- An accepted header is complete and names a size from 1 to `BIN_SIZE`. -/
theorem checkHeader_eq_true_iff {headerRaw : List UInt8} {ctx : τ} :
    (checkHeader headerRaw ctx).1 = true ↔
      headerSize ≤ headerRaw.length ∧
      (EspEncImgRsaHeader.ofBytes headerRaw).magic = espEncHeaderMagic ∧
      0 < Mem.leValue (EspEncImgRsaHeader.ofBytes headerRaw).binSize ∧
      Mem.leValue (EspEncImgRsaHeader.ofBytes headerRaw).binSize ≤ binSizeMax.toNat := by
  -- the checks in their order: the length, the magic, the size
  by_cases hlen : headerRaw.length < headerSize
  · simp only [checkHeader, hlen, if_true, Bool.false_eq_true, false_iff]
    omega
  have hsize := readU32Le_toNat (length_binSize (Nat.le_of_not_lt hlen))
  by_cases hmagic : (EspEncImgRsaHeader.ofBytes headerRaw).magic = espEncHeaderMagic
  · -- what is left of the check is the range of the size
    simp only [checkHeader, hlen, hmagic, if_false, ne_eq, not_true_eq_false, true_and,
      Nat.le_of_not_lt hlen, ← hsize]
    generalize readU32Le (EspEncImgRsaHeader.ofBytes headerRaw).binSize = size
    have hbad : size = 0 ∨ size > binSizeMax ↔ size.toNat = 0 ∨ binSizeMax.toNat < size.toNat :=
      or_congr UInt32.toNat_inj.symm UInt32.lt_iff_toNat_lt
    by_cases hrange : size = 0 ∨ size > binSizeMax
    · rw [if_pos hrange]
      simp only [Bool.false_eq_true, false_iff]
      have := hbad.mp hrange
      omega
    · rw [if_neg hrange]
      simp only [true_iff]
      have := mt hbad.mpr hrange
      omega
  · simp [checkHeader, hlen, hmagic]

/-- `check_header` leaves the context of the callbacks alone. -/
@[simp] theorem checkHeader_snd (headerRaw : List UInt8) (ctx : τ) :
    (checkHeader headerRaw ctx).2 = ctx := by
  simp only [checkHeader]
  split
  · rfl
  · split
    · rfl
    · split <;> rfl

end EspTesting.Ota
