import EspTesting.ForStd.ListStream
import EspTesting.Spec.OtaRun

/-!
# Integrity of an OTA update

`process_chunk` only ever sees the decryption of the first bytes behind an accepted header,
and `ota_update_stream` returns true exactly if all of the image was read, decrypted and
accepted and its tag is that of the header.

## Key results

- `Decrypting.turn`: what a turn of the loop keeps
- `readChunks_res_iff`: when the loop ends without a failed check
- `otaUpdateStream_integrity`
-/

namespace EspTesting.Ota

open Loop OtaLoop ListStream

variable {σ τ γ : Type _} {input : OtaInputStream σ} {crypto : Crypto γ}
  {processChunk : OtaProcessChunkFn τ}

/-! ## What has been handed on -/

/-- With `size` bytes to read behind the `log` of the header, the chunks handed on so far
    decrypt the first bytes read. -/
structure Decrypting (crypto : Crypto γ) (gcm : γ) (log : List OtaEvent) (size : Nat)
    (s : OtaLoop σ τ γ) : Prop where
  behind : log <+: s.log
  small : ∀ data ∈ chunks s.log, data.length ≤ bufInSize
  decrypted : ∃ taken rest, payload s.log = taken ++ rest ∧
    crypto.gcmUpdate gcm taken = some ((chunks s.log).flatten, s.gcm) ∧
    taken.length ≤ size ∧ (s.res = true → rest = [] ∧ taken.length + s.remaining = size)

variable {gcm : γ} {log : List OtaEvent} {size : Nat}

/-- The two ways out of the loop that hand nothing on. -/
theorem Decrypting.stop {s : OtaLoop σ τ γ} (hs : Decrypting crypto gcm log size s)
    (bytes : List UInt8) (stream : σ) :
    Decrypting crypto gcm log size
      { s with stream, res := false, log := s.log ++ [.chunkRead bytes] } := by
  obtain ⟨taken, rest, hpayload, hupdate, hsize, -⟩ := hs.decrypted
  have hchunks : chunks (s.log ++ [.chunkRead bytes]) = chunks s.log := by simp [chunks]
  refine ⟨hs.behind.trans (List.prefix_append ..), ?_, taken, rest ++ bytes, ?_, ?_, hsize, ?_⟩
  · rw [hchunks]
    exact hs.small
  · simp only [payload_append, hpayload, List.append_assoc]
    simp [payload]
  · rw [hchunks]
    exact hupdate
  · simp

/-- What the log gains when a chunk is handed on. -/
theorem Decrypting.handOn (hcipher : Streaming crypto.gcmUpdate) {s s' : OtaLoop σ τ γ}
    (hs : Decrypting crypto gcm log size s) (hres : s.res = true) {bytes out : List UInt8}
    (hfull : bytes.length = chunkLen s.remaining)
    (hupdate : crypto.gcmUpdate s.gcm bytes = some (out, s'.gcm))
    (hlog : s'.log = s.log ++ [.chunkRead bytes, .chunkProcessed out])
    (hremaining : s'.res = true → s'.remaining = s.remaining - chunkLen s.remaining) :
    Decrypting crypto gcm log size s' := by
  obtain ⟨taken, rest, hpayload, htaken, -, hrest⟩ := hs.decrypted
  obtain ⟨rfl, htotal⟩ := hrest hres
  -- everything read so far was decrypted, and these bytes follow it
  have hlen := chunkLen_eq_min s.remaining
  have hout := hcipher.length _ _ _ _ hupdate
  have hchunks : chunks s'.log = chunks s.log ++ [out] := by simp [hlog, chunks]
  refine ⟨?_, ?_, taken ++ bytes, [], ?_, ?_, ?_, ?_⟩
  · rw [hlog]
    exact hs.behind.trans (List.prefix_append ..)
  · rw [hchunks]
    intro data hdata
    rcases List.mem_append.mp hdata with hdata | hdata
    · exact hs.small data hdata
    · have h1024 : bufInSize = 1024 := rfl
      rw [List.mem_singleton.mp hdata]
      omega
  · simp only [hlog, payload_append, hpayload]
    simp [payload]
  · rw [hchunks]
    simpa using hcipher.append_eq_some htaken hupdate
  · rw [List.length_append]
    omega
  · intro hgo
    have := hremaining hgo
    rw [List.length_append]
    exact ⟨rfl, by omega⟩

/-- A turn of the loop goes on decrypting. -/
theorem Decrypting.turn (hcipher : Streaming crypto.gcmUpdate) {s s' : OtaLoop σ τ γ}
    (hmore : s.more = true) (hturn : Turn input crypto processChunk s s')
    (hs : Decrypting crypto gcm log size s) : Decrypting crypto gcm log size s' := by
  obtain ⟨hres, _⟩ := more_eq_true_iff.mp hmore
  cases hturn with
  | short hread hshort => exact hs.stop _ _
  | undecrypted hread hfull hupdate => exact hs.stop _ _
  | refused hread hfull hupdate hchunk =>
    exact hs.handOn hcipher hres hfull hupdate rfl (fun h => absurd h Bool.false_ne_true)
  | accepted hread hfull hupdate hchunk =>
    exact hs.handOn hcipher hres hfull hupdate rfl (fun _ => rfl)

/-! ## When the loop succeeds -/

/-- From `stream`, `gcm` and `ctx` on, the reads of the last `n` bytes are full, the cipher
    takes every chunk and the callback accepts it. The chunks read are `ins`, and the cipher is
    left in the last context. -/
inductive ChunksOk (input : OtaInputStream σ) (crypto : Crypto γ)
    (processChunk : OtaProcessChunkFn τ) : Nat → σ → γ → τ → List (List UInt8) → γ → Prop where
  | nil {stream : σ} {gcm : γ} {ctx : τ} :
      ChunksOk input crypto processChunk 0 stream gcm ctx [] gcm
  | cons {n : Nat} {stream stream' : σ} {gcm gcm' gcm'' : γ} {ctx ctx' : τ}
      {bytes out : List UInt8} {ins : List (List UInt8)} (hpos : 0 < n)
      (hread : input.read stream (min n 1024) = (bytes, stream'))
      (hfull : bytes.length = min n 1024)
      (hupdate : crypto.gcmUpdate gcm bytes = some (out, gcm'))
      (hchunk : processChunk out ctx = (true, ctx'))
      (rest : ChunksOk input crypto processChunk (n - min n 1024) stream' gcm' ctx' ins gcm'') :
      ChunksOk input crypto processChunk n stream gcm ctx (bytes :: ins) gcm''

/-- The chunks read are all of the payload. -/
theorem ChunksOk.length_flatten {n : Nat} {stream : σ} {gcm gcm' : γ} {ctx : τ}
    {ins : List (List UInt8)}
    (h : ChunksOk input crypto processChunk n stream gcm ctx ins gcm') :
    ins.flatten.length = n := by
  induction h with
  | nil => rfl
  | cons hpos hread hfull hupdate hchunk rest ih =>
    rw [List.flatten_cons, List.length_append]
    omega

/-- The cipher has taken the payload as if in one piece. -/
theorem ChunksOk.update_flatten (hcipher : Streaming crypto.gcmUpdate) {n : Nat} {stream : σ}
    {gcm gcm' : γ} {ctx : τ} {ins : List (List UInt8)}
    (h : ChunksOk input crypto processChunk n stream gcm ctx ins gcm') :
    ∃ plain, crypto.gcmUpdate gcm ins.flatten = some (plain, gcm') := by
  induction h with
  | nil => exact ⟨[], hcipher.nil _⟩
  | cons hpos hread hfull hupdate hchunk rest ih =>
    obtain ⟨plain, hplain⟩ := ih
    exact ⟨_, hcipher.append_eq_some hupdate hplain⟩

/-- A loop that goes well ends without a failed check. -/
theorem ChunksOk.readChunks {n : Nat} {stream : σ} {gcm gcm' : γ} {ctx : τ}
    {ins : List (List UInt8)}
    (h : ChunksOk input crypto processChunk n stream gcm ctx ins gcm') (log : List OtaEvent) :
    (readChunks input crypto processChunk ⟨stream, ctx, gcm, n, true, log⟩).res = true ∧
      (readChunks input crypto processChunk ⟨stream, ctx, gcm, n, true, log⟩).gcm = gcm' := by
  induction h generalizing log with
  | nil => rw [readChunks_done (by simp [more])]; exact ⟨rfl, rfl⟩
  | cons hpos hread hfull hupdate hchunk rest ih =>
    rw [readChunks_step (by simp [more, hpos])]
    simp only [chunkStep, chunkLen_eq_min, hread, hfull, hupdate, hchunk, ne_eq, not_true_eq_false,
      if_false, if_true]
    exact ih _

/-- A loop in which a check has failed leaves at once. -/
theorem res_eq_false_of_exits {s s' : OtaLoop σ τ γ} {n : Nat} (hs : s.res = false)
    (h : Exits more (chunkStep input crypto processChunk) n s s') : s'.res = false :=
  h.invariant (I := fun s => s.res = false) (fun s hmore hres => by simp [more, hres] at hmore) hs

/-- A loop that ends without a failed check went well. -/
theorem chunksOk_of_exits {s s' : OtaLoop σ τ γ} {n : Nat}
    (h : Exits more (chunkStep input crypto processChunk) n s s') (hs : s.res = true)
    (hs' : s'.res = true) :
    ∃ ins, ChunksOk input crypto processChunk s.remaining s.stream s.gcm s.ctx ins s'.gcm := by
  induction h with
  | @done s hdone =>
    -- the loop leaves with no check failed, so nothing remains
    have hzero : s.remaining = 0 := by simpa [more, hs] using hdone
    exact ⟨[], hzero ▸ .nil⟩
  | @step n s s' hmore hrest ih =>
    obtain ⟨_, hpos⟩ := more_eq_true_iff.mp hmore
    have hturn := turn_chunkStep input crypto processChunk s
    revert hturn hrest ih
    generalize chunkStep input crypto processChunk s = t
    intro hrest ih hturn
    cases hturn with
    | short | undecrypted | refused =>
      -- after a failed check the loop leaves with it
      have hfalse := res_eq_false_of_exits rfl hrest
      rw [hs'] at hfalse
      contradiction
    | accepted hread hfull hupdate hchunk =>
      obtain ⟨ins, hins⟩ := ih rfl hs'
      rw [chunkLen_eq_min] at hread hfull
      simp only [chunkLen_eq_min] at hins
      exact ⟨_, .cons hpos hread hfull hupdate hchunk hins⟩

/-- The loop ends without a failed check exactly if every chunk goes well. -/
theorem readChunks_res_iff {s : OtaLoop σ τ γ} (hs : s.res = true) :
    (readChunks input crypto processChunk s).res = true ↔
      ∃ ins, ChunksOk input crypto processChunk s.remaining s.stream s.gcm s.ctx ins
        (readChunks input crypto processChunk s).gcm := by
  constructor
  · obtain ⟨n, -, hexit⟩ := exits_run (decreases_measure input crypto processChunk) s
    exact chunksOk_of_exits hexit hs
  · intro ⟨ins, hins⟩
    obtain ⟨stream, ctx, gcm, n, res, log⟩ := s
    obtain rfl : res = true := hs
    exact (hins.readChunks log).1

/-! ## The whole update -/

/-- Behind a log without a chunk, every chunk has that log in front of it. -/
theorem prefix_of_chunk {log₀ log pre post : List OtaEvent} {data : List UInt8}
    (hlog₀ : chunks log₀ = []) (hbehind : log₀ <+: log)
    (hsplit : log = pre ++ .chunkProcessed data :: post) : log₀ <+: pre := by
  have hpre : pre <+: log := hsplit ▸ List.prefix_append ..
  by_cases hlen : log₀.length ≤ pre.length
  · exact List.prefix_of_prefix_length_le hbehind hpre hlen
  · -- otherwise the chunk is in the log that has none
    have hchunk : pre ++ [.chunkProcessed data] <+: log := ⟨post, by simp [hsplit]⟩
    have hinside := List.prefix_of_prefix_length_le hchunk hbehind (by simp; omega)
    obtain ⟨rest, hrest⟩ := hinside
    rw [← hrest] at hlog₀
    simp [chunks] at hlog₀

theorem tagMatches_iff {gcm : γ} {header : EspEncImgRsaHeader} :
    tagMatches crypto gcm header = true ↔ crypto.gcmFinish gcm = some header.authTag := by
  unfold tagMatches
  cases crypto.gcmFinish gcm <;> simp

variable {stream : σ} {ctx : τ} {gcm : γ}

/-- The loop starts behind the header and is given the size in it. -/
theorem Ready.firstTurn_eq (h : Ready input crypto checkHeader stream ctx gcm) :
    firstTurn input checkHeader stream ctx gcm =
      { stream := (input.read stream headerSize).2
        ctx, gcm, res := true
        remaining :=
          Mem.leValue (EspEncImgRsaHeader.ofBytes (input.read stream headerSize).1).binSize
        log := [.headerRead (input.read stream headerSize).1, .headerChecked true] } := by
  simp only [firstTurn, checkHeader_snd,
    readU32Le_toNat (length_binSize (Nat.le_of_eq h.full.symm))]

/-- Where the loop of an update leaves, what it handed on is decrypted. -/
theorem Ready.decrypting (hcipher : Streaming crypto.gcmUpdate)
    (h : Ready input crypto checkHeader stream ctx gcm) :
    Decrypting crypto gcm [.headerRead (input.read stream headerSize).1, .headerChecked true]
      (Mem.leValue (EspEncImgRsaHeader.ofBytes (input.read stream headerSize).1).binSize)
      (readChunks input crypto processChunk (firstTurn input checkHeader stream ctx gcm)) := by
  refine readChunks_invariant (fun s s' hmore hturn => Decrypting.turn hcipher hmore hturn) ?_
  rw [h.firstTurn_eq]
  refine ⟨List.prefix_rfl, by simp [chunks], [], [], by simp [payload], ?_, Nat.zero_le _, ?_⟩
  · simpa [chunks] using hcipher.nil gcm
  · simp

/-- An update whose loop is reached returns true exactly if all chunks go well and the tag is
    that of the header. -/
theorem Ready.res_iff (h : Ready input crypto checkHeader stream ctx gcm) :
    (otaUpdateStream input crypto checkHeader processChunk stream ctx).res = true ↔
      ∃ ins gcm', ChunksOk input crypto processChunk
          (Mem.leValue (EspEncImgRsaHeader.ofBytes (input.read stream headerSize).1).binSize)
          (input.read stream headerSize).2 gcm ctx ins gcm' ∧
        crypto.gcmFinish gcm' =
          some (EspEncImgRsaHeader.ofBytes (input.read stream headerSize).1).authTag := by
  rw [h.otaUpdateStream_eq]
  simp only [Bool.and_eq_true, tagMatches_iff, h.firstTurn_eq]
  constructor
  · intro ⟨hres, htag⟩
    obtain ⟨ins, hins⟩ := (readChunks_res_iff rfl).mp hres
    exact ⟨ins, _, hins, htag⟩
  · intro ⟨ins, gcm', hins, htag⟩
    obtain ⟨hres, hgcm⟩ := hins.readChunks
      [.headerRead (input.read stream headerSize).1, .headerChecked true]
    exact ⟨hres, hgcm ▸ htag⟩

theorem Ready.log_eq (h : Ready input crypto checkHeader stream ctx gcm) :
    (otaUpdateStream input crypto checkHeader processChunk stream ctx).log =
      (readChunks input crypto processChunk (firstTurn input checkHeader stream ctx gcm)).log :=
  congrArg OtaResult.log h.otaUpdateStream_eq

/-- No chunk is handed on before the header is accepted. -/
theorem checked_before_chunk (hcipher : Streaming crypto.gcmUpdate) {pre post : List OtaEvent}
    {data : List UInt8} (hsplit : (otaUpdateStream input crypto checkHeader processChunk stream
      ctx).log = pre ++ .chunkProcessed data :: post) : .headerChecked true ∈ pre := by
  by_cases hready : ∃ gcm, Ready input crypto checkHeader stream ctx gcm
  · obtain ⟨gcm, hready⟩ := hready
    have hbehind : [.headerRead (input.read stream headerSize).1, .headerChecked true] <+:
        (readChunks input crypto processChunk
          (firstTurn input checkHeader stream ctx gcm)).log :=
      (hready.decrypting hcipher).behind
    rw [← hready.log_eq] at hbehind
    exact (prefix_of_chunk (by simp [chunks]) hbehind hsplit).subset (by simp)
  · have hnone : chunks (otaUpdateStream input crypto checkHeader processChunk stream
        ctx).log = [] := (otaUpdateStream_of_not_ready hready).2
    rw [hsplit] at hnone
    simp [chunks] at hnone

/-- An update returns true exactly if all of the image is read, decrypted and accepted and its
    tag is that of the header. -/
theorem res_iff (hcipher : Streaming crypto.gcmUpdate) :
    (otaUpdateStream input crypto checkHeader processChunk stream ctx).res = true ↔
      ∃ gcm gcm' ins plain, Ready input crypto checkHeader stream ctx gcm ∧
        ChunksOk input crypto processChunk
          (Mem.leValue (EspEncImgRsaHeader.ofBytes (input.read stream headerSize).1).binSize)
          (input.read stream headerSize).2 gcm ctx ins gcm' ∧
        ins.flatten.length =
          Mem.leValue (EspEncImgRsaHeader.ofBytes (input.read stream headerSize).1).binSize ∧
        crypto.gcmUpdate gcm ins.flatten = some (plain, gcm') ∧
        crypto.gcmFinish gcm' =
          some (EspEncImgRsaHeader.ofBytes (input.read stream headerSize).1).authTag := by
  constructor
  · intro hres
    by_cases hready : ∃ gcm, Ready input crypto checkHeader stream ctx gcm
    · obtain ⟨gcm, hready⟩ := hready
      obtain ⟨ins, gcm', hins, htag⟩ := hready.res_iff.mp hres
      obtain ⟨plain, hplain⟩ := hins.update_flatten hcipher
      exact ⟨gcm, gcm', ins, plain, hready, hins, hins.length_flatten, hplain, htag⟩
    · rw [(otaUpdateStream_of_not_ready hready).1] at hres
      contradiction
  · intro hsuccess
    obtain ⟨gcm, gcm', ins, plain, hready, hins, _, _, htag⟩ := hsuccess
    exact hready.res_iff.mpr ⟨ins, gcm', hins, htag⟩

/-- The integrity of an update. -/
theorem otaUpdateStream_integrity (hcipher : Streaming crypto.gcmUpdate) (stream : σ) (ctx : τ) :
    let raw := (input.read stream headerSize).1
    let header := EspEncImgRsaHeader.ofBytes raw
    let binSize := Mem.leValue header.binSize
    let r := otaUpdateStream input crypto checkHeader processChunk stream ctx
    (∀ pre data post, r.log = pre ++ .chunkProcessed data :: post →
      .headerChecked true ∈ pre) ∧
    (∀ data ∈ chunks r.log, data.length ≤ 1024) ∧
    (chunks r.log = [] ∨ binSize ≤ binSizeMax.toNat ∧
      (chunks r.log).flatten.length ≤ binSize ∧
      ∃ gcm gcm' taken, gcmSetup crypto header = some gcm ∧ taken <+: payload r.log ∧
        crypto.gcmUpdate gcm taken = some ((chunks r.log).flatten, gcm')) ∧
    (∀ s : OtaLoop σ τ γ, Terminates more (chunkStep input crypto processChunk) s) ∧
    (r.res = true ↔ ∃ gcm gcm' ins plain,
      Ready input crypto checkHeader stream ctx gcm ∧
      ChunksOk input crypto processChunk binSize (input.read stream headerSize).2 gcm ctx ins
        gcm' ∧
      ins.flatten.length = binSize ∧
      crypto.gcmUpdate gcm ins.flatten = some (plain, gcm') ∧
      crypto.gcmFinish gcm' = some header.authTag) := by
  intro raw header binSize r
  have hterminates : ∀ s : OtaLoop σ τ γ,
      Terminates more (chunkStep input crypto processChunk) s := by
    intro s
    obtain ⟨n, _, hexit⟩ := exits_run (decreases_measure input crypto processChunk) s
    exact ⟨n, _, hexit⟩
  by_cases hready : ∃ gcm, Ready input crypto checkHeader stream ctx gcm
  · obtain ⟨gcm, hready⟩ := hready
    obtain ⟨-, hsmall, taken, rest, hpayload, htaken, hsize, -⟩ :
      Decrypting crypto gcm [.headerRead raw, .headerChecked true] binSize
        (readChunks input crypto processChunk (firstTurn input checkHeader stream ctx gcm)) :=
      hready.decrypting hcipher
    rw [← hready.log_eq] at hsmall hpayload htaken
    have hmax : binSize ≤ binSizeMax.toNat := (checkHeader_eq_true_iff.mp hready.accepted).2.2.2
    rw [← hcipher.length _ _ _ _ htaken] at hsize
    exact ⟨fun _ _ _ => checked_before_chunk hcipher, hsmall,
      .inr ⟨hmax, hsize, gcm, _, taken, hready.setup, ⟨rest, hpayload.symm⟩, htaken⟩,
      hterminates, res_iff hcipher⟩
  · -- an update that does not reach its loop hands nothing on
    have hnone : chunks r.log = [] := (otaUpdateStream_of_not_ready hready).2
    exact ⟨fun _ _ _ => checked_before_chunk hcipher, by simp [hnone], .inl hnone, hterminates,
      res_iff hcipher⟩

/-! ## An update of two chunks -/

/-- A stream that answers every request as far as its bytes go. -/
def fileStream : OtaInputStream (List UInt8) where
  read left n := (left.take n, left.drop n)

/-- A cipher with a constant key stream and the parity of the bytes taken as its tag. -/
def xorCrypto : Crypto (List UInt8) where
  pkParseKey := true
  pkDecrypt encGcmKey := some (encGcmKey.take aesKeySizeBytes)
  gcmSetkey _ := some []
  gcmStarts taken _ := some taken
  gcmUpdate taken bytes := some (bytes.map (· ^^^ 0x5A), taken ++ bytes)
  gcmFinish taken := some (List.replicate 16 (taken.foldl (· ^^^ ·) 0))

theorem streaming_xorCrypto : Streaming xorCrypto.gcmUpdate where
  nil taken := by simp [xorCrypto]
  append taken xs ys := by simp [xorCrypto]
  length taken xs out taken' h := by
    simp only [xorCrypto, Option.some.injEq, Prod.mk.injEq] at h
    rw [← h.1, List.length_map]

/-- An image with the payload, encrypted for `xorCrypto`. -/
def xorImage (payload : List UInt8) : List UInt8 :=
  espEncHeaderMagic ++ List.replicate 400 0 ++ Mem.leBytes 4 payload.length ++
    List.replicate 16 (payload.foldl (· ^^^ ·) 0) ++ List.replicate 88 0 ++ payload

theorem otaUpdateStream_integrity_two_chunks :
    let r := otaUpdateStream fileStream xorCrypto checkHeader (fun _ calls => (true, calls + 1))
      (xorImage (List.replicate 1025 7)) 0
    r.res = true ∧ r.ctx = 2 ∧ ∀ data ∈ chunks r.log, data.length ≤ 1024 :=
  ⟨by decide +kernel, by decide +kernel, (otaUpdateStream_integrity streaming_xorCrypto _ _).2.1⟩

end EspTesting.Ota
