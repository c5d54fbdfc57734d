import EspTesting.Spec.OtaIntegrity

/-!
# Fragmentation of an OTA image

`ota_update_stream` asks for each piece of an image once and fails if the answer is short, so
what two transports of the same bytes lead to depends on how many requests they answer in full
(`fullChunks`), up to the last chunk that the image gives the callback (`chunksOfImage`).

## Key results

- `transferred_readChunks`: the loop over a source is determined by the full answers
- `transfer_min`: the answers behind the last chunk do not count
- `length_transfer`: how many bytes are handed on
- `sameOutcome_iff`
-/

namespace EspTesting.Ota

open Loop OtaLoop ListStream

variable {σ σ' τ γ : Type _}

/-! ## The requests of an update -/

/-- The lengths asked for in order to read `n` bytes of payload. -/
def chunkSizes (n : Nat) : List Nat :=
  List.replicate (n / 1024) 1024 ++ if n % 1024 = 0 then [] else [n % 1024]

/-- Nothing is no chunk. -/
theorem chunkSizes_zero : chunkSizes 0 = [] := rfl

/-- The first chunk, and the others. -/
theorem chunkSizes_of_pos {n : Nat} (hn : 0 < n) :
    chunkSizes n = min n 1024 :: chunkSizes (n - min n 1024) := by
  by_cases hlast : n < 1024
  · -- the last request is for the rest
    have hdiv : n / 1024 = 0 := by omega
    have hmod : n % 1024 = n := by omega
    have hmin : min n 1024 = n := by omega
    have hne : n ≠ 0 := by omega
    simp [chunkSizes, hdiv, hmod, hmin, hne]
  · have hdiv : n / 1024 = (n - 1024) / 1024 + 1 := by omega
    have hmod : n % 1024 = (n - 1024) % 1024 := by omega
    have hmin : min n 1024 = 1024 := by omega
    simp only [chunkSizes, hdiv, hmod, hmin, List.replicate_succ, List.cons_append]

/-- No chunk is empty. -/
theorem pos_of_mem_chunkSizes {n k : Nat} (h : k ∈ chunkSizes n) : 0 < k := by
  unfold chunkSizes at h
  rcases List.mem_append.mp h with h | h
  · rw [List.eq_of_mem_replicate h]
    omega
  · split at h
    · simp at h
    · rw [List.mem_singleton.mp h]
      omega

/-! ## What the full answers lead to -/

/-- The chunks handed on, and the context of the cipher if all went well, where the first
    `full` requests for the payload are answered in full. -/
def transfer (crypto : Crypto γ) (processChunk : OtaProcessChunkFn τ) :
    List Nat → Nat → List UInt8 → γ → τ → List (List UInt8) × Option γ
  | [], _, _, gcm, _ => ([], some gcm)
  | _ :: _, 0, _, _, _ => ([], none)
  | n :: ns, full + 1, payload, gcm, ctx =>
    match crypto.gcmUpdate gcm (payload.take n) with
    | none => ([], none)
    | some (out, gcm) =>
      let (res, ctx) := processChunk out ctx
      if res then
        let rest := transfer crypto processChunk ns full (payload.drop n) gcm ctx
        (out :: rest.1, rest.2)
      else ([out], none)

/-- The chunks that the payload gives the callback when every request is answered in full: up
    to the first one that the cipher rejects or the callback refuses. -/
def givenChunks (crypto : Crypto γ) (processChunk : OtaProcessChunkFn τ) :
    List Nat → List UInt8 → γ → τ → Nat
  | [], _, _, _ => 0
  | n :: ns, payload, gcm, ctx =>
    match crypto.gcmUpdate gcm (payload.take n) with
    | none => 0
    | some (out, gcm) =>
      let (res, ctx) := processChunk out ctx
      if res then givenChunks crypto processChunk ns (payload.drop n) gcm ctx + 1 else 1

variable {crypto : Crypto γ} {processChunk : OtaProcessChunkFn τ}

/-- Full answers behind the last chunk given do not count. -/
theorem transfer_min (ns : List Nat) (full : Nat) (payload : List UInt8) (gcm : γ) (ctx : τ) :
    transfer crypto processChunk ns full payload gcm ctx =
      transfer crypto processChunk ns
        (min full (givenChunks crypto processChunk ns payload gcm ctx)) payload gcm ctx := by
  induction ns generalizing full payload gcm ctx with
  | nil => simp [transfer]
  | cons n ns ih =>
    cases full with
    | zero => simp
    | succ full =>
      -- a chunk that is not given on ends the transfer
      cases hupdate : crypto.gcmUpdate gcm (payload.take n) with
      | none => simp [transfer, givenChunks, hupdate]
      | some r =>
        cases hchunk : (processChunk r.1 ctx).1 with
        | false => simp [transfer, givenChunks, hupdate, hchunk]
        | true =>
          simp only [transfer, givenChunks, hupdate, hchunk, if_true, Nat.add_min_add_right]
          rw [← ih]

/-- The bytes handed on are those of the requests answered in full, up to the last chunk
    given. -/
theorem length_transfer (hlength : KeepsLength crypto.gcmUpdate) (ns : List Nat) (full : Nat)
    (payload : List UInt8) (gcm : γ) (ctx : τ) (hfull : (ns.take full).sum ≤ payload.length) :
    (transfer crypto processChunk ns full payload gcm ctx).1.flatten.length =
      (ns.take (min full (givenChunks crypto processChunk ns payload gcm ctx))).sum := by
  induction ns generalizing full payload gcm ctx with
  | nil => simp [transfer]
  | cons n ns ih =>
    cases full with
    | zero => simp [transfer]
    | succ full =>
      rw [List.take_succ_cons, List.sum_cons] at hfull
      cases hupdate : crypto.gcmUpdate gcm (payload.take n) with
      | none => simp [transfer, givenChunks, hupdate]
      | some r =>
        -- a full request is answered with as many bytes as it asks for
        have hout := hlength _ _ _ _ hupdate
        rw [List.length_take_of_le (by omega)] at hout
        cases hchunk : (processChunk r.1 ctx).1 with
        | false => simp [transfer, givenChunks, hupdate, hchunk, hout]
        | true =>
          have hrest := ih full (payload.drop n) r.2 (processChunk r.1 ctx).2
            (by rw [List.length_drop]; omega)
          simp only [transfer, givenChunks, hupdate, hchunk, if_true, Nat.add_min_add_right,
            List.flatten_cons, List.length_append, List.take_succ_cons, List.sum_cons, hout, hrest]

/-- There are not more chunks given on than chunks. -/
theorem givenChunks_le (ns : List Nat) (payload : List UInt8) (gcm : γ) (ctx : τ) :
    givenChunks crypto processChunk ns payload gcm ctx ≤ ns.length := by
  induction ns generalizing payload gcm ctx with
  | nil => simp [givenChunks]
  | cons n ns ih =>
    unfold givenChunks
    split
    · omega
    · dsimp only
      split
      · rw [List.length_cons]
        exact Nat.succ_le_succ (ih ..)
      · simp

/-- Prefixes of positive numbers with the same sum are the same. -/
theorem eq_of_sum_take_eq {ns : List Nat} (hpos : ∀ n ∈ ns, 0 < n) {i j : Nat}
    (hi : i ≤ ns.length) (hj : j ≤ ns.length) (h : (ns.take i).sum = (ns.take j).sum) :
    i = j := by
  induction ns generalizing i j with
  | nil => simp at hi hj; omega
  | cons n ns ih =>
    -- every chunk counts, so different counts give different sums
    have hn := hpos n List.mem_cons_self
    cases i with
    | zero => cases j with
      | zero => rfl
      | succ j => simp at h; omega
    | succ i => cases j with
      | zero => simp at h; omega
      | succ j =>
        simp only [List.take_succ_cons, List.sum_cons, List.length_cons] at h hi hj
        have htail : i = j :=
          ih (fun m hm => hpos m (List.mem_cons_of_mem _ hm)) (by omega) (by omega) (by omega)
        omega

/-! ## The loop over a source -/

/-- A source as the stream of an update. -/
def ofSource (src : Source UInt8 σ) : OtaInputStream σ := ⟨src.read⟩

variable (crypto processChunk) in
/-- What the loop leaves behind is determined by the requests that are answered in full. -/
theorem transferred_readChunks (src : Source UInt8 σ) (n : Nat) (stream : σ) (gcm : γ) (ctx : τ)
    (log : List OtaEvent) :
    let s := readChunks (ofSource src) crypto processChunk ⟨stream, ctx, gcm, n, true, log⟩
    let t := transfer crypto processChunk (chunkSizes n) (src.fullReads stream (chunkSizes n))
      (src.left stream) gcm ctx
    chunks s.log = chunks log ++ t.1 ∧ (bif s.res then some s.gcm else none) = t.2 := by
  induction n using Nat.strongRecOn generalizing stream gcm ctx log with
  | ind n ih =>
  by_cases hpos : 0 < n
  swap
  · -- nothing is left to read
    obtain rfl : n = 0 := by omega
    rw [readChunks_done (by simp [more])]
    simp [chunkSizes_zero, transfer]
  rw [readChunks_step (by simp [more, hpos]), chunkSizes_of_pos hpos]
  simp only [chunkStep, chunkLen_eq_min, ofSource, Source.fullReads]
  by_cases hfull : (src.read stream (min n 1024)).1.length = min n 1024
  · rw [if_pos hfull]
    simp only [hfull, ne_eq, not_true_eq_false, if_false, transfer, ← src.read_eq_take hfull,
      ← src.left_read_eq_drop hfull]
    cases hupdate : crypto.gcmUpdate gcm (src.read stream (min n 1024)).1 with
    | none =>
      rw [readChunks_done (by simp [more])]
      simp [chunks]
    | some r =>
      obtain ⟨res, ctx', hchunk⟩ : ∃ res ctx', processChunk r.1 ctx = (res, ctx') := ⟨_, _, rfl⟩
      simp only [hchunk]
      cases res with
      | false =>
        rw [readChunks_done (by simp [more])]
        simp [chunks]
      | true =>
        -- the chunk is accepted: the rest of the loop is that of the rest of the bytes
        have hrest := ih (n - min n 1024) (by omega) (src.read stream (min n 1024)).2 r.2 ctx'
          (log ++ [.chunkRead (src.read stream (min n 1024)).1, .chunkProcessed r.1])
        simp only [ofSource] at hrest
        simp only [if_true, List.append_assoc, List.singleton_append]
        refine ⟨?_, hrest.2⟩
        rw [hrest.1]
        simp [chunks]
  · rw [if_neg hfull]
    simp only [hfull, ne_eq, not_false_eq_true, if_true, transfer]
    rw [readChunks_done (by simp [more])]
    simp [chunks]

/-! ## Two transports of one image -/

/-- The header of an image. -/
def imageHeader (image : List UInt8) : EspEncImgRsaHeader :=
  .ofBytes (image.take headerSize)

/-- The requests for the payload of an image. -/
def imageSizes (image : List UInt8) : List Nat :=
  chunkSizes (Mem.leValue (imageHeader image).binSize)

/-- The requests for the payload that a source answers in full, behind a header that it
    delivers in one answer. -/
def fullChunks (src : Source UInt8 σ) (stream : σ) : Nat :=
  if (src.read stream headerSize).1.length = headerSize then
    src.fullReads (src.read stream headerSize).2 (imageSizes (src.left stream))
  else 0

/-- The chunks that an image gives the callback when every request is answered in full. -/
def chunksOfImage (crypto : Crypto γ) (processChunk : OtaProcessChunkFn τ)
    (image : List UInt8) (ctx : τ) : Nat :=
  if (checkHeader (image.take headerSize) ctx).1 then
    match gcmSetup crypto (imageHeader image) with
    | none => 0
    | some gcm =>
      givenChunks crypto processChunk (imageSizes image) (image.drop headerSize) gcm ctx
  else 0

/-- The image has a complete and good header, and the keys in it set up the cipher. -/
structure ImageReady (crypto : Crypto γ) (image : List UInt8) (ctx : τ) (gcm : γ) : Prop where
  accepted : (checkHeader (image.take headerSize) ctx).1 = true
  setup : gcmSetup crypto (imageHeader image) = some gcm

/-- Two updates return the same and hand on the same bytes. -/
def SameOutcome (r : OtaResult σ τ) (r' : OtaResult σ' τ) : Prop :=
  r.res = r'.res ∧ (chunks r.log).flatten = (chunks r'.log).flatten

/-- The chunks of an image that is ready. -/
theorem chunksOfImage_of_ready {image : List UInt8} {ctx : τ} {gcm : γ}
    (h : ImageReady crypto image ctx gcm) :
    chunksOfImage crypto processChunk image ctx =
      givenChunks crypto processChunk (imageSizes image) (image.drop headerSize) gcm ctx := by
  simp [chunksOfImage, h.accepted, h.setup]

/-- An image that is not ready has no chunks. -/
theorem chunksOfImage_of_not_ready {image : List UInt8} {ctx : τ}
    (h : ¬ ∃ gcm, ImageReady crypto image ctx gcm) :
    chunksOfImage crypto processChunk image ctx = 0 := by
  unfold chunksOfImage
  split
  · rename_i haccepted
    cases hsetup : gcmSetup crypto (imageHeader image) with
    | none => rfl
    | some gcm => exact absurd ⟨gcm, haccepted, hsetup⟩ h
  · rfl

variable (processChunk)

/-- The update of an image with a good header. -/
theorem outcome_of_ready (src : Source UInt8 σ) (stream : σ) {gcm : γ} {ctx : τ}
    (h : ImageReady crypto (src.left stream) ctx gcm) :
    let r := otaUpdateStream (ofSource src) crypto checkHeader processChunk stream ctx
    let t := transfer crypto processChunk (imageSizes (src.left stream)) (fullChunks src stream)
      ((src.left stream).drop headerSize) gcm ctx
    r.res = t.2.any (fun gcm => tagMatches crypto gcm (imageHeader (src.left stream))) ∧
      chunks r.log = t.1 := by
  intro r t
  by_cases hfull : (src.read stream headerSize).1.length = headerSize
  · -- the whole header is read at once
    have hraw : ((ofSource src).read stream headerSize).1 = (src.left stream).take headerSize :=
      src.read_eq_take hfull
    have hready : Ready (ofSource src) crypto checkHeader stream ctx gcm :=
      ⟨hfull, hraw ▸ h.accepted, hraw ▸ h.setup⟩
    obtain ⟨hchunks, hlast⟩ := transferred_readChunks crypto processChunk src
      (Mem.leValue (imageHeader (src.left stream)).binSize)
      (src.read stream headerSize).2 gcm ctx
      [.headerRead ((src.left stream).take headerSize), .headerChecked true]
    have ht : t = transfer crypto processChunk (imageSizes (src.left stream))
        (src.fullReads (src.read stream headerSize).2 (imageSizes (src.left stream)))
        (src.left (src.read stream headerSize).2) gcm ctx := by
      simp only [t, fullChunks, if_pos hfull, src.left_read_eq_drop hfull]
    simp only [r, hready.otaUpdateStream_eq, hready.firstTurn_eq, hraw, ht]
    simp only [ofSource, imageSizes, imageHeader] at hchunks hlast ⊢
    generalize readChunks _ crypto processChunk _ = s at hchunks hlast ⊢
    rw [hchunks, ← hlast]
    refine ⟨?_, by simp [chunks]⟩
    cases s.res <;> simp
  · -- a short header reaches no chunk, and there is one to reach
    have hnone : r.res = false ∧ chunks r.log = [] := by
      apply otaUpdateStream_of_not_ready
      intro hready
      obtain ⟨gcm, hready⟩ := hready
      exact hfull hready.full
    have hpos : 0 < Mem.leValue (imageHeader (src.left stream)).binSize :=
      (checkHeader_eq_true_iff.mp h.accepted).2.2.1
    have ht : t = ([], none) := by
      simp only [t, fullChunks, if_neg hfull, imageSizes]
      rw [chunkSizes_of_pos hpos]
      rfl
    rw [hnone.1, hnone.2, ht]
    exact ⟨rfl, rfl⟩

/-- The update of an image without a good header. -/
theorem outcome_of_not_ready (src : Source UInt8 σ) (stream : σ) {ctx : τ}
    (h : ¬ ∃ gcm, ImageReady crypto (src.left stream) ctx gcm) :
    let r := otaUpdateStream (ofSource src) crypto checkHeader processChunk stream ctx
    r.res = false ∧ chunks r.log = [] := by
  apply otaUpdateStream_of_not_ready
  intro ⟨gcm, hready⟩
  have hraw : ((ofSource src).read stream headerSize).1 = (src.left stream).take headerSize :=
    src.read_eq_take hready.full
  obtain ⟨_, haccepted, hsetup⟩ := hready
  rw [hraw] at haccepted hsetup
  exact h ⟨gcm, haccepted, hsetup⟩

/-- The image has the bytes that were asked for and answered in full. -/
theorem sum_fullChunks_le (src : Source UInt8 σ) (stream : σ) :
    ((imageSizes (src.left stream)).take (fullChunks src stream)).sum ≤
      ((src.left stream).drop headerSize).length := by
  unfold fullChunks
  split
  · rename_i hfull
    rw [← src.left_read_eq_drop hfull]
    exact src.sum_fullReads_le _ _
  · simp

/-- Two transports of one image lead to the same result and the same bytes exactly if they
    answer as many requests for the payload in full, counted up to the last chunk that the
    image gives the callback. -/
theorem sameOutcome_iff (hlength : KeepsLength crypto.gcmUpdate) (src : Source UInt8 σ)
    (src' : Source UInt8 σ') (stream : σ) (stream' : σ')
    (himage : src.left stream = src'.left stream') (ctx : τ) :
    SameOutcome (otaUpdateStream (ofSource src) crypto checkHeader processChunk stream ctx)
        (otaUpdateStream (ofSource src') crypto checkHeader processChunk stream' ctx) ↔
      min (fullChunks src stream) (chunksOfImage crypto processChunk (src.left stream) ctx) =
        min (fullChunks src' stream')
          (chunksOfImage crypto processChunk (src.left stream) ctx) := by
  by_cases hready : ∃ gcm, ImageReady crypto (src.left stream) ctx gcm
  · obtain ⟨gcm, hready⟩ := hready
    obtain ⟨hres, hchunks⟩ := outcome_of_ready processChunk src stream hready
    obtain ⟨hres', hchunks'⟩ := outcome_of_ready processChunk src' stream' (himage ▸ hready)
    have hfit := sum_fullChunks_le src stream
    have hfit' := sum_fullChunks_le src' stream'
    rw [← himage] at hres' hchunks' hfit'
    rw [SameOutcome, hres, hchunks, hres', hchunks', chunksOfImage_of_ready hready]
    constructor
    · -- the bytes handed on tell the number of chunks, which are never empty
      intro ⟨_, hbytes⟩
      have hsum := congrArg List.length hbytes
      rw [length_transfer hlength _ _ _ _ _ hfit, length_transfer hlength _ _ _ _ _ hfit'] at hsum
      have hle : givenChunks crypto processChunk (imageSizes (src.left stream))
          ((src.left stream).drop headerSize) gcm ctx ≤ (imageSizes (src.left stream)).length :=
        givenChunks_le ..
      exact eq_of_sum_take_eq (fun _ => pos_of_mem_chunkSizes)
        (Nat.le_trans (Nat.min_le_right ..) hle) (Nat.le_trans (Nat.min_le_right ..) hle) hsum
    · intro hsame
      rw [transfer_min _ (fullChunks src stream), transfer_min _ (fullChunks src' stream'), hsame]
      exact ⟨rfl, rfl⟩
  · -- neither update gets as far as a chunk
    have hready' : ¬ ∃ gcm, ImageReady crypto (src'.left stream') ctx gcm := himage ▸ hready
    obtain ⟨hres, hchunks⟩ := outcome_of_not_ready processChunk src stream hready
    obtain ⟨hres', hchunks'⟩ := outcome_of_not_ready processChunk src' stream' hready'
    rw [SameOutcome, hres, hchunks, hres', hchunks', chunksOfImage_of_not_ready hready]
    simp

/-- Transports that answer up to 1024 and up to 4096 bytes at a time make no difference. -/
theorem sameOutcome_iff_of_large_answers :
    SameOutcome
      (otaUpdateStream (ofSource (.ofLimit UInt8 1024 (by decide))) xorCrypto checkHeader
        (fun _ calls => (true, calls + 1)) (xorImage (List.replicate 1025 7)) 0)
      (otaUpdateStream (ofSource (.ofLimit UInt8 4096 (by decide))) xorCrypto checkHeader
        (fun _ calls => (true, calls + 1)) (xorImage (List.replicate 1025 7)) 0) :=
  (sameOutcome_iff _ streaming_xorCrypto.length (.ofLimit UInt8 1024 (by decide))
    (.ofLimit UInt8 4096 (by decide)) _ _ rfl _).mpr (by decide +kernel)

/-- A transport that answers up to 512 bytes at a time fails at the first chunk of an image
    that is accepted in pieces of 1024 bytes. -/
theorem not_sameOutcome :
    ¬ SameOutcome
      (otaUpdateStream (ofSource (.ofLimit UInt8 1024 (by decide))) xorCrypto checkHeader
        (fun _ calls => (true, calls + 1)) (xorImage (List.replicate 1025 7)) 0)
      (otaUpdateStream (ofSource (.ofLimit UInt8 512 (by decide))) xorCrypto checkHeader
        (fun _ calls => (true, calls + 1)) (xorImage (List.replicate 1025 7)) 0) := by
  intro ⟨hres, _⟩
  exact absurd hres (by decide +kernel)

end EspTesting.Ota
