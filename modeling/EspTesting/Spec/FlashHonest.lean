import EspTesting.ForStd.Vector
import EspTesting.Native.DeviceMemory
import Mathlib.Logic.Function.Basic

/-!
# What the flash functions report

`read_flash` and `write_flash` return a `bool`, but for a missing buffer or an empty one they
return an error code, which is `true`. A blob that is shorter than the buffer is read, and the
rest of the buffer is left as it was.

## Key results

- `written_of_eq_true`, `filled_of_eq_true_iff`: what holds when the functions return `true`
- `flashHonest_iff`
-/

namespace EspTesting.Flash

variable {σ : Type} {nvs : Nvs σ} {s : σ} {name : String} {size : UInt32}

/-! ## What is promised -/

/-- The data was stored and committed by the call. -/
def Written (nvs : Nvs σ) (name : String) (data : Buffer size) (s : FlashState σ) : Prop :=
  ∃ blob, data = some blob ∧ s.done = [.setBlob name blob.toList, .commit] ∧
    nvs.stored s.nvs name = some blob.toList

/-- The buffer was filled by the call, from a blob of just its size. -/
def Filled (stored : String → Option (List UInt8)) (name : String)
    (result : Bool × Buffer size × FlashState σ) : Prop :=
  ∃ buf, result.2.1 = some buf ∧ result.2.2.done = [.getBlob name] ∧
    stored name = some buf.toList

/-- A write that returns `true` wrote, a read that returns `true` filled the buffer, and a read
    behind such a write, with the blob still stored, yields the data. -/
structure FlashHonest (nvs : Nvs σ) (name : String) (size : UInt32) (data buf : Buffer size)
    (s : σ) : Prop where
  write : (writeFlash nvs name size data ⟨s, []⟩).1 = true →
    Written nvs name data (writeFlash nvs name size data ⟨s, []⟩).2
  read : (readFlash nvs name size buf ⟨s, []⟩).1 = true →
    Filled (nvs.stored s) name (readFlash nvs name size buf ⟨s, []⟩)
  roundTrip : (writeFlash nvs name size data ⟨s, []⟩).1 = true →
    ∀ s', nvs.stored s' name = nvs.stored (writeFlash nvs name size data ⟨s, []⟩).2.nvs name →
      (readFlash nvs name size buf ⟨s', []⟩).1 = true →
        (readFlash nvs name size buf ⟨s', []⟩).2.1 = data

/-! ## A write -/

/-- The arguments that are refused are reported as written. -/
theorem writeFlash_of_refused {data : Buffer size} (h : data = none ∨ size = 0) :
    writeFlash nvs name size data ⟨s, []⟩ = (true, ⟨s, []⟩) := by
  cases data with
  | none => rfl
  | some data =>
    obtain h | h := h
    · exact nomatch h
    · exact if_pos h

/-- A write of data that is there, by the results of its calls. -/
theorem writeFlash_eq {data : Vector UInt8 size.toNat} (hsize : size ≠ 0) {e₁ e₂ e₃ : EspErr}
    {handle : Nat} {s₁ s₂ s₃ : σ}
    (hopen : nvs.openSpace spaceName .readwrite s = (e₁, handle, s₁))
    (hset : nvs.setBlob handle name data.toList s₁ = (e₂, s₂))
    (hcommit : nvs.commit handle s₂ = (e₃, s₃)) :
    writeFlash nvs name size (some data) ⟨s, []⟩ =
      if e₁ = espOk then
        if e₂ = espOk then
          if e₃ = espOk then
            (true, ⟨nvs.close handle s₃, [.setBlob name data.toList, .commit]⟩)
          else (false, ⟨nvs.close handle s₃, [.setBlob name data.toList]⟩)
        else (false, ⟨nvs.close handle s₂, []⟩)
      else (false, ⟨nvs.close handle s₁, []⟩) := by
  unfold writeFlash
  rw [hopen]
  show (if size = 0 then _ else if e₁ ≠ espOk then _ else _) = _
  rw [if_neg hsize, hset]
  show (if e₁ ≠ espOk then _ else if e₂ ≠ espOk then _ else _) = _
  rw [hcommit]
  -- the three calls of NVS, each of which may fail
  by_cases h₁ : e₁ = espOk
  · by_cases h₂ : e₂ = espOk
    · by_cases h₃ : e₃ = espOk
      · simp [h₁, h₂, h₃, noteCall]
      · simp [h₁, h₂, h₃, noteCall]
    · simp [h₁, h₂, noteCall]
  · simp [h₁]

/-- A write of data that is there is reported as it went. -/
theorem written_of_eq_true {data : Vector UInt8 size.toNat} (hsize : size ≠ 0)
    (h : (writeFlash nvs name size (some data) ⟨s, []⟩).1 = true) :
    Written nvs name (some data) (writeFlash nvs name size (some data) ⟨s, []⟩).2 := by
  rcases hopen : nvs.openSpace spaceName .readwrite s with ⟨e₁, handle, s₁⟩
  rcases hset : nvs.setBlob handle name data.toList s₁ with ⟨e₂, s₂⟩
  rcases hcommit : nvs.commit handle s₂ with ⟨e₃, s₃⟩
  have hstored := nvs.stored_commit handle name data.toList s₁
  -- only if all three calls succeed the result is true
  rw [writeFlash_eq hsize hopen hset hcommit] at h ⊢
  rw [hset, hcommit] at hstored
  by_cases h₁ : e₁ = espOk
  · by_cases h₂ : e₂ = espOk
    · by_cases h₃ : e₃ = espOk
      · rw [if_pos h₁, if_pos h₂, if_pos h₃]
        refine ⟨data, rfl, rfl, ?_⟩
        show nvs.stored (nvs.close handle s₃) name = _
        rw [nvs.stored_close]
        exact hstored h₂ h₃
      · simp [h₁, h₂, h₃] at h
    · simp [h₁, h₂] at h
  · simp [h₁] at h

/-! ## A read -/

/-- The arguments that are refused are reported as read. -/
theorem readFlash_of_refused {buf : Buffer size} (h : buf = none ∨ size = 0) :
    readFlash nvs name size buf ⟨s, []⟩ = (true, buf, ⟨s, []⟩) := by
  cases buf with
  | none => rfl
  | some buf =>
    obtain h | h := h
    · exact nomatch h
    · exact if_pos h

/-- A read into a buffer that is there, by the results of its calls. -/
theorem readFlash_eq {buf buf' : Vector UInt8 size.toNat} (hsize : size ≠ 0) {e₁ e₂ : EspErr}
    {handle length : Nat} {s₁ s₂ : σ}
    (hopen : nvs.openSpace spaceName .readonly s = (e₁, handle, s₁))
    (hget : nvs.getBlob handle name buf s₁ = (e₂, buf', length, s₂)) :
    readFlash nvs name size (some buf) ⟨s, []⟩ =
      if e₁ = espOk then
        if e₂ = espOk then (true, some buf', ⟨nvs.close handle s₂, [.getBlob name]⟩)
        else (false, some buf', ⟨nvs.close handle s₂, []⟩)
      else (false, some buf, ⟨nvs.close handle s₁, []⟩) := by
  unfold readFlash
  rw [hopen]
  show (if size = 0 then _ else if e₁ ≠ espOk then _ else _) = _
  rw [if_neg hsize, hget]
  -- the two calls of NVS, each of which may fail
  by_cases h₁ : e₁ = espOk
  · by_cases h₂ : e₂ = espOk
    · simp [h₁, h₂, noteCall]
    · simp [h₁, h₂, noteCall]
  · simp [h₁]

/-- What a read leaves behind that returns `true`. -/
theorem readFlash_of_eq_true {buf : Vector UInt8 size.toNat} (hsize : size ≠ 0)
    (h : (readFlash nvs name size (some buf) ⟨s, []⟩).1 = true) :
    (nvs.openSpace spaceName .readonly s).1 = espOk ∧
      ∃ blob buf', nvs.stored s name = some blob ∧
        buf'.toList = blob ++ buf.toList.drop blob.length ∧
        (readFlash nvs name size (some buf) ⟨s, []⟩).2.1 = some buf' ∧
        (readFlash nvs name size (some buf) ⟨s, []⟩).2.2.done = [.getBlob name] := by
  have hstored := nvs.stored_openSpace spaceName .readonly s
  rcases hopen : nvs.openSpace spaceName .readonly s with ⟨e₁, handle, s₁⟩
  have hblob := nvs.getBlob_ok handle name buf s₁
  rcases hget : nvs.getBlob handle name buf s₁ with ⟨e₂, buf', length, s₂⟩
  rw [readFlash_eq hsize hopen hget] at h ⊢
  rw [hopen] at hstored
  rw [hget] at hblob
  by_cases h₁ : e₁ = espOk
  · by_cases h₂ : e₂ = espOk
    · obtain ⟨blob, hname, hfill, _⟩ := hblob h₂
      rw [← hstored, if_pos h₁, if_pos h₂]
      exact ⟨h₁, blob, buf', hname, hfill, rfl, rfl⟩
    · simp [h₁, h₂] at h
  · simp [h₁] at h

/-- A blob for which there is room is read. -/
theorem readFlash_eq_true_of_le {buf : Vector UInt8 size.toNat} (hsize : size ≠ 0)
    {blob : List UInt8} (hopened : (nvs.openSpace spaceName .readonly s).1 = espOk)
    (hname : nvs.stored s name = some blob) (hlen : blob.length ≤ size.toNat) :
    (readFlash nvs name size (some buf) ⟨s, []⟩).1 = true := by
  rw [← nvs.stored_openSpace spaceName .readonly s] at hname
  have hread := nvs.getBlob_of_le spaceName .readonly name buf s blob hopened hname hlen
  rcases hopen : nvs.openSpace spaceName .readonly s with ⟨e₁, handle, s₁⟩
  rw [hopen] at hopened hread
  rcases hget : nvs.getBlob handle name buf s₁ with ⟨e₂, buf', length, s₂⟩
  have h₁ : e₁ = espOk := hopened
  -- a blob that is not too long is read
  have h₂ : e₂ = espOk := by
    have hgot : (nvs.getBlob handle name buf s₁).1 = espOk := hread
    rw [hget] at hgot
    exact hgot
  rw [readFlash_eq hsize hopen hget, if_pos h₁, if_pos h₂]

/-- No blob that is shorter than the buffer is there to be read. -/
def NoShorterBlob (nvs : Nvs σ) (name : String) (size : UInt32) (s : σ) : Prop :=
  (nvs.openSpace spaceName .readonly s).1 = espOk →
    ∀ blob, nvs.stored s name = some blob → size.toNat ≤ blob.length

/-- The buffer behind a read of a blob of its size. -/
theorem toList_eq_of_le {n : Nat} {buf buf' : Vector UInt8 n} {blob : List UInt8}
    (hfill : buf'.toList = blob ++ buf.toList.drop blob.length) (hlen : n ≤ blob.length) :
    buf'.toList = blob := by
  rw [hfill, List.drop_eq_nil_of_le (by rw [Vector.length_toList]; exact hlen), List.append_nil]

/-- A read into a buffer that is there is reported as it went exactly if no shorter blob is
    there to be read. -/
theorem filled_of_eq_true_iff {buf : Vector UInt8 size.toNat} (hsize : size ≠ 0) :
    ((readFlash nvs name size (some buf) ⟨s, []⟩).1 = true →
        Filled (nvs.stored s) name (readFlash nvs name size (some buf) ⟨s, []⟩)) ↔
      NoShorterBlob nvs name size s := by
  constructor
  · -- a shorter blob is read without an error, and leaves the end of the buffer
    intro h hopened blob hname
    apply Nat.le_of_not_lt
    intro hlt
    obtain ⟨buf', _, _, hfull⟩ := h (readFlash_eq_true_of_le hsize hopened hname (Nat.le_of_lt hlt))
    rw [hname] at hfull
    rw [Option.some.inj hfull, Vector.length_toList] at hlt
    exact Nat.lt_irrefl _ hlt
  · intro h htrue
    obtain ⟨hopened, blob, buf', hname, hfill, hbuf, hdone⟩ := readFlash_of_eq_true hsize htrue
    have hfull := toList_eq_of_le hfill (h hopened blob hname)
    exact ⟨buf', hbuf, hdone, by rw [hname, hfull]⟩

/-! ## Both -/

/-- The functions report what they did exactly if the buffers are there and not empty, and no
    blob is there to be read that is shorter than the buffer. -/
theorem flashHonest_iff (nvs : Nvs σ) (name : String) (size : UInt32) (data buf : Buffer size)
    (s : σ) : FlashHonest nvs name size data buf s ↔
      size ≠ 0 ∧ data ≠ none ∧ buf ≠ none ∧ NoShorterBlob nvs name size s := by
  constructor
  · intro h
    -- what is refused reports success without a call
    have hdata : ¬(data = none ∨ size = 0) := by
      intro hrefused
      have hwrite := h.write
      rw [writeFlash_of_refused hrefused] at hwrite
      obtain ⟨_, _, hdone, _⟩ := hwrite rfl
      exact nomatch hdone
    have hbuf : ¬(buf = none ∨ size = 0) := by
      intro hrefused
      have hread := h.read
      rw [readFlash_of_refused hrefused] at hread
      obtain ⟨_, _, hdone, _⟩ := hread rfl
      exact nomatch hdone
    rw [not_or] at hdata hbuf
    refine ⟨hdata.2, hdata.1, hbuf.1, ?_⟩
    obtain ⟨buf, rfl⟩ := Option.ne_none_iff_exists'.mp hbuf.1
    exact (filled_of_eq_true_iff hdata.2).mp h.read
  · intro h
    obtain ⟨hsize, hdata, hbuf, hshorter⟩ := h
    obtain ⟨data, rfl⟩ := Option.ne_none_iff_exists'.mp hdata
    obtain ⟨buf, rfl⟩ := Option.ne_none_iff_exists'.mp hbuf
    constructor
    · exact written_of_eq_true hsize
    · exact (filled_of_eq_true_iff hsize).mpr hshorter
    · intro hwrite s' hsame hread
      obtain ⟨_, hblob, _, hstored⟩ := written_of_eq_true hsize hwrite
      obtain ⟨_, blob, buf', hname, hfill, hbuf', _⟩ := readFlash_of_eq_true hsize hread
      rw [hsame, hstored, ← Option.some.inj hblob] at hname
      have hlen : blob.length = size.toNat := by
        rw [← Option.some.inj hname]
        exact Vector.length_toList
      have hfull := toList_eq_of_le hfill (Nat.le_of_eq hlen.symm)
      rw [← Option.some.inj hname] at hfull
      rw [hbuf', Vector.toList_inj.mp hfull]

/-! ## A flash in memory -/

/-- The blobs that are committed, and those that were only set. -/
structure MemFlash where
  committed : String → Option (List UInt8)
  pending : String → Option (List UInt8)

/-- `nvs_get_blob` of a flash in memory. -/
def MemFlash.getBlob (s : MemFlash) (name : String) {n : Nat} (buf : Vector UInt8 n) :
    EspErr × Vector UInt8 n × Nat × MemFlash :=
  match s.committed name with
  | none => (espErrNvsNotFound, buf, n, s)
  | some blob =>
    if blob.length ≤ n then (espOk, buf.writeAt 0 blob, blob.length, s)
    else (espErrNvsInvalidLength, buf, blob.length, s)

theorem MemFlash.getBlob_of_le {s : MemFlash} {name : String} {blob : List UInt8}
    (hname : s.committed name = some blob) {n : Nat} (hlen : blob.length ≤ n)
    (buf : Vector UInt8 n) : s.getBlob name buf = (espOk, buf.writeAt 0 blob, blob.length, s) := by
  unfold MemFlash.getBlob
  rw [hname]
  exact if_pos hlen

theorem MemFlash.getBlob_ok {s : MemFlash} {name : String} {n : Nat} {buf : Vector UInt8 n}
    (h : (s.getBlob name buf).1 = espOk) :
    ∃ blob, s.committed name = some blob ∧ blob.length ≤ n := by
  unfold MemFlash.getBlob at h
  split at h
  · exact absurd (show espErrNvsNotFound = espOk from h) (by decide)
  · rename_i blob hname
    split at h
    · rename_i hlen
      exact ⟨blob, hname, hlen⟩
    · exact absurd (show espErrNvsInvalidLength = espOk from h) (by decide)

/-- A flash of which every call succeeds that can. -/
def memNvs : Nvs MemFlash where
  openSpace _ _ s := (espOk, 0, s)
  getBlob _ name buf s := s.getBlob name buf
  setBlob _ name blob s :=
    (espOk, { s with pending := Function.update s.pending name (some blob) })
  commit _ s := (espOk, ⟨fun name => (s.pending name).or (s.committed name), fun _ => none⟩)
  close _ s := s
  stored s := s.committed
  stored_openSpace _ _ _ := rfl
  stored_close _ _ := rfl
  getBlob_ok := by
    intro n handle name buf s h
    obtain ⟨blob, hname, hlen⟩ := MemFlash.getBlob_ok h
    rw [MemFlash.getBlob_of_le hname hlen, Vector.toList_writeAt buf blob (by omega)]
    exact ⟨blob, hname, by simp, rfl⟩
  getBlob_of_le := by
    intro n _ _ name buf s blob _ hname hlen
    exact congrArg Prod.fst (MemFlash.getBlob_of_le hname hlen buf)
  stored_commit := by
    intro handle name blob s _ _
    simp

/-- A write without data, and a read of a blob of one byte into a buffer of two. -/
theorem flashHonest_fails :
    ¬FlashHonest memNvs "test1" 4 none (some #v[0, 0, 0, 0]) ⟨fun _ => none, fun _ => none⟩ ∧
    ¬FlashHonest memNvs "test1" 2 (some #v[1, 2]) (some #v[7, 7])
      ⟨fun _ => some [1], fun _ => none⟩ := by
  constructor
  · intro h
    obtain ⟨_, hdata, _⟩ := h.write rfl
    exact nomatch hdata
  · intro h
    obtain ⟨buf, _, _, hstored⟩ := h.read rfl
    have hlen := congrArg List.length (Option.some.inj hstored)
    rw [Vector.length_toList] at hlen
    exact absurd hlen (by decide)

end EspTesting.Flash
