import EspTesting.ForStd.Checksum
import EspTesting.ForStd.Memory
import EspTesting.ForStd.UInt
import EspTesting.Native.BgcpTools

/-!
# The check of a frame

A frame is accepted exactly if it has the length, the two bytes in front and the checksum of
one. A byte in front and a byte of the checksum have one right value, and a byte in between has
one for the checksum that is there, so no change of a single byte goes unnoticed.

## Key results

- `checksum_run`: the loop sums up the bytes between front and checksum
- `checkBgcpProtocol_iff`: the frames that are accepted
- `IsFrame.not_set`: no byte of a frame can be changed alone
- `checkBgcpProtocol_detects`
-/

namespace EspTesting.Bgcp

/-- The sum of the bytes, modulo `2 ^ 16`. -/
def checksum (bytes : List UInt8) : Nat := Checksum.additive (2 ^ 16) (bytes.map UInt8.toNat)

/-- The bytes between the front and the checksum. -/
def frameBody (data : List UInt8) : List UInt8 := (data.drop 2).take (data.length - 4)

/-- A frame: long enough, with its two bytes in front and with its checksum, the low byte first,
    at the end. -/
structure IsFrame (data : List UInt8) : Prop where
  length_le : minBgcpMesSize.toNat ≤ data.length
  front : data.take 2 = [0xFD, 0xFD]
  checksum : data.drop (data.length - 2) = Mem.leBytes 2 (checksum (frameBody data))

/-! ## The loop -/

theorem more_iff {size : UInt16} {s : ChecksumLoop} :
    s.more size = true ↔ s.i.toNat + 3 ≤ size.toNat := by
  unfold ChecksumLoop.more
  rw [decide_eq_true_eq]
  omega

theorem toNat_succ_of_more {size : UInt16} {s : ChecksumLoop} (h : s.more size = true) :
    (s.i + 1).toNat = s.i.toNat + 1 := by
  rw [more_iff] at h
  have hsize := size.toNat_lt
  rw [UInt16.toNat_add]
  exact Nat.mod_eq_of_lt (show s.i.toNat + 1 < 2 ^ 16 by omega)

/-- The index goes up, and does not wrap around even for the largest sizes. -/
theorem decreases_checksumLoop (data : List UInt8) (size : UInt16) :
    Loop.Decreases (ChecksumLoop.more size) (ChecksumLoop.addByte data)
      (fun s => size.toNat - s.i.toNat) := by
  intro s hmore
  show size.toNat - (s.i + 1).toNat < size.toNat - s.i.toNat
  rw [toNat_succ_of_more hmore]
  rw [more_iff] at hmore
  omega

/-- The bytes in front of the index are summed up. -/
structure Summed (data : List UInt8) (s : ChecksumLoop) : Prop where
  le : 2 ≤ s.i.toNat
  le_length : s.i.toNat + 2 ≤ data.length
  sum : s.chksum1.toNat = checksum ((data.drop 2).take (s.i.toNat - 2))

theorem Summed.addByte {data : List UInt8} {size : UInt16} (hsize : size.toNat = data.length)
    {s : ChecksumLoop} (hmore : s.more size = true) (h : Summed data s) :
    Summed data (s.addByte data) := by
  have hsucc := toNat_succ_of_more hmore
  rw [more_iff] at hmore
  have hle := h.le
  refine ⟨?_, ?_, ?_⟩
  · show 2 ≤ (s.i + 1).toNat
    omega
  · show (s.i + 1).toNat + 2 ≤ data.length
    omega
  · have hlt : s.i.toNat - 2 < (data.drop 2).length := by
      rw [List.length_drop]
      omega
    have hadd : 2 + (s.i.toNat - 2) = s.i.toNat := by omega
    have hbyte : data.getD s.i.toNat 0 = (data.drop 2)[s.i.toNat - 2] := by
      have hin : s.i.toNat < data.length := by omega
      simp [hin, hadd]
    have hindex : (s.i + 1).toNat - 2 = s.i.toNat - 2 + 1 := by omega
    show (s.chksum1 + (data.getD s.i.toNat 0).toUInt16).toNat =
      checksum ((data.drop 2).take ((s.i + 1).toNat - 2))
    rw [hindex, List.take_succ_eq_append_getElem hlt, checksum, List.map_append, List.map_cons,
      List.map_nil, Checksum.additive_append_singleton, UInt16.toNat_add, h.sum, hbyte,
      UInt8.toNat_toUInt16]
    rfl

/-- The loop leaves with the sum of the bytes between the front and the checksum. -/
theorem checksum_run {data : List UInt8} {size : UInt16} (hsize : size.toNat = data.length)
    (hlen : 4 ≤ data.length) :
    (ChecksumLoop.run data size).chksum1.toNat = checksum (frameBody data) := by
  obtain ⟨n, _, hexit⟩ := Loop.exits_run (decreases_checksumLoop data size) ⟨2, 0⟩
  have hstart : Summed data ⟨2, 0⟩ := ⟨Nat.le_refl 2, hlen, rfl⟩
  have hsummed := hexit.invariant (fun s hmore h => h.addByte hsize hmore) hstart
  have hdone := hexit.cond_eq_false
  rw [← Bool.not_eq_true, more_iff] at hdone
  have hle := hsummed.le_length
  -- the loop leaves at the first byte of the checksum
  have hindex := hsummed.le
  show (Loop.run (ChecksumLoop.more size) (ChecksumLoop.addByte data) _ ⟨2, 0⟩).chksum1.toNat = _
  rw [hsummed.sum]
  unfold frameBody
  congr 2
  omega

/-! ## What is accepted -/

theorem checksum_lt (bytes : List UInt8) : checksum bytes < 2 ^ 16 :=
  Checksum.additive_lt (by decide) _

/-- The two bytes in front. -/
theorem take_two {data : List UInt8} (hlen : 2 ≤ data.length) :
    data.take 2 = [data.getD 0 0, data.getD 1 0] := by
  match data, hlen with
  | _ :: _ :: _, _ => rfl

/-- The two bytes at the end. -/
theorem drop_length_sub_two {data : List UInt8} (hlen : 2 ≤ data.length) :
    data.drop (data.length - 2) =
      [data.getD (data.length - 2) 0, data.getD (data.length - 1) 0] := by
  have hlow : data.length - 2 < data.length := by omega
  have hhigh : data.length - 1 < data.length := by omega
  have hsucc : data.length - 2 + 1 = data.length - 1 := by omega
  have hend : data.length - 1 + 1 = data.length := by omega
  rw [List.drop_eq_getElem_cons hlow, hsucc, List.drop_eq_getElem_cons hhigh, hend,
    List.drop_length]
  simp [hlow, hhigh]

/-- Two bytes are those of a number, the low byte first. -/
theorem eq_leBytes_two_iff {low high : UInt8} {n : Nat} (hn : n < 2 ^ 16) :
    [low, high] = Mem.leBytes 2 n ↔ n = low.toNat + 2 ^ 8 * high.toNat := by
  have hvalue : Mem.leValue [low, high] = low.toNat + 2 ^ 8 * high.toNat := by
    simp [Mem.leValue]
  constructor
  · intro h
    have hback := Mem.leValue_leBytes 2 n
    rw [← h, hvalue, Nat.mod_eq_of_lt (show n < 256 ^ 2 from hn)] at hback
    exact hback.symm
  · intro h
    rw [h, ← hvalue]
    exact (Mem.leBytes_leValue [low, high]).symm

/-- The check accepts exactly the frames. -/
theorem checkBgcpProtocol_iff {data : List UInt8} {size : UInt16}
    (hsize : size.toNat = data.length) : checkBgcpProtocol data size = true ↔ IsFrame data := by
  unfold checkBgcpProtocol
  split
  · rename_i hbad
    apply iff_of_false Bool.false_ne_true
    intro hframe
    have hlen : 10 ≤ data.length := hframe.length_le
    have hfront := hframe.front
    rw [take_two (by omega)] at hfront
    simp only [List.cons.injEq, and_true] at hfront
    rw [UInt16.lt_iff_toNat_lt, hsize] at hbad
    rcases hbad with hshort | hfirst | hsecond
    · exact Nat.not_lt.mpr hlen hshort
    · exact hfirst hfront.1
    · exact hsecond hfront.2
  · rename_i hgood
    rw [not_or, not_or, UInt16.lt_iff_toNat_lt, hsize, not_not, not_not] at hgood
    obtain ⟨hlen, hfirst, hsecond⟩ := hgood
    have hlen' : 10 ≤ data.length := Nat.le_of_not_lt hlen
    rw [decide_eq_true_eq, ← UInt16.toNat_inj, UInt16.toNat_join_bytes,
      checksum_run hsize (by omega), hsize, ← eq_leBytes_two_iff (checksum_lt _),
      ← drop_length_sub_two (by omega)]
    constructor
    · intro hsum
      exact ⟨hlen', by rw [take_two (by omega), hfirst, hsecond], hsum⟩
    · exact fun h => h.checksum

/-! ## Errors of one byte -/

variable {data : List UInt8} {i : Nat} {b : UInt8}

/-- A byte in front or at the end is not summed up. -/
theorem frameBody_set_of_outside (hlen : 4 ≤ data.length) (hi : i < 2 ∨ data.length - 2 ≤ i) :
    frameBody (data.set i b) = frameBody data := by
  unfold frameBody
  rw [List.length_set, List.drop_set]
  split
  · rfl
  · have hbody : ((data.drop 2).take (data.length - 4)).length ≤ i - 2 := by
      rw [List.length_take, List.length_drop]
      omega
    rw [List.take_set, List.set_eq_of_length_le hbody]

/-- A byte in between is. -/
theorem frameBody_set_of_between (hlo : 2 ≤ i) :
    frameBody (data.set i b) = (frameBody data).set (i - 2) b := by
  unfold frameBody
  rw [List.length_set, List.drop_set, if_neg (Nat.not_lt.mpr hlo), List.take_set]

/-- Changing a byte in between changes the checksum. -/
theorem checksum_frameBody_set_ne (hlo : 2 ≤ i) (hhi : i < data.length - 2)
    (hb : b ≠ data.getD i 0) :
    checksum (frameBody (data.set i b)) ≠ checksum (frameBody data) := by
  have hlen : i - 2 < (frameBody data).length := by
    unfold frameBody
    rw [List.length_take, List.length_drop]
    omega
  have hbyte : (frameBody data)[i - 2] = data.getD i 0 := by
    have hadd : 2 + (i - 2) = i := by omega
    have hin : i < data.length := by omega
    simp [frameBody, hadd, hin]
  rw [frameBody_set_of_between hlo]
  unfold checksum
  rw [List.map_set]
  apply Checksum.additive_set_ne (by rw [List.length_map]; exact hlen)
  rw [List.getElem_map, hbyte]
  have h₁ := b.toNat_lt
  have h₂ := (data.getD i 0).toNat_lt
  have hne : b.toNat ≠ (data.getD i 0).toNat := fun h => hb (UInt8.toNat_inj.mp h)
  omega

/-- Two bytes give the number back. -/
theorem leBytes_two_inj {n m : Nat} (hn : n < 2 ^ 16) (hm : m < 2 ^ 16)
    (h : Mem.leBytes 2 n = Mem.leBytes 2 m) : n = m := by
  have hvalue := congrArg Mem.leValue h
  rw [Mem.leValue_leBytes, Mem.leValue_leBytes] at hvalue
  omega

/-- A change of one byte makes something else of a frame. -/
theorem IsFrame.not_set (h : IsFrame data) (hi : i < data.length) (hb : b ≠ data.getD i 0) :
    ¬IsFrame (data.set i b) := by
  intro h'
  have hlen : 10 ≤ data.length := h.length_le
  have hold : data[i]? = some (data.getD i 0) := by simp [hi]
  have hnew : (data.set i b)[i]? = some b := by simp [hi]
  -- nowhere can the byte be the one that was there
  have hne : (data.set i b)[i]? ≠ data[i]? := by
    rw [hold, hnew]
    exact fun heq => hb (Option.some.inj heq)
  have hend := h'.checksum
  rw [List.length_set] at hend
  by_cases hfront : i < 2
  · apply hne
    calc (data.set i b)[i]? = ((data.set i b).take 2)[i]? :=
          (List.getElem?_take_of_lt hfront).symm
      _ = (data.take 2)[i]? := by rw [h'.front, h.front]
      _ = data[i]? := List.getElem?_take_of_lt hfront
  · by_cases hback : data.length - 2 ≤ i
    · -- the checksum is of the same bytes
      rw [frameBody_set_of_outside (by omega) (Or.inr hback), ← h.checksum] at hend
      apply hne
      have hadd : data.length - 2 + (i - (data.length - 2)) = i := by omega
      have hat := congrArg (·[i - (data.length - 2)]?) hend
      simp only [List.getElem?_drop, hadd] at hat
      exact hat
    · rw [List.drop_set, if_pos (by omega), h.checksum] at hend
      exact checksum_frameBody_set_ne (by omega) (by omega) hb
        (leBytes_two_inj (checksum_lt _) (checksum_lt _) hend).symm

/-- For every byte string of up to 65535 bytes, the check ends, it accepts exactly the frames,
    and it rejects a frame of which one byte was changed. -/
theorem checkBgcpProtocol_detects (data : List UInt8) (hlen : data.length < 2 ^ 16) :
    (∃ n s, Loop.Exits (ChecksumLoop.more data.length.toUInt16) (ChecksumLoop.addByte data) n
      ⟨2, 0⟩ s ∧ ChecksumLoop.run data data.length.toUInt16 = s) ∧
    (checkBgcpProtocol data data.length.toUInt16 = true ↔ IsFrame data) ∧
    (checkBgcpProtocol data data.length.toUInt16 = true → ∀ i b, i < data.length →
      b ≠ data.getD i 0 → checkBgcpProtocol (data.set i b) data.length.toUInt16 = false) := by
  have hsize : data.length.toUInt16.toNat = data.length := Nat.mod_eq_of_lt hlen
  have hiff := checkBgcpProtocol_iff hsize
  refine ⟨?_, hiff, fun haccepted i b hi hb => ?_⟩
  · obtain ⟨n, _, hexit⟩ := Loop.exits_run
      (decreases_checksumLoop data data.length.toUInt16) ⟨2, 0⟩
    exact ⟨n, _, hexit, rfl⟩
  · have hset : data.length.toUInt16.toNat = (data.set i b).length := by
      rw [hsize, List.length_set]
    rw [← Bool.not_eq_true, checkBgcpProtocol_iff hset]
    exact (hiff.mp haccepted).not_set hi hb

/-- One byte of the shortest frame, with zeros in between, is changed. -/
theorem checkBgcpProtocol_detects_shortest :
    checkBgcpProtocol ([0xFD, 0xFD, 0, 0, 0, 0, 0, 0, 0, 0].set 4 7) 10 = false :=
  (checkBgcpProtocol_detects [0xFD, 0xFD, 0, 0, 0, 0, 0, 0, 0, 0] (by decide)).2.2
    (by decide +kernel) 4 7 (by decide) (by decide)

end EspTesting.Bgcp
