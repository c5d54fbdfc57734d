import EspTesting.Spec.NdefTag

/-!
# Records that do not fit the staging buffer

`st25dv_ndef_write_content` puts a record together in a buffer of fixed size, behind a pointer
that nothing checks: what it stages is the encoding of the record, whatever its size.

## Key results

- `length_recordData_le_iff`: what is staged fits the buffer exactly if the encoding does
- `refusesOversized_iff`
-/

namespace EspTesting.St25dv

/-- The bytes of the TLV header in front of a record of `n` bytes: the type and an L field of one
    byte or three. -/
def tlvSize (n : Nat) : Nat := if n > 0xFE then 4 else 2

/-- The bytes of the encoding of a record, with the TLV header if it is the first one. -/
def encodedSize (mb : Bool) (record : Std25dvNdefRecord) : Nat :=
  (if mb then tlvSize (recordSize record) else 0) + recordSize record

/-- A call stages no more than the buffer holds, and a record whose encoding does not fit is
    refused with an error and leaves the tag and the address as they are. -/
structure RefusesOversized (address : UInt16) (mb me : Bool) (record : Std25dvNdefRecord)
    (tag : Tag) : Prop where
  staged : (recordData mb me record).length ≤ recordBufSzie
  refused : encodedSize mb record > recordBufSzie →
    (st25dvNdefWriteContent address mb me record tag).1 ≠ espOk ∧
    (st25dvNdefWriteContent address mb me record tag).2 = (address, tag)

variable {record : Std25dvNdefRecord}

/-- The bytes staged for a record are as many as its size says. -/
theorem length_recordBytes (htype : record.type.length ≤ 255)
    (hpayload : record.payload.length < 65536) (mb me : Bool) :
    (recordBytes mb me record).length = recordSize record := by
  have htypeSize : (typeSize record).toNat = record.type.length := by
    rw [typeSize, UInt8.toNat_ofNat']
    omega
  have hpayloadSize : (payloadSize record).toNat = record.payload.length := by
    rw [payloadSize, UInt16.toNat_ofNat']
    omega
  have hlong : payloadSize record > 0xFF ↔ record.payload.length > 0xFF := by
    rw [gt_iff_lt, UInt16.lt_iff_toNat_lt, hpayloadSize]
    rfl
  unfold recordBytes payloadLengthField recordSize
  simp only [hlong]
  split
  · simp [htypeSize, hpayloadSize]
    omega
  · simp [htypeSize, hpayloadSize]
    omega

theorem length_tlvHeader (n : UInt16) : (tlvHeader n).length = tlvSize n.toNat := by
  have hlong : n > 0xFE ↔ n.toNat > 0xFE := UInt16.lt_iff_toNat_lt
  unfold tlvHeader tlvSize
  simp only [hlong]
  split
  · rfl
  · rfl

/-- What is staged fits the buffer exactly if the encoding of the record does. -/
theorem length_recordData_le_iff (htype : record.type.length ≤ 255)
    (hpayload : record.payload.length < 65536) (mb me : Bool) :
    (recordData mb me record).length ≤ recordBufSzie ↔
      encodedSize mb record ≤ recordBufSzie := by
  have hbytes := length_recordBytes htype hpayload mb me
  have hlen : (recordData mb me record).length =
      (if mb then tlvSize (recordLength record).toNat else 0) + recordSize record := by
    rw [recordData, List.length_append, hbytes]
    split
    · rw [length_tlvHeader]
    · rfl
  rw [hlen]
  unfold encodedSize
  by_cases hfit : recordSize record ≤ recordBufSzie
  · rw [recordLength_toNat_of_fits hfit]
  · -- the record alone is too long, whatever its header says
    apply iff_of_false
    · omega
    · omega

/-- A call keeps to its buffer exactly if the encoding of the record fits it, and each half of
    this holds only then: no record is ever refused. -/
theorem refusesOversized_iff (address : UInt16) (mb me : Bool) (record : Std25dvNdefRecord)
    (tag : Tag) (htype : record.type.length ≤ 255) (hpayload : record.payload.length < 65536) :
    (RefusesOversized address mb me record tag ↔ encodedSize mb record ≤ recordBufSzie) ∧
    ((recordData mb me record).length ≤ recordBufSzie ↔
      encodedSize mb record ≤ recordBufSzie) ∧
    (st25dvNdefWriteContent address mb me record tag).1 = espOk := by
  have hstaged := length_recordData_le_iff htype hpayload mb me
  refine ⟨⟨fun h => hstaged.mp h.staged, fun hfit => ?_⟩, hstaged, rfl⟩
  exact ⟨hstaged.mpr hfit, fun hlong => absurd hfit (Nat.not_le.mpr hlong)⟩

/-- A record that fits. -/
theorem refusesOversized_iff_short :
    RefusesOversized 8 true true ⟨1, [0x54], [0x41]⟩ ⟨fun _ => 0, []⟩ :=
  (refusesOversized_iff 8 true true ⟨1, [0x54], [0x41]⟩ ⟨fun _ => 0, []⟩ (by decide)
    (by decide)).1.mpr (by decide)

/-- A payload of 300 bytes is staged beyond the end of the buffer. -/
theorem not_refusesOversized :
    ¬RefusesOversized 8 true true ⟨1, [0x54], List.replicate 300 0x41⟩ ⟨fun _ => 0, []⟩ := by
  intro h
  exact absurd h.staged (by decide +kernel)

end EspTesting.St25dv
