import EspTesting.ForStd.Machine
import EspTesting.Spec.NdefTag

/-!
# Appending a record to a message

`st25dv_ndef_write_content` for a further record. The address of the record is kept in a
`uint8_t`, so the record goes where it belongs only as long as it starts in the first 256
bytes of the tag; up to there nothing that is already on the tag is damaged.

## Key results

- `updateLength_spec`: the update of the L field moves the records if the field grows
- `appended_iff`: a record is appended exactly if its address fits `record_address`
- `holdsMessage_run`: the messages written by calls that stay below the limit
-/

namespace EspTesting.St25dv

/-- The L field has three bytes when the record is appended. -/
def longAfter (long : Bool) (n : Nat) (record : Std25dvNdefRecord) : Bool :=
  long || decide (n + recordSize record > 0xFE)

/-- The address at which the record belongs. -/
def appendAddress (long : Bool) (n : Nat) (record : Std25dvNdefRecord) : Nat :=
  firstRecord (longAfter long n record) + n

/-! ## Updating the length -/

/-- What the update of the L field leaves on the tag. -/
structure LengthUpdated (tag : Tag) (long' : Bool) (n' : Nat) (body : List UInt8) (tag' : Tag) :
    Prop where
  ccFile : tag'.mem.bytes.load 0 8 = tag.mem.bytes.load 0 8
  holds : Holds tag'.mem long' n' body
  writes : ∃ ws, tag'.writes = tag.writes ++ ws ∧ ∀ w ∈ ws, w.1 = 9 ∨ w.1 = 12

/-- Writing the L field in front of records that stand behind it. -/
theorem lengthUpdated_write {tag : Tag} {long : Bool} {n : Nat} {body : List UInt8} (n' : Nat)
    (h : Holds tag.mem long n body) (hbound : firstRecord long + body.length ≤ 65536) :
    LengthUpdated tag long n' body (tag.write 9 (lengthField long n')) := by
  have hlen := length_lengthField long n'
  have hnine : (9 : UInt16).toNat = 9 := rfl
  have hfit : (9 : UInt16).toNat + (lengthField long n').length ≤ 65536 := by omega
  refine ⟨?_, ⟨?_, ?_, ?_⟩, _, rfl, fun w hw => Or.inl ?_⟩
  · exact load_write_of_apart hfit (by omega) (Or.inr (by omega))
  · exact (load_write_of_apart hfit (by omega) (Or.inr (by omega))).trans h.type
  · exact load_write_self hfit
  · exact (load_write_of_apart hfit hbound (Or.inl (by omega))).trans h.body
  · rw [List.mem_singleton.mp hw]

/-- The L field grows to three bytes, and the records move by two. -/
theorem lengthUpdated_grow {tag : Tag} {n : Nat} {body : List UInt8} (n' : Nat)
    (h : Holds tag.mem false n body) (hbound : 12 + body.length ≤ 65536) :
    LengthUpdated tag true n' body ((tag.write 9 (lengthField true n')).write 12 body) := by
  have hlen : (lengthField true n').length = 3 := rfl
  have hnine : (9 : UInt16).toNat = 9 := rfl
  have htwelve : (12 : UInt16).toNat = 12 := rfl
  have hfirst : (9 : UInt16).toNat + (lengthField true n').length ≤ 65536 := by omega
  have hsecond : (12 : UInt16).toNat + body.length ≤ 65536 := by omega
  -- everything in front of the records is as the first of the two writes left it
  have hfront : ∀ a k, a + k ≤ 12 →
      ((tag.write 9 (lengthField true n')).write 12 body).mem.bytes.load a k =
        (tag.write 9 (lengthField true n')).mem.bytes.load a k := fun a k hk =>
    load_write_of_apart hsecond (by omega) (Or.inr (by omega))
  refine ⟨?_, ⟨?_, ?_, ?_⟩, [(9, lengthField true n'), (12, body)], ?_, ?_⟩
  · exact (hfront 0 8 (by omega)).trans
      (load_write_of_apart hfirst (by omega) (Or.inr (by omega)))
  · exact ((hfront 8 1 (by omega)).trans
      (load_write_of_apart hfirst (by omega) (Or.inr (by omega)))).trans h.type
  · exact (hfront 9 3 (by omega)).trans (load_write_self hfirst)
  · exact load_write_self hsecond
  · exact List.append_assoc ..
  · intro w hw
    rcases List.mem_cons.mp hw with rfl | hw
    · exact Or.inl rfl
    · rw [List.mem_singleton.mp hw]
      exact Or.inr rfl

/-- The L field read from the tag. -/
theorem read_lengthField {mem : UserMem} {n : Nat} {body : List UInt8}
    (h : Holds mem true n body) : st25dvRead mem (ccfileLength + 1) 3 = lengthField true n :=
  (st25dvRead_eq_load mem _ 3).trans h.length

theorem read_lengthField_short {mem : UserMem} {n : Nat} {body : List UInt8}
    (h : Holds mem false n body) :
    (st25dvRead mem (ccfileLength + 1) 3).getD 0 0 = UInt8.ofNat n :=
  (List.cons.inj h.length).1

/-! ### The L field as the code computes with it -/

/-- A short length is no `0xFF`, which marks a long field. -/
theorem ofNat_ne_longMark {n : Nat} (h : n ≤ 0xFE) : UInt8.ofNat n ≠ 0xFF := by
  intro heq
  have hval := congrArg UInt8.toNat heq
  rw [UInt8.toNat_ofNat'] at hval
  have h255 : (0xFF : UInt8).toNat = 255 := rfl
  omega

theorem toUInt16_ofNat {n : Nat} (h : n ≤ 0xFE) : (UInt8.ofNat n).toUInt16 = UInt16.ofNat n := by
  apply UInt16.toNat_inj.mp
  rw [UInt8.toNat_toUInt16, UInt8.toNat_ofNat', UInt16.toNat_ofNat']
  omega

theorem toUInt8_ofNat (n : Nat) : (UInt16.ofNat n).toUInt8 = UInt8.ofNat n := by
  apply UInt8.toNat_inj.mp
  rw [UInt16.toNat_toUInt8, UInt16.toNat_ofNat', UInt8.toNat_ofNat']
  omega

/-- The comparison that decides whether the field grows. -/
theorem ofNat_gt_iff {n : Nat} (h : n < 65536) : UInt16.ofNat n > 0xFE ↔ n > 0xFE := by
  have h254 : (0xFE : UInt16).toNat = 254 := rfl
  rw [gt_iff_lt, UInt16.lt_iff_toNat_lt, h254, UInt16.toNat_ofNat', gt_iff_lt]
  omega

/-- The length of a message with a further record. -/
theorem add_recordLength {record : Std25dvNdefRecord} (hfit : recordSize record ≤ recordBufSzie)
    (n : Nat) : UInt16.ofNat n + recordLength record = UInt16.ofNat (n + recordSize record) := by
  have hrecord : recordLength record = UInt16.ofNat (recordSize record) := by
    rw [← recordLength_toNat_of_fits hfit, UInt16.ofNat_toNat]
  rw [hrecord, UInt16.ofNat_add]

/-- A long field stays where it is. -/
theorem updateLength_long {tag : Tag} {body : List UInt8} {record : Std25dvNdefRecord}
    (h : Holds tag.mem true body.length body) (hbound : firstRecord true + body.length ≤ 65536)
    (hfit : recordSize record ≤ recordBufSzie) (recordAddress : UInt8) :
    ∃ tag', updateLength (recordLength record) recordAddress tag = (tag', recordAddress) ∧
      LengthUpdated tag true (body.length + recordSize record) body tag' := by
  have htotal := add_recordLength hfit body.length
  have hold := UInt16.join_bytes (UInt16.ofNat body.length)
  refine ⟨_, ?_, lengthUpdated_write (body.length + recordSize record) h hbound⟩
  unfold updateLength
  simp only [read_lengthField h, lengthField, if_true, List.getD_cons_zero, List.getD_cons_succ,
    hold, htotal]
  rfl

/-- A short field that the new length does not fit in grows, and the records move. -/
theorem updateLength_grow {tag : Tag} {body : List UInt8} {record : Std25dvNdefRecord}
    (h : Holds tag.mem false body.length body) (hshort : body.length ≤ 0xFE)
    (hfit : recordSize record ≤ recordBufSzie) (hlong : body.length + recordSize record > 0xFE)
    (recordAddress : UInt8) :
    ∃ tag', updateLength (recordLength record) recordAddress tag = (tag', recordAddress + 2) ∧
      LengthUpdated tag true (body.length + recordSize record) body tag' := by
  have h256 : recordSize record ≤ 256 := hfit
  have hread := read_lengthField_short h
  have htotal := add_recordLength hfit body.length
  rw [← toUInt16_ofNat hshort] at htotal
  have hgrows := (ofNat_gt_iff (show body.length + recordSize record < 65536 by omega)).mpr hlong
  have hcontent : st25dvRead tag.mem (ccfileLength + 2)
      (UInt8.ofNat body.length).toUInt16.toNat = body := by
    rw [st25dvRead_eq_load, toUInt16_ofNat hshort, UInt16.toNat_ofNat',
      Nat.mod_eq_of_lt (by omega)]
    exact h.body
  refine ⟨_, ?_, lengthUpdated_grow (body.length + recordSize record) h (by omega)⟩
  unfold updateLength
  simp only [hread, ofNat_ne_longMark hshort, if_false, htotal, hgrows, if_true, hcontent]
  rfl

/-- A short field that the new length fits in stays where it is. -/
theorem updateLength_short {tag : Tag} {body : List UInt8} {record : Std25dvNdefRecord}
    (h : Holds tag.mem false body.length body) (hshort : body.length ≤ 0xFE)
    (hfit : recordSize record ≤ recordBufSzie)
    (hstays : ¬ body.length + recordSize record > 0xFE) (recordAddress : UInt8) :
    ∃ tag', updateLength (recordLength record) recordAddress tag = (tag', recordAddress) ∧
      LengthUpdated tag false (body.length + recordSize record) body tag' := by
  have hread := read_lengthField_short h
  have htotal := add_recordLength hfit body.length
  rw [← toUInt16_ofNat hshort] at htotal
  have hgrows := mt (ofNat_gt_iff (show body.length + recordSize record < 65536 by omega)).mp hstays
  have hbound : firstRecord false + body.length ≤ 65536 := by
    have hten : firstRecord false = 10 := rfl
    omega
  refine ⟨_, ?_, lengthUpdated_write (body.length + recordSize record) h hbound⟩
  unfold updateLength
  simp only [hread, ofNat_ne_longMark hshort, if_false, htotal, hgrows, toUInt8_ofNat]
  rfl

/-- The update of the L field for a further record: the length grows by that of the record, and
    the records and the address of the new one move if the field grows. -/
theorem updateLength_spec {tag : Tag} {long : Bool} {body : List UInt8}
    {record : Std25dvNdefRecord} (h : Holds tag.mem long body.length body)
    (hshort : long = false → body.length ≤ 0xFE) (hbound : firstRecord long + body.length ≤ 65536)
    (hfit : recordSize record ≤ recordBufSzie) (recordAddress : UInt8) :
    ∃ tag', updateLength (recordLength record) recordAddress tag =
        (tag', if long = false ∧ longAfter long body.length record = true
          then recordAddress + 2 else recordAddress) ∧
      LengthUpdated tag (longAfter long body.length record) (body.length + recordSize record) body
        tag' := by
  cases long with
  | true => simpa [longAfter] using updateLength_long h hbound hfit recordAddress
  | false =>
    by_cases hlong : body.length + recordSize record > 0xFE
    · have hafter : longAfter false body.length record = true := decide_eq_true hlong
      simpa [hafter] using updateLength_grow h (hshort rfl) hfit hlong recordAddress
    · have hafter : longAfter false body.length record = false := decide_eq_false hlong
      simpa [hafter] using updateLength_short h (hshort rfl) hfit hlong recordAddress

/-! ## Appending a record -/

/-- The number of bytes by which the L field on the tag grows when the record is appended. -/
def growsBy (tag : Tag) (record : Std25dvNdefRecord) : Nat :=
  if tag.mem 9 ≠ 0xFF ∧ (tag.mem 9).toNat + recordSize record > 0xFE then 2 else 0

/-- What the call does to a tag that holds the records `records`: bytes of the CC file and of
    the earlier records stand as before, the new record is stored right behind them, and the L
    field is the new total length. -/
structure Appended (tag tag' : Tag) (long' : Bool) (records : List (List UInt8))
    (new : List UInt8) : Prop where
  ccFile : tag'.mem.bytes.load 0 8 = tag.mem.bytes.load 0 8
  earlier : tag'.mem.bytes.load (firstRecord long') records.flatten.length = records.flatten
  stored : tag'.mem.bytes.load (firstRecord long' + records.flatten.length) new.length = new
  written : ∃ w ∈ tag'.writes.drop tag.writes.length,
    w.1.toNat = firstRecord long' + records.flatten.length ∧ w.2 = new
  length : tag'.mem.bytes.load 9 (lengthField long' (records.flatten.length + new.length)).length =
    lengthField long' (records.flatten.length + new.length)

variable {tag : Tag} {long : Bool} {records : List (List UInt8)} {address : UInt16}
  {record : Std25dvNdefRecord}

/-- The limit, in terms of the L field on the tag. -/
theorem appendAddress_eq (h : HoldsMessage tag.mem long records address) :
    appendAddress long records.flatten.length record =
      address.toNat + growsBy tag record := by
  unfold appendAddress growsBy
  rw [h.address]
  cases long with
  | true =>
    -- a long field has its mark on the tag and does not grow
    have hnine : tag.mem 9 = 0xFF := (List.cons.inj h.holds.length).1
    rw [if_neg fun hboth => hboth.1 hnine]
    rfl
  | false =>
    -- a short field is the length of the records itself
    have hnine : tag.mem 9 = UInt8.ofNat records.flatten.length := (List.cons.inj h.holds.length).1
    have hbody := h.short rfl
    have hval : (tag.mem 9).toNat = records.flatten.length := by
      rw [hnine, UInt8.toNat_ofNat']
      omega
    have hne : tag.mem 9 ≠ 0xFF := by
      intro heq
      rw [heq] at hval
      have h255 : (0xFF : UInt8).toNat = 255 := rfl
      omega
    rw [hval]
    by_cases hgrows : records.flatten.length + recordSize record > 0xFE
    · rw [if_pos ⟨hne, hgrows⟩, show longAfter false records.flatten.length record = true from
        decide_eq_true hgrows]
      show 12 + _ = 10 + _ + 2
      omega
    · rw [if_neg fun hboth => hgrows hboth.2,
        show longAfter false records.flatten.length record = false from decide_eq_false hgrows]
      rfl

/-- The value of `record_address` when the record is written. -/
def placeOf (long : Bool) (n : Nat) (address : UInt16) (record : Std25dvNdefRecord) : UInt8 :=
  if long = false ∧ longAfter long n record = true then address.toUInt8 + 2 else address.toUInt8

/-- The record goes where it belongs, modulo 256. -/
theorem placeOf_toNat (h : HoldsMessage tag.mem long records address) :
    (placeOf long records.flatten.length address record).toNat =
      appendAddress long records.flatten.length record % 256 := by
  have haddress := h.address
  unfold placeOf appendAddress
  cases long with
  | true =>
    rw [if_neg fun hboth => Bool.noConfusion hboth.1, UInt16.toNat_toUInt8, haddress]
    rfl
  | false =>
    by_cases hgrows : longAfter false records.flatten.length record = true
    · rw [if_pos ⟨rfl, hgrows⟩, hgrows, UInt8.toNat_add, UInt16.toNat_toUInt8, haddress]
      show ((10 + records.flatten.length) % 256 + 2) % 256 = (12 + records.flatten.length) % 256
      omega
    · rw [if_neg fun hboth => hgrows hboth.2, Bool.eq_false_iff.mpr hgrows, UInt16.toNat_toUInt8,
        haddress]

/-- The record and, behind the last one, the terminator. -/
def writeRecord (place : UInt16) (me : Bool) (new : List UInt8) (tag : Tag) : Tag :=
  let tag := tag.write place new
  if me then tag.writeByte (place + UInt16.ofNat new.length) st25dvType5TerminatorTlv else tag

/-- A further record: the L field is updated, then the record is written. -/
theorem writeContent_eq (h : HoldsMessage tag.mem long records address)
    (hfit : recordSize record ≤ recordBufSzie) (me : Bool) :
    ∃ tag', LengthUpdated tag (longAfter long records.flatten.length record)
        (records.flatten.length + recordSize record) records.flatten tag' ∧
      st25dvNdefWriteContent address false me record tag =
        (espOk, (placeOf long records.flatten.length address record).toUInt16 +
            UInt16.ofNat (recordBytes false me record).length,
          writeRecord (placeOf long records.flatten.length address record).toUInt16 me
            (recordBytes false me record) tag') := by
  have haddress := h.address
  have hlt := address.toNat_lt
  have hbehind : address > ccfileLength := by
    have h8 : ccfileLength.toNat = 8 := rfl
    rw [gt_iff_lt, UInt16.lt_iff_toNat_lt, h8, haddress]
    unfold firstRecord
    split <;> omega
  obtain ⟨tag', heq, hupdated⟩ :=
    updateLength_spec h.holds h.short (by omega) hfit address.toUInt8
  refine ⟨tag', hupdated, ?_⟩
  unfold st25dvNdefWriteContent recordData
  simp only [if_pos hbehind, Bool.false_eq_true, if_false, List.nil_append, heq]
  rfl

theorem endAddress_toNat {place : UInt16} {n : Nat} (hfit : place.toNat + n < 65536) :
    (place + UInt16.ofNat n).toNat = place.toNat + n := by
  rw [UInt16.toNat_add, UInt16.toNat_ofNat']
  omega

/-- The byte behind the record touches nothing in front of it. -/
theorem load_writeRecord_eq {place : UInt16} {new : List UInt8}
    (hfit : place.toNat + new.length < 65536) {a n : Nat} (h : a + n ≤ place.toNat + new.length)
    (me : Bool) : (writeRecord place me new tag).mem.bytes.load a n =
      (tag.write place new).mem.bytes.load a n := by
  have hend := endAddress_toNat hfit
  cases me with
  | false => rfl
  | true =>
    apply load_write_of_apart
    · rw [hend]
      exact hfit
    · omega
    · exact Or.inr (by omega)

/-- A block apart from the record and the byte behind it. -/
theorem load_writeRecord_of_le {place : UInt16} {new : List UInt8}
    (hfit : place.toNat + new.length < 65536) {a n : Nat} (h : a + n ≤ place.toNat) (me : Bool) :
    (writeRecord place me new tag).mem.bytes.load a n = tag.mem.bytes.load a n := by
  rw [load_writeRecord_eq hfit (by omega) me]
  exact load_write_of_apart (by omega) (by omega) (Or.inr h)

/-- The record stands at its place. -/
theorem load_writeRecord_self {place : UInt16} {new : List UInt8}
    (hfit : place.toNat + new.length < 65536) (me : Bool) :
    (writeRecord place me new tag).mem.bytes.load place.toNat new.length = new := by
  rw [load_writeRecord_eq hfit (Nat.le_refl _) me]
  exact load_write_self (by omega)

theorem writes_writeRecord {place : UInt16} {new : List UInt8} (me : Bool) :
    ∃ ws, (writeRecord place me new tag).writes = tag.writes ++ (place, new) :: ws ∧
      ∀ w ∈ ws, w.2.length = 1 := by
  cases me with
  | false => exact ⟨[], rfl, List.forall_mem_nil _⟩
  | true =>
    refine ⟨_, List.append_assoc .., fun w hw => ?_⟩
    rw [List.mem_singleton.mp hw]
    rfl

theorem four_le_length_recordBytes (mb me : Bool) (record : Std25dvNdefRecord) :
    4 ≤ (recordBytes mb me record).length := by
  unfold recordBytes payloadLengthField
  split <;> simp only [List.length_append, List.length_cons, List.length_nil] <;> omega

/-- Below the limit the record goes where it belongs. -/
theorem writeContent_of_le (h : HoldsMessage tag.mem long records address)
    (hfit : recordSize record ≤ recordBufSzie)
    (hle : appendAddress long records.flatten.length record ≤ 255) (me : Bool) :
    ∃ tag' place, LengthUpdated tag (longAfter long records.flatten.length record)
        (records.flatten.length + recordSize record) records.flatten tag' ∧
      place.toNat = appendAddress long records.flatten.length record ∧
      place.toNat + (recordBytes false me record).length < 65536 ∧
      st25dvNdefWriteContent address false me record tag =
        (espOk, place + UInt16.ofNat (recordBytes false me record).length,
          writeRecord place me (recordBytes false me record) tag') := by
  obtain ⟨tag', hupdated, heq⟩ := writeContent_eq h hfit me
  have hplace : (placeOf long records.flatten.length address record).toNat = _ :=
    placeOf_toNat h
  rw [Nat.mod_eq_of_lt (Nat.lt_succ_of_le hle), ← UInt8.toNat_toUInt16] at hplace
  refine ⟨tag', _, hupdated, hplace, ?_, heq⟩
  -- a record that fits the staging buffer stays in the address space
  rw [hplace, length_recordBytes_of_fits hfit]
  unfold recordBufSzie at hfit
  omega

/-- Below the limit the record is appended. -/
theorem appended_of_le (h : HoldsMessage tag.mem long records address)
    (hfit : recordSize record ≤ recordBufSzie)
    (hle : appendAddress long records.flatten.length record ≤ 255) (me : Bool) :
    Appended tag (st25dvNdefWriteContent address false me record tag).2.2
      (longAfter long records.flatten.length record) records (recordBytes false me record) := by
  obtain ⟨tag', place, hupdated, hplace, hend, heq⟩ := writeContent_of_le h hfit hle me
  have hnew := length_recordBytes_of_fits hfit false me
  -- the record lies behind the L field and the records, so writing it leaves them alone
  have hlen := length_lengthField (longAfter long records.flatten.length record)
    (records.flatten.length + (recordBytes false me record).length)
  obtain ⟨ws, hws, _⟩ := hupdated.writes
  obtain ⟨ws', hws', _⟩ : ∃ ws', (writeRecord place me (recordBytes false me record) tag').writes =
      tag'.writes ++ (place, recordBytes false me record) :: ws' ∧ ∀ w ∈ ws', w.2.length = 1 :=
    writes_writeRecord me
  unfold appendAddress at hplace
  rw [heq]
  refine ⟨?_, ?_, ?_, ⟨(place, recordBytes false me record), ?_, hplace, rfl⟩, ?_⟩
  · rw [load_writeRecord_of_le hend (by omega)]
    exact hupdated.ccFile
  · rw [load_writeRecord_of_le hend (by omega)]
    exact hupdated.holds.body
  · rw [← hplace]
    exact load_writeRecord_self hend me
  · rw [hws', hws, List.append_assoc, List.drop_left]
    exact List.mem_append_right _ (List.mem_cons_self ..)
  · rw [load_writeRecord_of_le hend (by omega), hnew]
    exact hupdated.holds.length

/-- Above the limit no write of the call goes to the record's address. -/
theorem le_of_appended (h : HoldsMessage tag.mem long records address)
    (hfit : recordSize record ≤ recordBufSzie) (me : Bool)
    (happended : Appended tag (st25dvNdefWriteContent address false me record tag).2.2
      (longAfter long records.flatten.length record) records (recordBytes false me record)) :
    appendAddress long records.flatten.length record ≤ 255 := by
  obtain ⟨tag', hupdated, heq⟩ := writeContent_eq h hfit me
  rw [heq] at happended
  obtain ⟨w, hw, haddress, hbytes⟩ := happended.written
  obtain ⟨ws, hws, hsmall⟩ := hupdated.writes
  generalize (placeOf long records.flatten.length address record) = place at hw
  obtain ⟨ws', hws', hone⟩ : ∃ ws',
      (writeRecord place.toUInt16 me (recordBytes false me record) tag').writes =
        tag'.writes ++ (place.toUInt16, recordBytes false me record) :: ws' ∧
      ∀ w ∈ ws', w.2.length = 1 := writes_writeRecord me
  rw [hws', hws, List.append_assoc, List.drop_left] at hw
  unfold appendAddress
  rcases List.mem_append.mp hw with hw | hw
  · -- the writes to the L field and of the moved records
    rcases hsmall w hw with hnine | htwelve
    · rw [← haddress, hnine]
      decide
    · rw [← haddress, htwelve]
      decide
  · rcases List.mem_cons.mp hw with rfl | hw
    · rw [← haddress, UInt8.toNat_toUInt16]
      exact Nat.le_of_lt_succ (UInt8.toNat_lt _)
    · -- the terminator is shorter than a record
      have hlen := hone w hw
      have hfour := four_le_length_recordBytes false me record
      rw [hbytes] at hlen
      omega

/-- A further record that fits the staging buffer is appended exactly if the address at which
    it belongs, `*address` or two behind it if the L field grows, fits `record_address`. -/
theorem appended_iff (tag : Tag) (long : Bool) (records : List (List UInt8)) (address : UInt16)
    (me : Bool) (record : Std25dvNdefRecord) (h : HoldsMessage tag.mem long records address)
    (hfit : recordSize record ≤ recordBufSzie) :
    Appended tag (st25dvNdefWriteContent address false me record tag).2.2
      (longAfter long records.flatten.length record) records (recordBytes false me record) ↔
    address.toNat + growsBy tag record ≤ 255 := by
  rw [← appendAddress_eq h]
  exact ⟨le_of_appended h hfit me, fun hle => appended_of_le h hfit hle me⟩

/-! ## Messages written by the calls -/

/-- What is written for the first record of a message: the header with a short L field, and the
    record. -/
theorem recordData_first (hfit : 2 + recordSize record ≤ recordBufSzie) (me : Bool) :
    recordData true me record =
      st25dvType5NdefMessage :: UInt8.ofNat (recordSize record) :: recordBytes true me record := by
  unfold recordBufSzie at hfit
  have hlength := recordLength_toNat_of_fits (Nat.le_of_add_left_le hfit)
  have hshort : ¬ recordLength record > 0xFE := by
    intro hlong
    have hlt := UInt16.lt_iff_toNat_lt.mp hlong
    have h254 : (0xFE : UInt16).toNat = 254 := rfl
    omega
  have hbyte : (recordLength record).toUInt8 = UInt8.ofNat (recordSize record) := by
    rw [← toUInt8_ofNat, ← hlength, UInt16.ofNat_toNat]
  unfold recordData tlvHeader
  rw [if_pos rfl, if_neg hshort, hbyte]
  rfl

/-- The first record of a message goes to address 8, whichever address in the CC file is given. -/
theorem writeContent_first {address : UInt16} (haddress : address ≤ ccfileLength) (me : Bool)
    (tag : Tag) : st25dvNdefWriteContent address true me record tag =
      (espOk, 8 + UInt16.ofNat (recordData true me record).length,
        writeRecord 8 me (recordData true me record) tag) := by
  unfold st25dvNdefWriteContent
  simp only [gt_iff_lt, UInt16.not_lt.mpr haddress, if_false, if_true]
  rfl

/-- The first record of a message. -/
theorem holdsMessage_first {address : UInt16} (haddress : address ≤ ccfileLength)
    (hfit : 2 + recordSize record ≤ recordBufSzie) (me : Bool) (tag : Tag) :
    HoldsMessage (st25dvNdefWriteContent address true me record tag).2.2.mem false
      [recordBytes true me record] (st25dvNdefWriteContent address true me record tag).2.1 := by
  have hdata := recordData_first hfit me
  unfold recordBufSzie at hfit
  have hnew := length_recordBytes_of_fits (Nat.le_of_add_left_le hfit) true me
  have hlen : (recordData true me record).length = recordSize record + 2 := by
    rw [hdata, List.length_cons, List.length_cons, hnew]
  have height : (8 : UInt16).toNat = 8 := rfl
  have hend : (8 : UInt16).toNat + (recordData true me record).length < 65536 := by omega
  have hself : (writeRecord 8 me (recordData true me record) tag).mem.bytes.load 8
      (recordData true me record).length = recordData true me record :=
    load_writeRecord_self hend me
  -- the two bytes of the header, and the record behind them
  rw [hlen, Nat.add_comm, Mem.load_add, hdata] at hself
  have hsplit : _ = [st25dvType5NdefMessage, UInt8.ofNat (recordSize record)] ++
      recordBytes true me record := hself
  obtain ⟨hheader, hbody⟩ := List.append_inj hsplit (Mem.length_load ..)
  obtain ⟨htype, hrest⟩ := List.cons.inj hheader
  have hflat : [recordBytes true me record].flatten = recordBytes true me record := by
    rw [List.flatten_cons, List.flatten_nil, List.append_nil]
  rw [writeContent_first haddress]
  refine ⟨⟨?_, ?_, ?_⟩, fun _ => ?_, ?_⟩
  · rw [Mem.load_one, hdata]
    exact congrArg (fun b => [b]) htype
  · rw [hflat, hnew, hdata]
    exact hrest
  · rw [hflat, hnew, hdata]
    exact hbody
  · rw [hflat, hnew]
    omega
  · rw [endAddress_toNat hend, hflat, hnew, hlen]
    show 8 + (recordSize record + 2) = 10 + recordSize record
    omega

/-- A further record below the limit. -/
theorem holdsMessage_append (h : HoldsMessage tag.mem long records address)
    (hfit : recordSize record ≤ recordBufSzie)
    (hle : appendAddress long records.flatten.length record ≤ 255) (me : Bool) :
    HoldsMessage (st25dvNdefWriteContent address false me record tag).2.2.mem
      (longAfter long records.flatten.length record) (records ++ [recordBytes false me record])
      (st25dvNdefWriteContent address false me record tag).2.1 := by
  have happended := appended_of_le h hfit hle me
  obtain ⟨tag', place, hupdated, hplace, hend, heq⟩ := writeContent_of_le h hfit hle me
  have hnew := length_recordBytes_of_fits hfit false me
  -- type, L field and records are below the new record; its bytes follow them
  have hlen := length_lengthField (longAfter long records.flatten.length record)
    (records.flatten.length + (recordBytes false me record).length)
  have hflat : (records ++ [recordBytes false me record]).flatten =
      records.flatten ++ recordBytes false me record := by
    rw [List.flatten_append, List.flatten_singleton]
  unfold appendAddress at hplace
  refine ⟨⟨?_, ?_, ?_⟩, fun hshort => ?_, ?_⟩
  · rw [heq, load_writeRecord_of_le hend (by omega)]
    exact hupdated.holds.type
  · rw [hflat, List.length_append]
    exact happended.length
  · rw [hflat, List.length_append, Mem.load_add, happended.earlier, happended.stored]
  · rw [hflat, List.length_append, hnew]
    have hno := (Bool.or_eq_false_iff.mp hshort).2
    exact Nat.not_lt.mp (of_decide_eq_false hno)
  · rw [heq, hflat, List.length_append, endAddress_toNat hend, hplace, Nat.add_assoc]

/-- A further call; the state is `*address` and the tag, and a call is `me` and the record. -/
def appendStep (s : UInt16 × Tag) (call : Bool × Std25dvNdefRecord) : UInt16 × Tag :=
  (st25dvNdefWriteContent s.1 false call.1 call.2 s.2).2

/-- A call with a record that fits the staging buffer and whose address, behind the L field as
    the call leaves it, fits `record_address`. -/
def BelowLimit (s : UInt16 × Tag) (call : Bool × Std25dvNdefRecord) : Prop :=
  recordSize call.2 ≤ recordBufSzie ∧
    s.1.toNat + growsBy s.2 call.2 ≤ 255

/-- Calls below the limit keep the message, with the records they append. -/
theorem holdsMessage_run {s : UInt16 × Tag} {calls : List (Bool × Std25dvNdefRecord)}
    (h : HoldsMessage s.2.mem long records s.1)
    (hcalls : Machine.Meets appendStep BelowLimit s calls) :
    ∃ long', HoldsMessage (Machine.run appendStep s calls).2.mem long'
      (records ++ calls.map fun call => recordBytes false call.1 call.2)
      (Machine.run appendStep s calls).1 := by
  induction calls generalizing s long records with
  | nil =>
    rw [List.map_nil, List.append_nil]
    exact ⟨long, h⟩
  | cons call calls ih =>
    obtain ⟨⟨hfit, hle⟩, hrest⟩ := hcalls
    rw [← appendAddress_eq h] at hle
    obtain ⟨long', hrun⟩ := ih (holdsMessage_append h hfit hle call.1) hrest
    rw [List.append_assoc] at hrun
    exact ⟨long', hrun⟩

/-- A second record behind a short first one. -/
theorem appended_iff_second :
    Appended (st25dvNdefWriteContent 8 true false ⟨1, [0x54], [0x41]⟩ ⟨fun _ => 0, []⟩).2.2
      (st25dvNdefWriteContent 16 false true ⟨1, [0x55], [0x42]⟩
        (st25dvNdefWriteContent 8 true false ⟨1, [0x54], [0x41]⟩ ⟨fun _ => 0, []⟩).2.2).2.2
      false [recordBytes true false ⟨1, [0x54], [0x41]⟩]
      (recordBytes false true ⟨1, [0x55], [0x42]⟩) :=
  (appended_iff _ false _ _ true ⟨1, [0x55], [0x42]⟩
    (holdsMessage_first (UInt16.le_refl 8) (by decide) false ⟨fun _ => 0, []⟩)
    (by decide)).mpr (by decide)

/-- A record that ends in front of the address 256. -/
def longRecord : Std25dvNdefRecord := ⟨1, [], List.replicate 242 0x41⟩

/-- What the call that writes it returns, and leaves on the tag. -/
def tagTo256 : UInt16 × Tag := (st25dvNdefWriteContent 8 true false longRecord ⟨fun _ => 0, []⟩).2

/-- A record behind one that ends at the address 256 overwrites the CC file. -/
theorem not_appended :
    HoldsMessage tagTo256.2.mem false [recordBytes true false longRecord] tagTo256.1 ∧
      tagTo256.1 = 256 ∧ recordSize ⟨1, [0x55], [0x42]⟩ ≤ recordBufSzie ∧
      ¬Appended tagTo256.2
        (st25dvNdefWriteContent tagTo256.1 false true ⟨1, [0x55], [0x42]⟩ tagTo256.2).2.2
        (longAfter false [recordBytes true false longRecord].flatten.length
          ⟨1, [0x55], [0x42]⟩)
        [recordBytes true false longRecord] (recordBytes false true ⟨1, [0x55], [0x42]⟩) := by
  refine ⟨holdsMessage_first (UInt16.le_refl 8) (by decide +kernel) false ⟨fun _ => 0, []⟩,
    by decide +kernel, by decide, fun h => ?_⟩
  have hccFile := h.ccFile
  revert hccFile
  decide +kernel

end EspTesting.St25dv
