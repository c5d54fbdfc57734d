import Mathlib.Algebra.GroupWithZero.Nat
import EspTesting.Spec.NdefAppend
import EspTesting.Spec.NdefReadTermination

/-!
# Reading back a message

A message written record by record with `st25dv_ndef_write_content` within the first 256 bytes
of the tag is read back by `st25dv_ndef_read`: the loop walks from record to record, no header
byte looks like a terminator, and the terminator behind the last record ends it.

## Key results

- `writeMessage_spec`: what the calls leave on the tag
- `ndefReadRecord_spec`: one turn of the loop on a record that was written
- `ndefRead_writeMessage`: every record of a message is read back
-/

namespace EspTesting.St25dv

/-! ## Writing a message -/

/-- The calls that write records in order; `mb` is set on the first one of a message, `me` on
    the last one. -/
def writeFrom (mb : Bool) : List Std25dvNdefRecord → UInt16 × Tag → UInt16 × Tag
  | [], s => s
  | record :: records, s =>
    writeFrom false records (st25dvNdefWriteContent s.1 mb records.isEmpty record s.2).2

/-- The calls that write a message behind the CC file. -/
def writeMessage (records : List Std25dvNdefRecord) (tag : Tag) : UInt16 × Tag :=
  writeFrom true records (ccfileLength, tag)

/-- The bytes of the records these calls write. -/
def messageBytes (mb : Bool) : List Std25dvNdefRecord → List (List UInt8)
  | [] => []
  | record :: records => recordBytes mb records.isEmpty record :: messageBytes false records

/-- The number of bytes of the records. -/
def messageSize (records : List Std25dvNdefRecord) : Nat := (records.map recordSize).sum

/-- A message on the tag, closed by a terminator. -/
structure Written (mem : UserMem) (bytes : List UInt8) : Prop where
  holds : Holds mem false bytes.length bytes
  terminator : mem.bytes.load (10 + bytes.length) 1 = [st25dvType5TerminatorTlv]

/-- The last record is followed by the terminator. -/
theorem terminator_of_me (address : UInt16) (mb : Bool) (record : Std25dvNdefRecord) (tag : Tag) :
    (st25dvNdefWriteContent address mb true record tag).2.2.mem.bytes.load
      (st25dvNdefWriteContent address mb true record tag).2.1.toNat 1 =
        [st25dvType5TerminatorTlv] := by
  have hlt := UInt16.toNat_lt (st25dvNdefWriteContent address mb true record tag).2.1
  exact load_write_self (Nat.succ_le_of_lt hlt)

/-- Further records, up to the last one. -/
theorem writeFrom_spec {records : List Std25dvNdefRecord} {s : UInt16 × Tag}
    {before : List (List UInt8)} (h : HoldsMessage s.2.mem false before s.1)
    (hend : records = [] →
      s.2.mem.bytes.load s.1.toNat 1 = [st25dvType5TerminatorTlv])
    (hfit : 10 + before.flatten.length + messageSize records < 256) :
    Written (writeFrom false records s).2.mem
      (before ++ messageBytes false records).flatten := by
  induction records generalizing s before with
  | nil =>
    unfold writeFrom messageBytes
    rw [List.append_nil]
    refine ⟨h.holds, ?_⟩
    have haddress := h.address
    rw [show firstRecord false = 10 from rfl] at haddress
    rw [← haddress]
    exact hend rfl
  | cons record records ih =>
    -- what is left fits one byte of length, so the field stays short and every address fits
    have hsize : messageSize (record :: records) = recordSize record + messageSize records :=
      List.sum_cons
    have hfit' : recordSize record ≤ recordBufSzie := by
      unfold recordBufSzie
      omega
    have hshort : longAfter false before.flatten.length record = false :=
      decide_eq_false (by omega)
    have hlimit : appendAddress false before.flatten.length record ≤ 255 := by
      unfold appendAddress
      rw [hshort, show firstRecord false = 10 from rfl]
      omega
    -- after one more record the rest is a shorter message on the tag it leaves
    have hnext := holdsMessage_append h hfit' hlimit records.isEmpty
    rw [hshort] at hnext
    have hbytes : before ++ messageBytes false (record :: records) =
        before ++ [recordBytes false records.isEmpty record] ++ messageBytes false records := by
      rw [List.append_assoc]
      rfl
    rw [hbytes]
    refine ih hnext (fun hnil => ?_) ?_
    · rw [hnil]
      exact terminator_of_me ..
    · have hlen := length_recordBytes_of_fits hfit' false records.isEmpty
      rw [List.flatten_append, List.length_append, List.flatten_singleton, hlen]
      omega

/-- The calls leave the records of the message and a terminator on the tag. -/
theorem writeMessage_spec {records : List Std25dvNdefRecord} (hne : records ≠ [])
    (hfit : 10 + messageSize records < 256) (tag : Tag) :
    Written (writeMessage records tag).2.mem (messageBytes true records).flatten := by
  cases records with
  | nil => exact absurd rfl hne
  | cons record records =>
    have hsize : messageSize (record :: records) = recordSize record + messageSize records :=
      List.sum_cons
    have hfit' : 2 + recordSize record ≤ recordBufSzie := by
      unfold recordBufSzie
      omega
    have hfirst := holdsMessage_first (UInt16.le_refl ccfileLength) hfit' records.isEmpty tag
    -- the first record, and the others behind it
    refine writeFrom_spec hfirst (fun hnil => ?_) ?_
    · rw [hnil]
      exact terminator_of_me ..
    · have hsmall : recordSize record ≤ recordBufSzie :=
        Nat.le_trans (Nat.le_add_left ..) hfit'
      have hlen := length_recordBytes_of_fits hsmall true records.isEmpty
      rw [List.flatten_singleton, hlen]
      omega

/-! ## Reading a record -/

/-- The header byte of a record that fits names it a short record with an ID length, carries
    its type, and is no terminator. -/
theorem recordTnf_spec {record : Std25dvNdefRecord} (hfit : recordSize record ≤ recordBufSzie)
    (htnf : record.tnf ≤ 7) (mb me : Bool) :
    ndefRecordHeaderBit (recordTnf mb me record) ndefSt25dvSr = true ∧
    ndefRecordHeaderBit (recordTnf mb me record) ndefSt25dvIl = true ∧
    recordTnf mb me record &&& ndefSt25dvPt = record.tnf ∧
    recordTnf mb me record ≠ st25dvType5TerminatorTlv := by
  -- the flags and the format do not meet
  have hbits : ∀ (mb me : Bool) (tnf : Fin 8),
      let header := (if mb then ndefSt25dvMb else 0) ||| (if me then ndefSt25dvMe else 0) |||
        ndefSt25dvSr ||| ndefSt25dvIl ||| UInt8.ofNat tnf
      ndefRecordHeaderBit header ndefSt25dvSr = true ∧
      ndefRecordHeaderBit header ndefSt25dvIl = true ∧
      header &&& ndefSt25dvPt = UInt8.ofNat tnf ∧ header ≠ st25dvType5TerminatorTlv := by
    decide
  have hlt : record.tnf.toNat < 8 := Nat.lt_succ_of_le (UInt8.le_iff_toNat_le.mp htnf)
  have htnf' : UInt8.ofNat record.tnf.toNat = record.tnf := UInt8.ofNat_toNat
  have hspec := hbits mb me ⟨record.tnf.toNat, hlt⟩
  dsimp only at hspec
  rw [htnf'] at hspec
  unfold recordTnf
  rw [if_neg (payloadSize_short_of_fits hfit)]
  exact hspec

/-- The bytes of a record on the tag, piece by piece. -/
theorem load_recordBytes {m : Mem} {p : Nat} {record : Std25dvNdefRecord} {mb me : Bool}
    (hfit : recordSize record ≤ recordBufSzie)
    (h : m.load p (recordSize record) = recordBytes mb me record) :
    m.load p 4 = [recordTnf mb me record, UInt8.ofNat record.type.length,
      UInt8.ofNat record.payload.length, 0] ∧
    m.load (p + 4) record.type.length = record.type ∧
    m.load (p + 4 + record.type.length) record.payload.length = record.payload := by
  rw [(recordSize_of_fits hfit).1, recordBytes_of_fits hfit, Nat.add_assoc, Mem.load_add] at h
  obtain ⟨hheader, hstrings⟩ := List.append_inj h (Mem.length_load ..)
  rw [Mem.load_add] at hstrings
  obtain ⟨htype, hpayload⟩ := List.append_inj hstrings (Mem.length_load ..)
  exact ⟨hheader, htype, hpayload⟩

/-- The memory at an address. -/
theorem apply_eq_bytes (mem : UserMem) (address : UInt16) :
    mem address = mem.bytes address.toNat := by
  unfold UserMem.bytes
  rw [UInt16.ofNat_toNat]

/-- An address that does not wrap. -/
theorem toNat_add_of_lt {address n : UInt16} (h : address.toNat + n.toNat < 65536) :
    (address + n).toNat = address.toNat + n.toNat := by
  rw [UInt16.toNat_add]
  exact Nat.mod_eq_of_lt h

/-- The header of a record that was written. -/
theorem ndefHeader_spec {mem : UserMem} {address : UInt16} {record : Std25dvNdefRecord}
    {mb me : Bool} (hfit : recordSize record ≤ recordBufSzie) (htnf : record.tnf ≤ 7)
    (hlt : address.toNat + 4 < 65536)
    (h : mem.bytes.load address.toNat 4 = [recordTnf mb me record,
      UInt8.ofNat record.type.length, UInt8.ofNat record.payload.length, 0]) :
    mem address = recordTnf mb me record ∧
    ndefHeader mem address = (UInt8.ofNat record.type.length,
      (UInt8.ofNat record.payload.length).toUInt16, address + 4) := by
  obtain ⟨hsr, hil, _⟩ := recordTnf_spec hfit htnf mb me
  -- the bytes of the header, one after the other
  obtain ⟨h0, hrest⟩ := List.cons.inj h
  obtain ⟨h1, hrest⟩ := List.cons.inj hrest
  obtain ⟨h2, _⟩ := List.cons.inj hrest
  have htnfByte : mem address = recordTnf mb me record := (apply_eq_bytes ..).trans h0
  have htype : mem (address + 1) = UInt8.ofNat record.type.length := by
    rw [apply_eq_bytes mem, toNat_add_of_lt (show _ + 1 < _ by omega)]
    exact h1
  have hpayload : mem (address + 2) = UInt8.ofNat record.payload.length := by
    rw [apply_eq_bytes mem, toNat_add_of_lt (show _ + 2 < _ by omega)]
    exact h2
  refine ⟨htnfByte, ?_⟩
  unfold ndefHeader
  simp only [htnfByte, hsr, hil, if_true, htype, hpayload]
  rw [UInt16.add_assoc]
  rfl

/-- A turn of the record loop on a record that was written. -/
theorem ndefReadRecord_spec {mem : UserMem} {s : NdefRead} {record : Std25dvNdefRecord}
    {mb me : Bool} (hfit : recordSize record ≤ recordBufSzie) (htnf : record.tnf ≤ 7)
    (hlt : s.address.toNat + recordSize record < 65536)
    (h : mem.bytes.load s.address.toNat (recordSize record) = recordBytes mb me record)
    (recordNum : UInt8) :
    let s' := ndefReadRecord mem recordNum s
    s'.address.toNat = s.address.toNat + recordSize record ∧
    s'.recordCount = s.recordCount + 1 ∧
    s'.outputRecords =
      (if s.recordCount + 1 = recordNum then some record else s.outputRecords) ∧
    s'.returned = decide (mem.bytes s'.address.toNat = st25dvType5TerminatorTlv) := by
  obtain ⟨hsize, hle⟩ := recordSize_of_fits hfit
  obtain ⟨hbytes, htype, hpayload⟩ := load_recordBytes hfit h
  obtain ⟨htnfByte, hheader⟩ := ndefHeader_spec hfit htnf (by omega) hbytes
  -- the lengths fit a byte and no address wraps
  have htypeLength : (UInt8.ofNat record.type.length).toNat = record.type.length := by
    rw [UInt8.toNat_ofNat']
    omega
  have hpayloadLength : (UInt8.ofNat record.payload.length).toUInt16.toNat =
      record.payload.length := by
    rw [UInt8.toNat_toUInt16, UInt8.toNat_ofNat']
    omega
  have hbehind : (s.address + 4).toNat = s.address.toNat + 4 :=
    toNat_add_of_lt (show _ + 4 < _ by omega)
  have hpayloadAddress : (s.address + 4 + (UInt8.ofNat record.type.length).toUInt16).toNat =
      s.address.toNat + 4 + record.type.length := by
    rw [toNat_add_of_lt (by rw [hbehind, UInt8.toNat_toUInt16, htypeLength]; omega), hbehind,
      UInt8.toNat_toUInt16, htypeLength]
  -- the address behind the record
  have haddress : (ndefReadRecord mem recordNum s).address.toNat =
      s.address.toNat + recordSize record := by
    rw [address_ndefReadRecord]
    unfold recordEnd
    rw [hheader]
    dsimp only
    rw [← UInt16.add_assoc, toNat_add_of_lt (by rw [hpayloadAddress, hpayloadLength]; omega),
      hpayloadAddress, hpayloadLength, hsize]
    omega
  refine ⟨haddress, rfl, ?_, ?_⟩
  · unfold ndefReadRecord
    rw [hheader, htnfByte]
    dsimp only
    by_cases hcopy : s.recordCount + 1 = recordNum
    · rw [if_pos hcopy, if_pos hcopy, st25dvRead_eq_load, st25dvRead_eq_load, hbehind, htypeLength,
        hpayloadAddress, hpayloadLength, htype, hpayload,
        (recordTnf_spec hfit htnf mb me).2.2.1]
    · rw [if_neg hcopy, if_neg hcopy]
  · rw [returned_ndefReadRecord, apply_eq_bytes mem]

/-! ## Reading a message -/

/-- The records `records` and a terminator stand on the tag from the address `p` on, in the area
    the loop covers. -/
structure Remaining (mem : UserMem) (p : Nat) (mb : Bool) (records : List Std25dvNdefRecord) :
    Prop where
  fits : ∀ record ∈ records, recordSize record ≤ recordBufSzie
  tnf : ∀ record ∈ records, record.tnf ≤ 7
  space : p + messageSize records < 65536
  area : p + messageSize records ≤ 10 + (ndefTlv mem).1.toNat
  load : mem.bytes.load p (messageSize records) = (messageBytes mb records).flatten
  terminator : mem.bytes (p + messageSize records) = st25dvType5TerminatorTlv

namespace Remaining

variable {mem : UserMem} {p : Nat} {mb : Bool} {record : Std25dvNdefRecord}
  {records : List Std25dvNdefRecord}

/-- The first record and what stands behind it. -/
theorem cons (h : Remaining mem p mb (record :: records)) :
    mem.bytes.load p (recordSize record) = recordBytes mb records.isEmpty record ∧
      Remaining mem (p + recordSize record) false records := by
  have hsize : messageSize (record :: records) = recordSize record + messageSize records :=
    List.sum_cons
  have hfit := h.fits record (List.mem_cons_self ..)
  have hload := h.load
  rw [hsize, Mem.load_add] at hload
  obtain ⟨hfirst, hrest⟩ := List.append_inj
    (hload.trans (List.flatten_cons ..)) (by rw [Mem.length_load, length_recordBytes_of_fits hfit])
  -- the first record is cut off
  refine ⟨hfirst, ?_, ?_, ?_, ?_, hrest, ?_⟩
  · exact fun r hr => h.fits r (List.mem_cons_of_mem _ hr)
  · exact fun r hr => h.tnf r (List.mem_cons_of_mem _ hr)
  · rw [Nat.add_assoc, ← hsize]
    exact h.space
  · rw [Nat.add_assoc, ← hsize]
    exact h.area
  · rw [Nat.add_assoc, ← hsize]
    exact h.terminator

/-- A record does not begin like a terminator. -/
theorem first_ne_terminator (h : Remaining mem p mb (record :: records)) :
    mem.bytes p ≠ st25dvType5TerminatorTlv := by
  have hfit := h.fits record (List.mem_cons_self ..)
  have htnf := h.tnf record (List.mem_cons_self ..)
  have hbytes := (load_recordBytes hfit h.cons.1).1
  have hfirst : mem.bytes p = recordTnf mb records.isEmpty record := (List.cons.inj hbytes).1
  rw [hfirst]
  exact (recordTnf_spec hfit htnf mb records.isEmpty).2.2.2

/-- The record copied out by a turn and by the turns behind it. -/
theorem output_cons (count number : Nat) (record : Std25dvNdefRecord)
    (records : List Std25dvNdefRecord) (output : Option Std25dvNdefRecord) :
    (if count + 1 < number then records[number - (count + 1 + 1)]? else none).or
        (if count + 1 = number then some record else output) =
      (if count < number then (record :: records)[number - (count + 1)]? else none).or output := by
  -- the record asked for is the first one, or behind it
  by_cases hlast : count + 1 = number
  · rw [if_neg (by omega), if_pos hlast, if_pos (by omega), hlast, Nat.sub_self]
    rfl
  · rw [if_neg hlast]
    by_cases hlt : count < number
    · rw [if_pos (by omega), if_pos hlt,
        show number - (count + 1) = number - (count + 1 + 1) + 1 by omega]
      rfl
    · rw [if_neg (by omega), if_neg hlt]

/-- The record loop goes on in front of a record. -/
theorem cond_eq_true {record : Std25dvNdefRecord} {enda1 : UInt8}
    (h : Remaining mem p mb (record :: records)) {s : NdefRead} (hlive : s.returned = false)
    (hp : s.address.toNat = p) : ndefCond mem enda1 s = true := by
  obtain ⟨_, hrest⟩ := h.cons
  have harea := hrest.area
  have h8 : ccfileLength.toNat = 8 := rfl
  unfold ndefCond ndefInArea
  rw [hlive, hp, h8, decide_eq_true (show p < 8 + (ndefTlv mem).1.toNat + 3 by omega),
    Bool.or_true]
  rfl

/-- The record loop on the rest of a message: it ends at the terminator, has counted the
    records, and has copied out the one with the number asked for. -/
theorem exits {enda1 recordNum : UInt8} (h : Remaining mem p mb records) (hne : records ≠ [])
    {s : NdefRead} (hlive : s.returned = false) (hp : s.address.toNat = p)
    (hcount : s.recordCount.toNat + records.length < 256) :
    ∃ n s', Loop.Exits (ndefCond mem enda1) (ndefReadRecord mem recordNum) n s s' ∧
      s'.recordCount.toNat = s.recordCount.toNat + records.length ∧
      s'.outputRecords = (if s.recordCount.toNat < recordNum.toNat
        then records[recordNum.toNat - (s.recordCount.toNat + 1)]? else none).or
          s.outputRecords := by
  induction records generalizing s mb p with
  | nil => exact absurd rfl hne
  | cons record records ih =>
    obtain ⟨hrecord, hrest⟩ := h.cons
    have hspace := hrest.space
    have hfit := h.fits record (List.mem_cons_self ..)
    have htnf := h.tnf record (List.mem_cons_self ..)
    rw [← hp] at hrecord
    obtain ⟨haddress, hcount', houtput, hreturned⟩ :=
      ndefReadRecord_spec hfit htnf (by omega) hrecord recordNum
    have hcond : ndefCond mem enda1 s = true := h.cond_eq_true hlive hp
    rw [List.length_cons] at hcount
    have hone : (s.recordCount + 1).toNat = s.recordCount.toNat + 1 := by
      rw [UInt8.toNat_add]
      exact Nat.mod_eq_of_lt (by show _ + 1 < 256; omega)
    have hcopy : s.recordCount + 1 = recordNum ↔ s.recordCount.toNat + 1 = recordNum.toNat := by
      rw [← hone, UInt8.toNat_inj]
    rw [hp] at haddress
    rw [if_congr hcopy rfl rfl] at houtput
    cases records with
    | nil =>
      -- the terminator stands behind the last record
      have hend : (ndefReadRecord mem recordNum s).returned = true := by
        rw [hreturned, haddress]
        exact decide_eq_true hrest.terminator
      have hdone : ndefCond mem enda1 (ndefReadRecord mem recordNum s) = false := by
        unfold ndefCond
        rw [hend]
        rfl
      refine ⟨1, _, .step hcond (.done hdone), by rw [hcount', hone]; rfl, ?_⟩
      rw [houtput, ← output_cons, List.getElem?_nil, ite_self, Option.none_or]
    | cons next records =>
      have hlive' : (ndefReadRecord mem recordNum s).returned = false := by
        rw [hreturned, haddress]
        exact decide_eq_false hrest.first_ne_terminator
      obtain ⟨n, s', hexits, hcounted, houtputs⟩ := ih hrest (List.cons_ne_nil _ _) hlive' haddress
        (by rw [hcount', hone]; omega)
      refine ⟨n + 1, s', .step hcond hexits, ?_, ?_⟩
      · rw [hcounted, hcount', hone]
        simp only [List.length_cons]
        omega
      · rw [houtputs, houtput, hcount', hone, output_cons]

end Remaining

/-- A record is not larger than the message. -/
theorem recordSize_le_messageSize {records : List Std25dvNdefRecord} {record : Std25dvNdefRecord}
    (h : record ∈ records) : recordSize record ≤ messageSize records := by
  induction records with
  | nil => exact absurd h List.not_mem_nil
  | cons first records ih =>
    have hsize : messageSize (first :: records) = recordSize first + messageSize records :=
      List.sum_cons
    rcases List.mem_cons.mp h with rfl | hmem
    · omega
    · have hle := ih hmem
      omega

/-- There are not more records than bytes. -/
theorem length_le_messageSize (records : List Std25dvNdefRecord) :
    records.length ≤ messageSize records := by
  induction records with
  | nil => exact Nat.zero_le _
  | cons record records ih =>
    have hsize : messageSize (record :: records) = recordSize record + messageSize records :=
      List.sum_cons
    have hpos : 1 ≤ recordSize record := by
      unfold recordSize
      omega
    rw [List.length_cons]
    omega

/-- The records take as many bytes as the sizes say. -/
theorem length_messageBytes {records : List Std25dvNdefRecord} (mb : Bool)
    (hfit : ∀ record ∈ records, recordSize record ≤ recordBufSzie) :
    (messageBytes mb records).flatten.length = messageSize records := by
  induction records generalizing mb with
  | nil => rfl
  | cons record records ih =>
    rw [List.forall_mem_cons] at hfit
    unfold messageBytes
    rw [List.flatten_cons, List.length_append, length_recordBytes_of_fits hfit.1, ih false hfit.2]
    exact List.sum_cons.symm

/-- The tag after a message was written, as the record loop finds it. -/
theorem remaining_of_written {mem : UserMem} {records : List Std25dvNdefRecord}
    (hfit : 10 + messageSize records < 256) (htnf : ∀ record ∈ records, record.tnf ≤ 7)
    (h : Written mem (messageBytes true records).flatten) :
    ndefIsMessage mem = true ∧ ndefStart mem = ⟨10, 0, none, false⟩ ∧
      Remaining mem 10 true records := by
  have hfits : ∀ record ∈ records, recordSize record ≤ recordBufSzie := fun record hmem => by
    have hle := recordSize_le_messageSize hmem
    unfold recordBufSzie
    omega
  have hlen := length_messageBytes true hfits
  have htype : mem 8 = st25dvType5NdefMessage := (List.cons.inj h.holds.type).1
  have hlength : mem 9 = UInt8.ofNat (messageSize records) := by
    have hnine := (List.cons.inj h.holds.length).1
    rw [hlen] at hnine
    exact hnine
  have hval : (UInt8.ofNat (messageSize records)).toNat = messageSize records := by
    rw [UInt8.toNat_ofNat']
    omega
  -- a length below `0xFF` is read as a short field
  have hne : UInt8.ofNat (messageSize records) ≠ 0xFF := by
    intro heq
    rw [heq] at hval
    have h255 : (0xFF : UInt8).toNat = 255 := rfl
    omega
  have htlv : ndefTlv mem = ((UInt8.ofNat (messageSize records)).toUInt16, 10) := by
    have hbyte : (st25dvRead mem ccfileLength 4).getD 1 0 = UInt8.ofNat (messageSize records) :=
      hlength
    unfold ndefTlv
    dsimp only
    rw [hbyte]
    exact if_neg hne
  refine ⟨decide_eq_true htype, ?_, hfits, htnf, ?_, ?_, ?_, ?_⟩
  · unfold ndefStart
    rw [htlv]
  · omega
  · rw [htlv, UInt8.toNat_toUInt16, hval]
  · rw [← hlen]
    exact h.holds.body
  · rw [← hlen]
    exact (List.cons.inj h.terminator).1

/-- Every record of a message written within the first 256 bytes of the tag is read back, with
    the number of the records: for every earlier content of the tag and every value of
    `ENDA1`, `st25dv_ndef_read` ends, has copied out the record asked for and has counted the
    records. -/
theorem ndefRead_writeMessage (records : List Std25dvNdefRecord) (tag : Tag) (enda1 : UInt8)
    (k : Nat) (htnf : ∀ record ∈ records, record.tnf ≤ 7)
    (hfit : ccfileLength.toNat + 2 + messageSize records + 1 ≤ 256) (hk : k < records.length) :
    ndefIsMessage (writeMessage records tag).2.mem = true ∧
    ∃ n s', Loop.Exits (ndefCond (writeMessage records tag).2.mem enda1)
        (ndefReadRecord (writeMessage records tag).2.mem (UInt8.ofNat (k + 1))) n
        (ndefStart (writeMessage records tag).2.mem) s' ∧
      s'.outputRecords = some (records.get ⟨k, hk⟩) ∧ s'.recordCount.toNat = records.length := by
  have hspace : 10 + messageSize records < 256 := by
    have h8 : ccfileLength.toNat = 8 := rfl
    omega
  have hne : records ≠ [] := List.ne_nil_of_length_pos (Nat.zero_lt_of_lt hk)
  obtain ⟨hmessage, hstart, hremaining⟩ :=
    remaining_of_written hspace htnf (writeMessage_spec hne hspace tag)
  have hlength := length_le_messageSize records
  have hnum : (UInt8.ofNat (k + 1)).toNat = k + 1 := by
    rw [UInt8.toNat_ofNat']
    omega
  obtain ⟨n, s', hexits, hcount, houtput⟩ := hremaining.exits
    (s := ⟨10, 0, none, false⟩) hne rfl rfl (by show 0 + _ < _; omega)
  rw [hstart]
  refine ⟨hmessage, n, s', hexits, ?_, ?_⟩
  · rw [houtput, hnum]
    show (if 0 < k + 1 then records[k + 1 - (0 + 1)]? else none).or none = _
    rw [if_pos (Nat.succ_pos k), Option.or_none]
    exact List.getElem?_eq_getElem hk
  · rw [hcount]
    exact Nat.zero_add _

/-- A message of two records, on a tag full of terminators. -/
theorem ndefRead_writeMessage_second :
    ∃ n s', Loop.Exits
        (ndefCond (writeMessage [⟨4, [0x61], [0x62]⟩, ⟨2, [0x63], []⟩] ⟨fun _ => 0xFE, []⟩).2.mem 3)
        (ndefReadRecord
          (writeMessage [⟨4, [0x61], [0x62]⟩, ⟨2, [0x63], []⟩] ⟨fun _ => 0xFE, []⟩).2.mem 2) n
        (ndefStart (writeMessage [⟨4, [0x61], [0x62]⟩, ⟨2, [0x63], []⟩] ⟨fun _ => 0xFE, []⟩).2.mem)
        s' ∧
      s'.outputRecords = some ⟨2, [0x63], []⟩ ∧ s'.recordCount.toNat = 2 :=
  (ndefRead_writeMessage [⟨4, [0x61], [0x62]⟩, ⟨2, [0x63], []⟩] ⟨fun _ => 0xFE, []⟩ 3 1
    (by decide) (by decide) (by decide)).2

end EspTesting.St25dv
