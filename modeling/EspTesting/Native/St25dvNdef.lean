import EspTesting.ForStd.Loop

/-!
# Reading NDEF records from the tag

`st25dv_ndef_read` (`st25dv_ndef.c`). The user memory of the tag is a function of the
16-bit address, and every I2C read succeeds and returns the bytes stored there; `malloc`
succeeds. Addresses are `uint16_t` and wrap.
-/

namespace EspTesting.St25dv

/-- `CCFILE_LENGTH` -/
abbrev ccfileLength : UInt16 := 0x08
/-- `ST25DV_TYPE5_NDEF_MESSAGE` -/
abbrev st25dvType5NdefMessage : UInt8 := 0x03
/-- `ST25DV_TYPE5_TERMINATOR_TLV` -/
abbrev st25dvType5TerminatorTlv : UInt8 := 0xFE

/-- `NDEF_ST25DV_SR` -/
abbrev ndefSt25dvSr : UInt8 := (1 : UInt8) <<< 4
/-- `NDEF_ST25DV_IL` -/
abbrev ndefSt25dvIl : UInt8 := (1 : UInt8) <<< 3
/-- `NDEF_ST25DV_PT` -/
abbrev ndefSt25dvPt : UInt8 := 0x07

/-- The user memory of the tag. -/
abbrev UserMem := UInt16 → UInt8

/-- `st25dv_read` on the user memory. -/
def st25dvRead (tag : UserMem) (address : UInt16) (size : Nat) : List UInt8 :=
  (List.range size).map fun i => tag (address + UInt16.ofNat i)

/-- `NDEF_RECORD_HEADER_BIT` -/
def ndefRecordHeaderBit (header bit : UInt8) : Bool := header &&& bit = bit

/-- `std25dv_ndef_record`; `type` and `payload` are the strings without the added zero. -/
structure Std25dvNdefRecord where
  tnf : UInt8
  type : List UInt8
  payload : List UInt8
  deriving DecidableEq, Repr

/-- The variables the record loop changes. `returned` is set where the loop returns from
    the function at a terminator. -/
structure NdefRead where
  address : UInt16
  recordCount : UInt8
  outputRecords : Option Std25dvNdefRecord
  returned : Bool
  deriving DecidableEq, Repr

/-- The value of `l_value` and the address of the first record, from the TLV header. -/
def ndefTlv (tag : UserMem) : UInt16 × UInt16 :=
  let tlv := st25dvRead tag ccfileLength 4
  -- an L field of three bytes
  if tlv.getD 1 0 = 0xFF then
    (((tlv.getD 2 0).toUInt16 <<< 8) ||| (tlv.getD 3 0).toUInt16, ccfileLength + 4)
  else ((tlv.getD 1 0).toUInt16, ccfileLength + 2)

/-- `enda1` as the function uses it: the block number converted to bytes, in a `uint8_t`. -/
def ndefEnda1 (enda1 : UInt8) : UInt8 := enda1 * 32 + 31

/-- The condition of the record loop on the address, computed in `int`. -/
def ndefInArea (tag : UserMem) (enda1 : UInt8) (address : UInt16) : Bool :=
  address.toNat < (ndefEnda1 enda1).toNat ||
    address.toNat < ccfileLength.toNat + (ndefTlv tag).1.toNat + 3

/-- The loop goes on. -/
def ndefCond (tag : UserMem) (enda1 : UInt8) (s : NdefRead) : Bool :=
  !s.returned && ndefInArea tag enda1 s.address

/-- The type length, the payload length and the address behind the header of the record at
    `address`. The payload length of a long record is cut to 16 bits. -/
def ndefHeader (tag : UserMem) (address : UInt16) : UInt8 × UInt16 × UInt16 :=
  let vValue := tag address
  let typeLength := tag (address + 1)
  let (payloadLength, address) :=
    if ndefRecordHeaderBit vValue ndefSt25dvSr then
      ((tag (address + 2)).toUInt16, address + 3)
    else
      -- a long record; the upper half of its length is shifted out of the `uint16_t`
      let data := st25dvRead tag (address + 2) 4
      (((data.getD 0 0).toUInt32 <<< 24 ||| (data.getD 1 0).toUInt32 <<< 16 |||
        (data.getD 2 0).toUInt32 <<< 8 ||| (data.getD 3 0).toUInt32).toUInt16, address + 6)
  (typeLength, payloadLength,
    if ndefRecordHeaderBit vValue ndefSt25dvIl then address + 1 else address)

/-- The body of the record loop. -/
def ndefReadRecord (tag : UserMem) (recordNum : UInt8) (s : NdefRead) : NdefRead :=
  let payloadType := tag s.address &&& ndefSt25dvPt
  let (typeLength, payloadLength, address) := ndefHeader tag s.address
  let recordCount := s.recordCount + 1
  let (outputRecords, address) :=
    if recordCount = recordNum then
      let type := st25dvRead tag address typeLength.toNat
      let address := address + typeLength.toUInt16
      let payload := st25dvRead tag address payloadLength.toNat
      (some ⟨payloadType, type, payload⟩, address + payloadLength)
    -- the address behind the record is the same whether it is copied or not
    else (s.outputRecords, address + (typeLength.toUInt16 + payloadLength))
  let endChar := tag address
  -- the loop ends only at a terminator right behind a record, or by its condition
  { address, recordCount, outputRecords, returned := endChar = st25dvType5TerminatorTlv }

/-- The state in which the record loop starts. -/
def ndefStart (tag : UserMem) : NdefRead := ⟨(ndefTlv tag).2, 0, none, false⟩

/-- The tag holds an NDEF message, which the function checks in front of the loop. -/
def ndefIsMessage (tag : UserMem) : Bool := tag ccfileLength = st25dvType5NdefMessage

end EspTesting.St25dv
