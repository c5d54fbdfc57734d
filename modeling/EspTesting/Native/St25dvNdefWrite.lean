import EspTesting.Native.EspErr
import EspTesting.Native.St25dvNdef

/-!
# Writing NDEF records to the tag

`st25dv_ndef_write_content` (`st25dv_ndef.c`). Every I2C access succeeds, and the user memory
of the tag keeps the bytes written to it; the record of the writes made stands beside it. A
string is the list of its characters in front of the zero. What the function puts into the
staging buffer is the list of bytes from `record_data` to `data`; the buffer holds the first
`recordBufSzie` of them.
-/

namespace EspTesting.St25dv

/-- `RECORD_BUF_SZIE` -/
abbrev recordBufSzie : Nat := 256
/-- `NDEF_ST25DV_MB` -/
abbrev ndefSt25dvMb : UInt8 := (1 : UInt8) <<< 7
/-- `NDEF_ST25DV_ME` -/
abbrev ndefSt25dvMe : UInt8 := (1 : UInt8) <<< 6

/-! ## The tag -/

/-- The user memory with the bytes stored from the address on. -/
def UserMem.store (mem : UserMem) (address : UInt16) (bytes : List UInt8) : UserMem := fun x =>
  (bytes[(x - address).toNat]?).getD (mem x)

/-- The tag: its user memory and the writes made to it. -/
structure Tag where
  mem : UserMem
  writes : List (UInt16 × List UInt8)

/-- `st25dv_write` on the user memory -/
def Tag.write (address : UInt16) (bytes : List UInt8) (tag : Tag) : Tag where
  mem := tag.mem.store address bytes
  writes := tag.writes ++ [(address, bytes)]

/-- `st25dv_write_byte` on the user memory -/
def Tag.writeByte (address : UInt16) (byte : UInt8) (tag : Tag) : Tag := tag.write address [byte]

/-! ## Staging a record -/

/-- `type_size` -/
def typeSize (record : Std25dvNdefRecord) : UInt8 := UInt8.ofNat record.type.length

/-- `payload_size` -/
def payloadSize (record : Std25dvNdefRecord) : UInt16 := UInt16.ofNat record.payload.length

/-- `record_length` -/
def recordLength (record : Std25dvNdefRecord) : UInt16 :=
  1 + 1 + (if payloadSize record > 0xFF then 4 else 1) + 1 + (typeSize record).toUInt16 +
    payloadSize record

/-- The header byte `tnf` of a record. -/
def recordTnf (mb me : Bool) (record : Std25dvNdefRecord) : UInt8 :=
  (if mb then ndefSt25dvMb else 0) ||| (if me then ndefSt25dvMe else 0) |||
    (if payloadSize record > 0xFF then 0 else ndefSt25dvSr) ||| ndefSt25dvIl ||| record.tnf

/-- The payload length field. -/
def payloadLengthField (payloadSize : UInt16) : List UInt8 :=
  if payloadSize > 0xFF then
    [(payloadSize.toUInt32 >>> 24).toUInt8, (payloadSize.toUInt32 >>> 16).toUInt8,
      (payloadSize >>> 8).toUInt8, payloadSize.toUInt8]
  else [payloadSize.toUInt8]

/-- The bytes of a record. -/
def recordBytes (mb me : Bool) (record : Std25dvNdefRecord) : List UInt8 :=
  [recordTnf mb me record, typeSize record] ++ payloadLengthField (payloadSize record) ++ [0x00] ++
    record.type.take (typeSize record).toNat ++ record.payload.take (payloadSize record).toNat

/-- The TLV header in front of the first record. -/
def tlvHeader (recordLength : UInt16) : List UInt8 :=
  st25dvType5NdefMessage ::
    if recordLength > 0xFE then [0xFF, (recordLength >>> 8).toUInt8, recordLength.toUInt8]
    else [recordLength.toUInt8]

/-- The bytes staged in `record_data`. -/
def recordData (mb me : Bool) (record : Std25dvNdefRecord) : List UInt8 :=
  (if mb then tlvHeader (recordLength record) else []) ++ recordBytes mb me record

/-! ## Writing a record -/

/-- The update of the L field in front of a further record; the second value is the new
    `record_address`. -/
def updateLength (recordLength : UInt16) (recordAddress : UInt8) (tag : Tag) : Tag × UInt8 :=
  let lValue := st25dvRead tag.mem (ccfileLength + 1) 3
  if lValue.getD 0 0 = 0xFF then
    -- an L field of three bytes keeps its form
    let oldLength := ((lValue.getD 1 0).toUInt16 <<< 8) ||| (lValue.getD 2 0).toUInt16
    let totalLength := oldLength + recordLength
    (tag.write (ccfileLength + 1) [0xFF, (totalLength >>> 8).toUInt8, totalLength.toUInt8],
      recordAddress)
  else
    let oldLength := (lValue.getD 0 0).toUInt16
    let totalLength := oldLength + recordLength
    if totalLength > 0xFE then
      -- the L field grows by two bytes, and the records move up by two
      let st25dvContent := st25dvRead tag.mem (ccfileLength + 2) oldLength.toNat
      let tag :=
        tag.write (ccfileLength + 1) [0xFF, (totalLength >>> 8).toUInt8, totalLength.toUInt8]
      (tag.write (ccfileLength + 4) st25dvContent, recordAddress + 2)
    else (tag.writeByte (ccfileLength + 1) totalLength.toUInt8, recordAddress)

/-- `st25dv_ndef_write_content`; the second value is the new `*address`. -/
def st25dvNdefWriteContent (address : UInt16) (mb me : Bool) (record : Std25dvNdefRecord)
    (tag : Tag) : EspErr × UInt16 × Tag :=
  let data := recordData mb me record
  let recordAddress : UInt8 :=
    -- `record_address` is a `uint8_t`, `*address` a `uint16_t`
    if address > ccfileLength then address.toUInt8 else ccfileLength.toUInt8
  let (tag, recordAddress) :=
    if mb then (tag, recordAddress) else updateLength (recordLength record) recordAddress tag
  let tag := tag.write recordAddress.toUInt16 data
  let endAddress := recordAddress.toUInt16 + UInt16.ofNat data.length
  let tag := if me then tag.writeByte endAddress st25dvType5TerminatorTlv else tag
  (espOk, endAddress, tag)

end EspTesting.St25dv
