import EspTesting.ForStd.Memory
import EspTesting.ForStd.UInt
import EspTesting.Native.St25dvNdefWrite

/-!
# The tag as byte memory

The user memory of the tag, addressed with 16 bits, as byte memory: reads are loads, and a
write that does not run past the end of the address space is a store. A record that fits the
staging buffer is staged with its own lengths.

## Key results

- `load_bytes_store`: a block loaded after a write
- `recordBytes_of_fits`: the bytes of a record that fits the staging buffer
-/

namespace EspTesting.St25dv

/-- The user memory as byte memory. -/
def UserMem.bytes (mem : UserMem) : Mem := fun a => mem (UInt16.ofNat a)

/-- Reading the tag is loading from its memory. -/
theorem st25dvRead_eq_load (mem : UserMem) (address : UInt16) (size : Nat) :
    st25dvRead mem address size = mem.bytes.load address.toNat size := by
  apply List.map_congr_left
  intro i _
  show mem _ = mem (UInt16.ofNat (address.toNat + i))
  rw [UInt16.ofNat_add, UInt16.ofNat_toNat]

/-- A write that stays in the address space is a store. -/
theorem bytes_store {mem : UserMem} {address : UInt16} {bytes : List UInt8}
    (hfit : address.toNat + bytes.length ≤ 65536) {a : Nat} (ha : a < 65536) :
    (mem.store address bytes).bytes a = mem.bytes.store address.toNat bytes a := by
  have haddress := address.toNat_lt
  have hsub : (UInt16.ofNat a - address).toNat = (65536 - address.toNat + a) % 65536 := by
    rw [UInt16.toNat_sub, UInt16.toNat_ofNat_of_lt' ha]
  unfold UserMem.bytes UserMem.store Mem.store
  rw [hsub]
  -- below the address the 16-bit difference wraps to an index behind the block
  by_cases hle : address.toNat ≤ a
  · rw [if_pos hle, show (65536 - address.toNat + a) % 65536 = a - address.toNat by omega]
  · rw [if_neg hle, show (65536 - address.toNat + a) % 65536 = 65536 - address.toNat + a by omega,
      List.getElem?_eq_none (by omega)]
    rfl

/-- A block loaded after a write. -/
theorem load_bytes_store {mem : UserMem} {address : UInt16} {bytes : List UInt8} {a n : Nat}
    (hfit : address.toNat + bytes.length ≤ 65536) (hn : a + n ≤ 65536) :
    (mem.store address bytes).bytes.load a n =
      (mem.bytes.store address.toNat bytes).load a n :=
  Mem.load_eq_iff.mpr fun _ _ hx => bytes_store hfit (Nat.lt_of_lt_of_le hx hn)

/-- What was just written is read back. -/
theorem load_write_self {tag : Tag} {address : UInt16} {bytes : List UInt8}
    (hfit : address.toNat + bytes.length ≤ 65536) :
    (tag.write address bytes).mem.bytes.load address.toNat bytes.length = bytes :=
  (load_bytes_store hfit hfit).trans (Mem.load_store ..)

/-- A write leaves what is apart from it. -/
theorem load_write_of_apart {tag : Tag} {address : UInt16} {bytes : List UInt8} {a n : Nat}
    (hfit : address.toNat + bytes.length ≤ 65536) (hn : a + n ≤ 65536)
    (h : Mem.Apart address.toNat bytes.length a n) :
    (tag.write address bytes).mem.bytes.load a n = tag.mem.bytes.load a n :=
  (load_bytes_store hfit hn).trans (Mem.load_store_of_apart h)

/-! ## Records that fit -/

/-- The bytes a record takes, with the lengths of its strings. -/
def recordSize (record : Std25dvNdefRecord) : Nat :=
  1 + 1 + (if record.payload.length > 0xFF then 4 else 1) + 1 + record.type.length +
    record.payload.length

section

variable {record : Std25dvNdefRecord} (hfit : recordSize record ≤ recordBufSzie)
include hfit

/-- A record that fits is a short one. -/
theorem recordSize_of_fits :
    recordSize record = 4 + record.type.length + record.payload.length ∧
      record.type.length + record.payload.length ≤ 252 := by
  unfold recordSize recordBufSzie at hfit
  unfold recordSize
  -- a payload of more than 255 bytes does not fit
  split at hfit
  · omega
  · rename_i hshort
    rw [if_neg hshort]
    omega

/-- The type length of a record that fits is not cut. -/
theorem typeSize_toNat_of_fits : (typeSize record).toNat = record.type.length := by
  obtain ⟨_, hle⟩ := recordSize_of_fits hfit
  unfold typeSize
  rw [UInt8.toNat_ofNat']
  omega

/-- The payload length of a record that fits is not cut. -/
theorem payloadSize_toNat_of_fits : (payloadSize record).toNat = record.payload.length := by
  obtain ⟨_, hle⟩ := recordSize_of_fits hfit
  unfold payloadSize
  rw [UInt16.toNat_ofNat']
  omega

/-- A record that fits is a short record. -/
theorem payloadSize_short_of_fits : ¬ payloadSize record > 0xFF := by
  obtain ⟨_, hle⟩ := recordSize_of_fits hfit
  intro hlong
  have hlt := UInt16.lt_iff_toNat_lt.mp hlong
  rw [payloadSize_toNat_of_fits hfit] at hlt
  have h255 : (0xFF : UInt16).toNat = 255 := rfl
  omega

/-- `record_length` is the number of bytes the record takes. -/
theorem recordLength_toNat_of_fits : (recordLength record).toNat = recordSize record := by
  obtain ⟨hsize, hle⟩ := recordSize_of_fits hfit
  have htype := typeSize_toNat_of_fits hfit
  have hpayload := payloadSize_toNat_of_fits hfit
  unfold recordLength
  rw [if_neg (payloadSize_short_of_fits hfit), hsize]
  simp only [UInt16.toNat_add, UInt8.toNat_toUInt16, htype, hpayload, UInt16.toNat_ofNat]
  omega

/-- The bytes of a record that fits. -/
theorem recordBytes_of_fits (mb me : Bool) : recordBytes mb me record =
    [recordTnf mb me record, UInt8.ofNat record.type.length,
      UInt8.ofNat record.payload.length, 0] ++ (record.type ++ record.payload) := by
  have hshort := payloadSize_short_of_fits hfit
  have hbyte : (payloadSize record).toUInt8 = UInt8.ofNat record.payload.length := by
    apply UInt8.toNat_inj.mp
    rw [UInt16.toNat_toUInt8, payloadSize_toNat_of_fits hfit, UInt8.toNat_ofNat']
  unfold recordBytes payloadLengthField
  rw [if_neg hshort, typeSize_toNat_of_fits hfit, payloadSize_toNat_of_fits hfit,
    List.take_length, List.take_length, hbyte, List.append_assoc]
  rfl

/-- A record that fits takes as many bytes as its size says. -/
theorem length_recordBytes_of_fits (mb me : Bool) :
    (recordBytes mb me record).length = recordSize record := by
  rw [recordBytes_of_fits hfit, List.length_append, List.length_append,
    (recordSize_of_fits hfit).1]
  simp only [List.length_cons, List.length_nil]
  omega

end

/-! ## Messages -/

/-- The L field of a message of `n` bytes, in its form with one byte or with three. -/
def lengthField (long : Bool) (n : Nat) : List UInt8 :=
  if long then [0xFF, (UInt16.ofNat n >>> 8).toUInt8, (UInt16.ofNat n).toUInt8]
  else [UInt8.ofNat n]

/-- The address of the first record. -/
def firstRecord (long : Bool) : Nat := if long then 12 else 10

/-- Where the first record begins depends on the form of the length only. -/
theorem length_lengthField (long : Bool) (n : Nat) :
    (lengthField long n).length + 9 = firstRecord long := by
  cases long <;> rfl

/-- A message of the type NDEF, whose L field says `n`, with the bytes `body` behind it. -/
structure Holds (mem : UserMem) (long : Bool) (n : Nat) (body : List UInt8) : Prop where
  type : mem.bytes.load 8 1 = [st25dvType5NdefMessage]
  length : mem.bytes.load 9 (lengthField long n).length = lengthField long n
  body : mem.bytes.load (firstRecord long) body.length = body

/-- The tag holds a message of the records `records`, and `address` is the address behind
    them. -/
structure HoldsMessage (mem : UserMem) (long : Bool) (records : List (List UInt8))
    (address : UInt16) : Prop where
  holds : Holds mem long records.flatten.length records.flatten
  short : long = false → records.flatten.length ≤ 0xFE
  address : address.toNat = firstRecord long + records.flatten.length

end EspTesting.St25dv
