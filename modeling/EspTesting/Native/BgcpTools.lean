import EspTesting.ForStd.Loop

/-!
# BGCP frames

`check_bgcp_protocol` (`bgcp_tools.c`), the check of a frame that carries a BGCP message. The
bytes behind the pointer are a list, and the bytes behind its end are not read.
-/

namespace EspTesting.Bgcp

/-- `MIN_BGCP_MES_SIZE` -/
abbrev minBgcpMesSize : UInt16 := 10

/-- The variables of the loop that sums up the bytes. -/
structure ChecksumLoop where
  i : UInt16
  chksum1 : UInt16
  deriving DecidableEq, Repr

/-- `i <= size - 3`, where both sides are `int`. -/
def ChecksumLoop.more (size : UInt16) (s : ChecksumLoop) : Bool :=
  (s.i.toNat : Int) ≤ size.toNat - 3

/-- `chksum1 += data[i]` -/
def ChecksumLoop.addByte (data : List UInt8) (s : ChecksumLoop) : ChecksumLoop :=
  { i := s.i + 1, chksum1 := s.chksum1 + (data.getD s.i.toNat 0).toUInt16 }

/-- The loop of `check_bgcp_protocol`. -/
def ChecksumLoop.run (data : List UInt8) (size : UInt16) : ChecksumLoop :=
  Loop.run (more size) (addByte data) (fun s => size.toNat - s.i.toNat) ⟨2, 0⟩

/-- `check_bgcp_protocol` -/
def checkBgcpProtocol (data : List UInt8) (size : UInt16) : Bool :=
  if size < minBgcpMesSize ∨ data.getD 0 0 ≠ 0xFD ∨ data.getD 1 0 ≠ 0xFD then false
  else
    let chksum2 := ((data.getD (size.toNat - 1) 0).toUInt16 <<< 8) |||
      (data.getD (size.toNat - 2) 0).toUInt16
    (ChecksumLoop.run data size).chksum1 = chksum2

end EspTesting.Bgcp
