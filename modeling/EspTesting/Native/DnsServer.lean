import EspTesting.ForStd.Labels
import EspTesting.ForStd.Loop
import EspTesting.ForStd.Vector

/-!
# DNS server

The name matcher and the response handler of the DNS server (`dns_server.c`). A packet is the
memory behind its pointer: the functions also read behind the bytes that were received. A C
string is the list of its characters in front of the NUL.
-/

namespace EspTesting.Dns

open Labels (toLower block)

/-- `UDP_SEND_BUF_SIZE` -/
abbrev udpSendBufSize : Nat := 512
/-- `UDP_RECV_BUF_SIZE` -/
abbrev udpRecvBufSize : Nat := 512

/-- `sizeof(dns_header_t)` -/
abbrev sizeofDnsHeader : Nat := 12
/-- `sizeof(dns_answer_t)` -/
abbrev sizeofDnsAnswer : Nat := 14

/-- The characters of a string literal. -/
def cString (s : String) : List UInt8 := s.toList.map fun c => c.toNat.toUInt8

/-- `DEF_LOCAL_HOSTNAME` -/
def defLocalHostname : List UInt8 := cString "device.local"

/-! ## Matching the name -/

/-- The loop over the bytes of a label: `none` if the function returns `false` in it, else the
    rest of the host name. -/
def matchLabel (packet : Nat → UInt8) : Nat → Nat → List UInt8 → Option (List UInt8)
  | _, 0, h => some h
  | _, _ + 1, [] => none
  | offset, n + 1, c :: h =>
    if toLower (packet offset) ≠ toLower c then none else matchLabel packet (offset + 1) n h

/-- `if (*h == '.') h++` -/
def skipDot : List UInt8 → List UInt8
  | 46 :: h => h
  | h => h

/-- The variables of the loop over the labels. -/
structure MatchLoop where
  offset : Nat
  h : List UInt8
  /-- the function returned `false` from the loop -/
  failed : Bool
  deriving DecidableEq, Repr

/-- The condition of the loop over the labels. -/
def MatchLoop.more (packet : Nat → UInt8) (len : Nat) (s : MatchLoop) : Bool :=
  !s.failed && decide (s.offset < len) && packet s.offset != 0 && !s.h.isEmpty

/-- A pass of the loop over the labels. -/
def MatchLoop.next (packet : Nat → UInt8) (len : Nat) (s : MatchLoop) : MatchLoop :=
  let labelLen := (packet s.offset).toNat
  let offset := s.offset + 1
  if labelLen = 0 ∨ offset + labelLen > len then { s with failed := true }
  else
    match matchLabel packet offset labelLen s.h with
    | none => { s with failed := true }
    | some h => { s with offset := offset + labelLen, h := skipDot h }

/-- What is left of the packet. -/
def MatchLoop.measure (len : Nat) (s : MatchLoop) : Nat :=
  if s.failed then 0 else len - s.offset + 1

/-- `dns_hostname_match` -/
def dnsHostnameMatch (packet : Nat → UInt8) (len : Nat) (hostname : List UInt8) : Bool :=
  if len < sizeofDnsHeader then false
  else
    let s := Loop.run (MatchLoop.more packet len) (MatchLoop.next packet len)
      (MatchLoop.measure len) ⟨sizeofDnsHeader, hostname, false⟩
    -- the byte read here may lie behind the packet
    !s.failed && packet s.offset == 0 && s.h.isEmpty

/-! ## The response -/

/-- `ipv4_t`, by its bytes -/
structure Ipv4 where
  b₀ : UInt8
  b₁ : UInt8
  b₂ : UInt8
  b₃ : UInt8
  deriving DecidableEq, Repr

/-- `host_ip.bytes` -/
def Ipv4.bytes (ip : Ipv4) : List UInt8 := [ip.b₀, ip.b₁, ip.b₂, ip.b₃]

/-- The variables of the loop that looks for the end of the name. -/
structure NameScan where
  offset : Nat
  /-- the function returned `-1` from the loop -/
  failed : Bool
  deriving DecidableEq, Repr

/-- The condition of the loop that looks for the end of the name. -/
def NameScan.more (query : Nat → UInt8) (s : NameScan) : Bool :=
  !s.failed && query s.offset != 0 && decide (s.offset < udpSendBufSize)

/-- A pass of the loop that looks for the end of the name. -/
def NameScan.next (query : Nat → UInt8) (s : NameScan) : NameScan :=
  if s.offset + (query s.offset).toNat ≥ udpSendBufSize then { s with failed := true }
  else { s with offset := s.offset + ((query s.offset).toNat + 1) }

/-- What is left of the buffer. -/
def NameScan.measure (s : NameScan) : Nat :=
  if s.failed then 0 else udpSendBufSize - s.offset + 1

/-- The loop that looks for the end of the name. -/
def scanName (query : Nat → UInt8) : NameScan :=
  Loop.run (NameScan.more query) (NameScan.next query) NameScan.measure ⟨sizeofDnsHeader, false⟩

/-- A buffer of `UDP_SEND_BUF_SIZE` bytes. -/
abbrev SendBuf := Vector UInt8 udpSendBufSize

/-- The bytes in front of the address of the answer: the pointer `DNS_PTR_OFFSET`, and the
    fields of `dns_answer_t` in network order. -/
def answerHead : List UInt8 :=
  [0xC0, 0x0C] ++ [0, 1] ++ [0, 1] ++ [0, 0, 0, 120] ++ [0, 4]

/-- `dns_response_handler`: the length and the buffer, or `none` for `-1`, in which case the
    buffer is not looked at. -/
def dnsResponseHandler (query : Nat → UInt8) (queryLen : Nat) (hostIp : Ipv4) :
    Option (Nat × SendBuf) :=
  if queryLen = 0 ∨ hostIp = ⟨0, 0, 0, 0⟩ then none
  else if dnsHostnameMatch query queryLen defLocalHostname = false then none
  else
    let response : SendBuf := Vector.replicate _ 0
    let response := response.writeAt 0 (block query 0 sizeofDnsHeader)
    -- `hdr->ancount = htons(1)`
    let response := response.writeAt 6 [0, 1]
    let name := scanName query
    if name.failed then none
    else
      let offset := name.offset + 5
      if offset ≥ udpSendBufSize then none
      else
        let response := response.writeAt sizeofDnsHeader
          (block query sizeofDnsHeader (offset - sizeofDnsHeader))
        if offset + 2 + sizeofDnsAnswer > udpSendBufSize then none
        else
          let response := response.writeAt offset (answerHead ++ hostIp.bytes)
          some (offset + 2 + sizeofDnsAnswer, response)

end EspTesting.Dns
