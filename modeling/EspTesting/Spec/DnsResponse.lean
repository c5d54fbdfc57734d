import Mathlib.Logic.Function.Basic
import EspTesting.ForStd.Labels
import EspTesting.Native.DnsServer
import EspTesting.Spec.DnsMatch

/-!
# DNS responses

What `dns_response_handler` puts into a response for a packet that its matcher accepts
(`responseBytes`), and on which bytes of the receive buffer it depends: the type and the class
of the question are copied from behind the name, also where the packet ends before.

## Key results

- `reply_eq`: the reply to a packet that the matcher accepts
- `dnsResponse_received_iff`
-/

namespace EspTesting.Dns

open Labels

variable {query query' : Nat → UInt8} {queryLen : Nat} {hostIp : Ipv4} {ls : List Label}
  {h : List UInt8}

/-! ## The end of the name -/

/-- Skipping a dot makes nothing longer. -/
theorem length_skipDot_le (h : List UInt8) : (skipDot h).length ≤ h.length := by
  unfold skipDot
  split
  · simp
  · exact Nat.le_refl _

/-- Labels that spell the host name take at most two bytes for each of its characters. -/
theorem size_le_of_spells {off : Nat} (hwire : OnWire query off ls) (hspell : Spells h ls) :
    size ls ≤ 2 * h.length := by
  induction ls generalizing off h with
  | nil => exact Nat.zero_le _
  | cons l ls ih =>
    obtain ⟨hne, _, _, hrest⟩ := hwire
    have hsize := ih hrest hspell.2
    -- a label takes its bytes and one more, and each has one byte at least
    have hdot := length_skipDot_le (h.drop l.length)
    have hlen := congrArg List.length hspell.1
    have hpos := List.length_pos_iff.mpr hne
    rw [length_lower, length_lower, List.length_take] at hlen
    rw [List.length_drop] at hdot
    simp only [size]
    omega

/-- The name has twelve bytes. -/
theorem length_defLocalHostname : defLocalHostname.length = 12 := by decide

/-- Every turn of the scan comes closer to the end of the buffer. -/
theorem decreases_nameScan (query : Nat → UInt8) :
    Loop.Decreases (NameScan.more query) (NameScan.next query) NameScan.measure := by
  intro s hmore
  simp only [NameScan.more, Bool.and_eq_true, Bool.not_eq_true', decide_eq_true_eq] at hmore
  unfold NameScan.next
  split
  · simp [NameScan.measure, hmore.1.1]
  · simp only [NameScan.measure, hmore.1.1, Bool.false_eq_true, if_false]
    omega

/-- The loop over a name that ends in the buffer stops at the byte zero behind it. -/
theorem scan_of_closed {off : Nat} (hclosed : Closed query off ls)
    (hfits : off + size ls < udpSendBufSize) :
    Loop.run (NameScan.more query) (NameScan.next query) NameScan.measure ⟨off, false⟩ =
      ⟨off + size ls, false⟩ := by
  induction ls generalizing off with
  | nil =>
    apply Loop.run_done
    have hzero : query off = 0 := hclosed.2
    simp [NameScan.more, hzero]
  | cons l ls ih =>
    have hne := hclosed.1.ne_zero
    obtain ⟨⟨_, hlen, _, hrest⟩, hzero⟩ := hclosed
    simp only [size] at hfits hzero ⊢
    have hmore : NameScan.more query ⟨off, false⟩ = true := by
      simp only [NameScan.more, Bool.not_false, Bool.true_and, Bool.and_eq_true, bne_iff_ne,
        decide_eq_true_eq]
      exact ⟨hne, by omega⟩
    -- the turn goes to the next label
    have hnext : NameScan.next query ⟨off, false⟩ = ⟨off + (l.length + 1), false⟩ := by
      have hshort : ¬off + (query off).toNat ≥ udpSendBufSize := by omega
      unfold NameScan.next
      rw [if_neg hshort, hlen]
    rw [Loop.run_step (decreases_nameScan query) hmore, hnext,
      ih ⟨hrest, by rwa [Nat.add_assoc]⟩ (by omega), Nat.add_assoc]

/-! ## The response -/

/-- The response to a packet with a name that ends at `z`: the header with the number of answers
    set to one, the question, and the answer. -/
def responseBytes (query : Nat → UInt8) (z : Nat) (hostIp : Ipv4) : List UInt8 :=
  block query 0 6 ++ [0, 1] ++ block query 8 4 ++
    block query sizeofDnsHeader (z + 5 - sizeofDnsHeader) ++ (answerHead ++ hostIp.bytes)

/-- What is sent: the length, and as many bytes of the buffer. -/
def reply (query : Nat → UInt8) (queryLen : Nat) (hostIp : Ipv4) : Option (Nat × List UInt8) :=
  (dnsResponseHandler query queryLen hostIp).map fun r => (r.1, r.2.toList.take r.1)

/-- From the header on up to `z` lie labels that spell the host name. -/
def SpelledTo (query : Nat → UInt8) (z : Nat) : Prop :=
  ∃ ls, OnWire query sizeofDnsHeader ls ∧ z = sizeofDnsHeader + size ls ∧
    Spells defLocalHostname ls

/-- The matcher accepts the packet, for a name that ends at `z`. -/
structure Matches (query : Nat → UInt8) (queryLen z : Nat) : Prop where
  spelled : SpelledTo query z
  le_len : z ≤ queryLen
  zero : query z = 0

/-- A query matches exactly if the name is spelled in it. -/
theorem dnsHostnameMatch_iff_matches :
    dnsHostnameMatch query queryLen defLocalHostname = true ↔ ∃ z, Matches query queryLen z := by
  rw [dnsHostnameMatch_eq_true_iff]
  constructor
  · rintro ⟨ls, hclosed, hsize, hspell⟩
    exact ⟨_, ⟨ls, hclosed.1, rfl, hspell⟩, hsize, hclosed.2⟩
  · rintro ⟨_, ⟨ls, hwire, rfl, hspell⟩, hsize, hzero⟩
    exact ⟨ls, ⟨hwire, hzero⟩, hsize, hspell⟩

/-- Labels that spell the host name are short. -/
theorem SpelledTo.le {z : Nat} (h : SpelledTo query z) : 12 ≤ z ∧ z ≤ 36 := by
  obtain ⟨ls, hwire, rfl, hspell⟩ := h
  have hsize := size_le_of_spells hwire hspell
  rw [length_defLocalHostname] at hsize
  have hheader : sizeofDnsHeader = 12 := rfl
  omega

/-- Whether the name is spelled depends on the bytes in front of its end. -/
theorem SpelledTo.congr {z : Nat} (h : SpelledTo query z) (hsame : ∀ i < z, query' i = query i) :
    SpelledTo query' z := by
  obtain ⟨ls, hwire, rfl, hspell⟩ := h
  exact ⟨ls, hwire.congr fun i _ hi => (hsame i hi).symm, rfl, hspell⟩

/-- Labels up to the end of the packet are those of a name only if a byte zero follows. -/
theorem SpelledTo.not_matches (h : SpelledTo query queryLen) (hne : query queryLen ≠ 0)
    (z : Nat) : ¬Matches query queryLen z := by
  rintro ⟨⟨ls', hwire', rfl, _⟩, hle, hzero⟩
  obtain ⟨ls, hwire, hz, _⟩ := h
  have hsize := hwire.size_le_of_closed ⟨hwire', hzero⟩
  have heq : sizeofDnsHeader + size ls' = queryLen := by omega
  rw [← heq] at hne
  exact hne hzero

/-- The header of the response, after the number of answers has been stored. -/
theorem take_header (query : Nat → UInt8) :
    (((Vector.replicate udpSendBufSize 0).writeAt 0 (block query 0 sizeofDnsHeader)).writeAt 6
      [0, 1]).toList.take sizeofDnsHeader = block query 0 6 ++ [0, 1] ++ block query 8 4 := by
  have hblock : block query 0 sizeofDnsHeader = block query 0 6 ++ (block query 6 2 ++
      block query 8 4) := by
    rw [← block_add, ← block_add]
  have hfits : 0 + (block query 0 sizeofDnsHeader).length ≤ udpSendBufSize := by
    rw [length_block]
    decide
  rw [Vector.toList_writeAt _ _ (by decide), Vector.toList_writeAt _ _ hfits, List.take_zero,
    List.nil_append, hblock]
  generalize List.drop _ (Vector.toList _) = rest
  -- behind the two bytes of the count
  have hdrop : List.drop (6 + ([0, 1] : List UInt8).length)
      (block query 0 6 ++ (block query 6 2 ++ block query 8 4) ++ rest) =
      block query 8 4 ++ rest := by
    rw [← List.append_assoc (block query 0 6), List.append_assoc, List.drop_left' (by simp)]
  have htake : List.take 6 (block query 0 6 ++ (block query 6 2 ++ block query 8 4) ++ rest) =
      block query 0 6 := by
    rw [List.append_assoc, List.take_left' (by simp)]
  rw [hdrop, htake, ← List.append_assoc, List.take_left' (by simp)]

/-- The reply to a packet that the matcher accepts. -/
theorem reply_eq (hip : hostIp ≠ ⟨0, 0, 0, 0⟩) {z : Nat} (hmatch : Matches query queryLen z) :
    reply query queryLen hostIp = some (z + 21, responseBytes query z hostIp) := by
  have hz := hmatch.spelled.le
  have htrue := dnsHostnameMatch_iff_matches.mpr ⟨z, hmatch⟩
  obtain ⟨⟨ls, hwire, hzeq, _⟩, hle, hzero⟩ := hmatch
  have hscan : scanName query = ⟨z, false⟩ := by
    unfold scanName
    rw [scan_of_closed ⟨hwire, hzeq ▸ hzero⟩ (by rw [← hzeq]; show z < 512; omega), hzeq]
  have hstart : ¬(queryLen = 0 ∨ hostIp = ⟨0, 0, 0, 0⟩) := by
    rw [not_or]
    exact ⟨by omega, hip⟩
  -- the answer has room in the buffer
  have hfits : ¬z + 5 ≥ udpSendBufSize ∧ ¬z + 5 + 2 + sizeofDnsAnswer > udpSendBufSize := by
    show ¬z + 5 ≥ 512 ∧ ¬z + 5 + 2 + 14 > 512
    omega
  unfold reply dnsResponseHandler
  simp only [if_neg hstart, htrue, Bool.true_eq_false, if_false, hscan, Bool.false_eq_true, hfits.1,
    hfits.2, Option.map_some, Option.some.injEq, Prod.mk.injEq]
  refine ⟨rfl, ?_⟩
  have hheader := take_header query
  generalize (((Vector.replicate udpSendBufSize 0).writeAt 0
    (block query 0 sizeofDnsHeader)).writeAt 6 [0, 1]) = buf at hheader
  -- the question and the answer follow the header in the buffer
  have hquestion := @Vector.take_toList_writeAt _ _ buf sizeofDnsHeader
    (block query sizeofDnsHeader (z + 5 - sizeofDnsHeader))
    (by rw [length_block]; show 12 + (z + 5 - 12) ≤ 512; omega)
  rw [hheader, length_block, show sizeofDnsHeader + (z + 5 - sizeofDnsHeader) = z + 5 by
    show 12 + (z + 5 - 12) = z + 5; omega] at hquestion
  have hanswer := @Vector.take_toList_writeAt _ _
    (buf.writeAt sizeofDnsHeader (block query sizeofDnsHeader (z + 5 - sizeofDnsHeader)))
    (z + 5) (answerHead ++ hostIp.bytes) (by show z + 5 + 16 ≤ 512; omega)
  rw [hquestion] at hanswer
  exact hanswer

/-- Without an address there is no reply. -/
theorem reply_of_no_ip (query : Nat → UInt8) (queryLen : Nat) :
    reply query queryLen ⟨0, 0, 0, 0⟩ = none := by
  unfold reply dnsResponseHandler
  rw [if_pos (Or.inr rfl)]
  rfl

/-- No reply goes out for a packet that the matcher does not accept. -/
theorem reply_eq_none (hnone : ∀ z, ¬Matches query queryLen z) :
    reply query queryLen hostIp = none := by
  -- no match, no reply
  have hmatch : dnsHostnameMatch query queryLen defLocalHostname = false := by
    rw [Bool.eq_false_iff]
    intro htrue
    obtain ⟨z, hz⟩ := dnsHostnameMatch_iff_matches.mp htrue
    exact hnone z hz
  unfold reply dnsResponseHandler
  split
  · rfl
  · rfl

/-! ## Bytes behind the packet -/

/-- The reply depends on the query up to the end of the question. -/
theorem responseBytes_congr {z : Nat} (hz : 12 ≤ z) (hsame : ∀ i < z + 5, query' i = query i) :
    responseBytes query' z hostIp = responseBytes query z hostIp := by
  have hblock (off n : Nat) (hle : off + n ≤ z + 5) : block query' off n = block query off n :=
    block_congr fun i _ hi => hsame i (by omega)
  have hheader : sizeofDnsHeader = 12 := rfl
  unfold responseBytes
  rw [hblock 0 6 (by omega), hblock 8 4 (by omega), hblock _ _ (by omega)]

/-- The question is part of the response. -/
theorem eq_of_responseBytes_eq {z i : Nat}
    (h : responseBytes query' z hostIp = responseBytes query z hostIp) (hle : 12 ≤ i)
    (hlt : i < z + 5) : query' i = query i := by
  unfold responseBytes at h
  have hquestion := List.append_inj_right (List.append_inj_left h (by simp)) (by simp)
  have hheader : sizeofDnsHeader = 12 := rfl
  exact eq_of_block_eq hquestion hle (by omega)

/-- A name inside the packet is found in every buffer with the same packet. -/
theorem Matches.congr {z : Nat} (h : Matches query queryLen z) (hlt : z < queryLen)
    (hsame : ∀ i < queryLen, query' i = query i) : Matches query' queryLen z := by
  refine ⟨h.spelled.congr fun i hi => hsame i (by omega), h.le_len, ?_⟩
  rw [hsame z hlt]
  exact h.zero

/-- The reply to a packet in which every name is followed by the rest of the question. -/
theorem reply_congr (hinside : ∀ z, SpelledTo query z → z ≤ queryLen →
      (z < queryLen → query z = 0) → z + 5 ≤ queryLen)
    (hsame : ∀ i < queryLen, query' i = query i) :
    reply query' queryLen hostIp = reply query queryLen hostIp := by
  by_cases hip : hostIp = ⟨0, 0, 0, 0⟩
  · rw [hip, reply_of_no_ip, reply_of_no_ip]
  by_cases hany : ∃ z, Matches query queryLen z
  · obtain ⟨z, h⟩ := hany
    have hbound := hinside z h.spelled h.le_len fun _ => h.zero
    have hz := h.spelled.le
    rw [reply_eq hip h, reply_eq hip (h.congr (by omega) hsame),
      responseBytes_congr hz.1 fun i hi => hsame i (by omega)]
  · rw [not_exists] at hany
    rw [reply_eq_none hany, reply_eq_none]
    intro z h'
    -- a match in the other buffer is one in this buffer, too
    have hback : ∀ i < queryLen, query i = query' i := fun i hi => (hsame i hi).symm
    have hspelled : SpelledTo query z := h'.spelled.congr fun i hi => hback i (by
      have := h'.le_len
      omega)
    have hbound := hinside z hspelled h'.le_len fun hlt => (hback z hlt).trans h'.zero
    exact hany z (h'.congr (by omega) hback)

/-- The byte right behind a packet that ends within the question decides about the reply. -/
theorem reply_update_ne (hip : hostIp ≠ ⟨0, 0, 0, 0⟩) {z : Nat} (hspelled : SpelledTo query z)
    (hle : z ≤ queryLen) (hzero : z < queryLen → query z = 0) (hshort : queryLen < z + 5) :
    reply (Function.update query queryLen 0) queryLen hostIp ≠
      reply (Function.update query queryLen 1) queryLen hostIp := by
  intro heq
  have hz := hspelled.le
  have hspelled' (b : UInt8) : SpelledTo (Function.update query queryLen b) z :=
    hspelled.congr fun i hi => Function.update_of_ne (by omega) b query
  rcases Nat.lt_or_eq_of_le hle with hlt | rfl
  · -- as a part of the type or the class
    have hmatch (b : UInt8) : Matches (Function.update query queryLen b) queryLen z := by
      refine ⟨hspelled' b, hle, ?_⟩
      rw [Function.update_of_ne (by omega)]
      exact hzero hlt
    rw [reply_eq hip (hmatch 0), reply_eq hip (hmatch 1), Option.some.injEq,
      Prod.mk.injEq] at heq
    have hbyte := @eq_of_responseBytes_eq _ _ _ z queryLen heq.2 (by omega) (by omega)
    rw [Function.update_self, Function.update_self] at hbyte
    exact absurd hbyte (by decide)
  · -- as the end of the name
    have hnone := (hspelled' 1).not_matches (by rw [Function.update_self]; decide)
    rw [reply_eq hip ⟨hspelled' 0, hle, Function.update_self ..⟩, reply_eq_none hnone] at heq
    exact absurd heq (Option.some_ne_none _)

/-- The reply depends on the bytes received only, and not on what else the receive buffer holds,
    exactly if no address is set or labels that spell the host name, up to a byte zero or the end
    of the packet, are followed by all bytes of the question within the packet. -/
theorem dnsResponse_received_iff (query : Nat → UInt8) (queryLen : Nat) (hostIp : Ipv4) :
    (∀ query' : Nat → UInt8, (∀ i, i < queryLen ∨ udpRecvBufSize ≤ i → query' i = query i) →
      reply query' queryLen hostIp = reply query queryLen hostIp) ↔
      hostIp = ⟨0, 0, 0, 0⟩ ∨ ∀ z, SpelledTo query z → z ≤ queryLen →
        (z < queryLen → query z = 0) → z + 5 ≤ queryLen := by
  constructor
  · intro hsame
    by_cases hip : hostIp = ⟨0, 0, 0, 0⟩
    · exact Or.inl hip
    apply Or.inr
    intro z hspelled hle hzero
    apply Nat.le_of_not_lt
    intro hshort
    -- change the first byte behind the query
    have hreply (b : UInt8) :
        reply (Function.update query queryLen b) queryLen hostIp = reply query queryLen hostIp := by
      apply hsame
      intro i hi
      have hz := hspelled.le
      have hbuf : udpRecvBufSize = 512 := rfl
      rw [Function.update_of_ne]
      omega
    apply reply_update_ne hip hspelled hle hzero hshort
    exact (hreply 0).trans (hreply 1).symm
  · rintro (rfl | hinside) query' hsame
    · rw [reply_of_no_ip, reply_of_no_ip]
    · apply reply_congr hinside
      exact fun i hi => hsame i (Or.inl hi)

/-- A query for the host name that ends with the name. -/
def shortQuery : List UInt8 :=
  List.replicate 12 0 ++ 6 :: cString "device" ++ 5 :: cString "local" ++ [0]

/-- A receive buffer with the query, the byte 0 that its type begins with, and what an earlier
    datagram has left behind these 27 bytes. -/
def recvBuf (earlier : List UInt8) : Nat → UInt8 := fun i => (shortQuery ++ 0 :: earlier).getD i 0

/-- The type and the class in the reply are those of an earlier datagram: the 27 bytes that
    count are the same, and the replies are not. -/
theorem dnsResponse_not_received :
    (∀ i < 27, recvBuf [1, 0, 1] i = recvBuf [] i) ∧
      reply (recvBuf [1, 0, 1]) 27 ⟨192, 168, 4, 1⟩ ≠
        reply (recvBuf []) 27 ⟨192, 168, 4, 1⟩ := by
  decide +kernel

end EspTesting.Dns
