import EspTesting.ForStd.DnsMessage
import EspTesting.Spec.DnsResponse

/-!
# DNS responses as messages

The header of a response is that of the query but for the number of answers. So the flag that
makes a message a response is never set, and no response is one to its query.

## Key results

- `flags_of_response`: a response has the flags of its query
- `dnsResponse_not_answer`
-/

namespace EspTesting.Dns

open Labels DnsMessage

variable {query : Nat → UInt8} {queryLen : Nat} {hostIp : Ipv4} {z : Nat}

/-- A word inside a block is the word of the query. -/
theorem word_block {n off : Nat} (h : off + 1 < n) :
    word (block query 0 n) off =
      some ((query off).toNat * 256 + (query (off + 1)).toNat) := by
  have hget (i : Nat) (hi : i < n) : (block query 0 n)[i]? = some (query i) := by
    simp [block, hi]
  unfold word
  rw [hget off (by omega), hget (off + 1) h]
  rfl

/-- The reply has the flags of the query. -/
theorem word_responseBytes_flags (query : Nat → UInt8) (z : Nat) (hostIp : Ipv4) :
    word (responseBytes query z hostIp) 2 = some ((query 2).toNat * 256 + (query 3).toNat) := by
  -- the first six bytes are copied
  have hget (i : Nat) (hi : i < 6) : (responseBytes query z hostIp)[i]? = some (query i) := by
    have hlen : i < (block query 0 6).length := by
      rw [length_block]
      exact hi
    unfold responseBytes
    rw [List.append_assoc, List.append_assoc, List.append_assoc, List.getElem?_append_left hlen]
    simp [block, hi]
  unfold word
  rw [hget 2 (by omega), hget (2 + 1) (by omega)]
  rfl

/-- A response has the flags of its query. -/
theorem flags_of_response {m a : Message} (hmatch : Matches query queryLen z)
    (hquery : parse (block query 0 queryLen) = some m)
    (hanswer : parse (responseBytes query z hostIp) = some a) : a.flags = m.flags := by
  have hle := hmatch.spelled.le
  have hlen := hmatch.le_len
  apply flags_eq_of_word_eq hquery hanswer
  rw [word_responseBytes_flags, word_block (by omega)]

/-- Every query that the matcher accepts is replied to, and never with an answer to it. -/
theorem dnsResponse_not_answer (query : Nat → UInt8) (queryLen : Nat) (hostIp : Ipv4)
    (hip : hostIp ≠ ⟨0, 0, 0, 0⟩) (m : Message)
    (hparse : parse (block query 0 queryLen) = some m) (hquery : m.IsQuery)
    (hmatch : dnsHostnameMatch query queryLen defLocalHostname = true) :
    ∃ len bytes, reply query queryLen hostIp = some (len, bytes) ∧ 0 < len ∧
      ¬∃ a, parse bytes = some a ∧ a.IsAnswerTo m hostIp.bytes := by
  obtain ⟨z, hz⟩ := dnsHostnameMatch_iff_matches.mp hmatch
  refine ⟨z + 21, responseBytes query z hostIp, reply_eq hip hz, by omega, ?_⟩
  rintro ⟨a, ha, hanswer⟩
  have hqr := hanswer.qr
  unfold Message.qr at hqr
  rw [flags_of_response hz hparse ha] at hqr
  exact absurd (hqr.symm.trans hquery.qr) Bool.noConfusion

/-- A query for the host name. -/
def localQuery : List UInt8 :=
  [0x12, 0x34, 0x01, 0x00, 0, 1, 0, 0, 0, 0, 0, 0] ++ 6 :: cString "device" ++
    5 :: cString "local" ++ [0, 0, 1, 0, 1]

/-- The message that the query is. -/
def localMessage : Message :=
  ⟨0x1234, 0x0100, [⟨[cString "device", cString "local"], 1, 1⟩], [], [], []⟩

/-- The reply to the query. -/
theorem dnsResponse_not_answer_local :
    ∃ len bytes, reply (fun i => localQuery.getD i 0) 30 ⟨192, 168, 4, 1⟩ = some (len, bytes) ∧
      0 < len ∧ ¬∃ a, parse bytes = some a ∧ a.IsAnswerTo localMessage [192, 168, 4, 1] :=
  dnsResponse_not_answer (fun i => localQuery.getD i 0) 30 ⟨192, 168, 4, 1⟩ (by decide) localMessage
    (by decide +kernel) ⟨by decide, rfl, rfl, rfl⟩ (by decide +kernel)

/-- The reply to the query is a query itself. -/
theorem dnsResponse_is_query :
    parse (block (fun i => localQuery.getD i 0) 0 30) = some localMessage ∧
      localMessage.IsQuery ∧
      dnsHostnameMatch (fun i => localQuery.getD i 0) 30 defLocalHostname = true ∧
      (reply (fun i => localQuery.getD i 0) 30 ⟨192, 168, 4, 1⟩).map (fun r => r.2) =
        some (responseBytes (fun i => localQuery.getD i 0) 25 ⟨192, 168, 4, 1⟩) ∧
      ¬∃ a, parse (responseBytes (fun i => localQuery.getD i 0) 25 ⟨192, 168, 4, 1⟩) = some a ∧
        a.IsAnswerTo localMessage [192, 168, 4, 1] := by
  refine ⟨by decide +kernel, ⟨by decide, rfl, rfl, rfl⟩, by decide +kernel, by decide +kernel, ?_⟩
  rintro ⟨a, ha, hanswer⟩
  have hflags : (parse (responseBytes (fun i => localQuery.getD i 0) 25
      ⟨192, 168, 4, 1⟩)).map Message.qr = some false := by
    decide +kernel
  rw [ha, Option.map_some, hanswer.qr] at hflags
  exact absurd hflags (by decide)

-- with the flag of a response, the reply would be the answer
example : (reply (fun i => localQuery.getD i 0) 30 ⟨192, 168, 4, 1⟩).bind
    (fun r => parse (r.2.set 2 0x81)) = some { localMessage with
      flags := 0x8100
      answers :=
        [⟨[cString "device", cString "local"], typeA, classIn, 120, [192, 168, 4, 1]⟩] } := by
  decide +kernel

end EspTesting.Dns
