import EspTesting.ForStd.Labels

/-!
# DNS messages

The format of a DNS message: a header with the numbers of the questions and of the records in
three sections, and these one after another. A name may end with a pointer to a name elsewhere
in the message. A message is read only if nothing is left behind its last record.
-/

namespace DnsMessage

open Labels (Label)

/-- A question. -/
structure Question where
  name : List Label
  type : Nat
  cls : Nat
  deriving DecidableEq, Repr

/-- A resource record. -/
structure Record where
  name : List Label
  type : Nat
  cls : Nat
  ttl : Nat
  data : List UInt8
  deriving DecidableEq, Repr

/-- A message. -/
structure Message where
  id : Nat
  flags : Nat
  questions : List Question
  answers : List Record
  authorities : List Record
  additionals : List Record
  deriving DecidableEq, Repr

/-- The message is a response. -/
def Message.qr (m : Message) : Bool := m.flags.testBit 15

/-- The type of an address, and the class of the internet. -/
abbrev typeA : Nat := 1
abbrev classIn : Nat := 1

/-- A word of two bytes at `off`. -/
def word (msg : List UInt8) (off : Nat) : Option Nat := do
  let hi ← msg[off]?
  let lo ← msg[off + 1]?
  pure (hi.toNat * 256 + lo.toNat)

/-- `n` bytes at `off`. -/
def bytesAt (msg : List UInt8) (off n : Nat) : Option (List UInt8) :=
  let data := (msg.drop off).take n
  if data.length = n then some data else none

/-- The name at `off`, and the offset behind it. A name that can be read passes no byte of the
    message twice, so `fuel` of its length is enough. -/
def readName (msg : List UInt8) : Nat → Nat → Option (List Label × Nat)
  | 0, _ => none
  | fuel + 1, off => do
    let b ← msg[off]?
    if b = 0 then pure ([], off + 1)
    else if b < 64 then
      let l ← bytesAt msg (off + 1) b.toNat
      let (ls, next) ← readName msg fuel (off + 1 + b.toNat)
      pure (l :: ls, next)
    else if b ≥ 192 then
      -- a pointer: the rest of the name lies elsewhere
      let lo ← msg[off + 1]?
      let (ls, _) ← readName msg fuel ((b.toNat - 192) * 256 + lo.toNat)
      pure (ls, off + 2)
    else none

/-- The question at `off`, and the offset behind it. -/
def readQuestion (msg : List UInt8) (off : Nat) : Option (Question × Nat) := do
  let (name, off) ← readName msg msg.length off
  let type ← word msg off
  let cls ← word msg (off + 2)
  pure (⟨name, type, cls⟩, off + 4)

/-- The record at `off`, and the offset behind it. -/
def readRecord (msg : List UInt8) (off : Nat) : Option (Record × Nat) := do
  let (name, off) ← readName msg msg.length off
  let type ← word msg off
  let cls ← word msg (off + 2)
  let ttlHigh ← word msg (off + 4)
  let ttlLow ← word msg (off + 6)
  let len ← word msg (off + 8)
  let data ← bytesAt msg (off + 10) len
  pure (⟨name, type, cls, ttlHigh * 65536 + ttlLow, data⟩, off + 10 + len)

/-- `n` things one after another, and the offset behind the last. -/
def readMany {α : Type} (read : Nat → Option (α × Nat)) : Nat → Nat → Option (List α × Nat)
  | 0, off => some ([], off)
  | n + 1, off => do
    let (x, off) ← read off
    let (xs, off) ← readMany read n off
    pure (x :: xs, off)

/-- The message that the bytes are. -/
def parse (msg : List UInt8) : Option Message := do
  let id ← word msg 0
  let flags ← word msg 2
  let qdcount ← word msg 4
  let ancount ← word msg 6
  let nscount ← word msg 8
  let arcount ← word msg 10
  let (questions, off) ← readMany (readQuestion msg) qdcount 12
  let (answers, off) ← readMany (readRecord msg) ancount off
  let (authorities, off) ← readMany (readRecord msg) nscount off
  let (additionals, off) ← readMany (readRecord msg) arcount off
  if off = msg.length then pure ⟨id, flags, questions, answers, authorities, additionals⟩
  else none

/-- A query with one question, and at most additional records behind it. -/
structure Message.IsQuery (m : Message) : Prop where
  qr : m.qr = false
  question : m.questions.length = 1
  answers : m.answers = []
  authorities : m.authorities = []

/-- A response to the query: it has its id and its question, and as the only answer the address
    under the name of the question. -/
structure Message.IsAnswerTo (m : Message) (query : Message) (addr : List UInt8) : Prop where
  qr : m.qr = true
  id : m.id = query.id
  questions : m.questions = query.questions
  answer : ∃ ttl, m.answers =
    query.questions.map fun q => ⟨q.name, typeA, classIn, ttl, addr⟩

variable {msg msg' : List UInt8} {m m' : Message}

/-- The flags of a message are its second word. -/
theorem flags_of_parse (h : parse msg = some m) : word msg 2 = some m.flags := by
  unfold parse at h
  simp only [Option.bind_eq_bind, Option.bind_eq_some_iff] at h
  obtain ⟨_, _, flags, hflags, _, _, _, _, _, _, _, _, _, _, _, _, _, _, _, _, h⟩ := h
  split at h
  · rw [← Option.some.inj h]
    exact hflags
  · exact absurd h.symm (Option.some_ne_none m)

/-- Messages with the same third and fourth byte have the same flags. -/
theorem flags_eq_of_word_eq (h : parse msg = some m) (h' : parse msg' = some m')
    (hword : word msg' 2 = word msg 2) : m'.flags = m.flags := by
  rw [flags_of_parse h, flags_of_parse h'] at hword
  exact Option.some.inj hword

end DnsMessage
