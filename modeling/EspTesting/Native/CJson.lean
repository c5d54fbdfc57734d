import EspTesting.ForStd.Json

/-!
# The cJSON parser

The items of cJSON and its parser (`cJSON.c`). A pointer into the text is given by the characters
from there on. A read behind the text, a write behind an allocation and a loop that is still
running when its fuel is used up each stop the parser with an error of their own, so that a
result says that none of them happened.

Floating point is a parameter (`Doubles`).
-/

namespace EspTesting.CJson

open Json (quote comma colon openBracket closeBracket openBrace closeBrace backslash letterU)

/-- How a computation stops without a result: `fail` is what the code reports to its caller. -/
inductive Stop where
  | fail
  | overread
  | overrun
  | spin
  deriving DecidableEq, Repr

/-- The `type` of an item. -/
inductive ItemType where
  | invalid
  | false
  | true
  | null
  | number
  | string
  | array
  | object
  | raw
  deriving DecidableEq, Repr

/-- `cJSON`. The linked list of children is a list, and a string is given by the characters
    written in front of its terminator. -/
structure Item (D : Type) where
  type : ItemType
  valuestring : Option (List UInt8)
  valueint : Int32
  valuedouble : D
  /-- the name in an object -/
  string : Option (List UInt8)
  child : List (Item D)

/-- `INT_MAX` -/
abbrev intMax : Int32 := 2147483647
/-- `INT_MIN` -/
abbrev intMin : Int32 := -2147483648

/-- Double precision numbers, with the operations of the language and of its library on them. -/
structure Doubles (D : Type) where
  zero : D
  /-- the conversion from `int` -/
  ofInt : Int32 → D
  /-- the conversion to `int` -/
  truncate : D → Int32
  /-- the comparison `a <= b` -/
  le : D → D → Bool
  /-- the comparison `a == b` -/
  eq : D → D → Bool
  isNanOrInf : D → Bool
  /-- the value `strtod` reads and the number of characters it stands for -/
  strtod : List UInt8 → D × Nat
  /-- `sprintf` of the format `%1.<precision>g` -/
  sprintfG : Nat → D → List UInt8
  /-- `compare_double` on what `sscanf` reads from a text -/
  recovers : List UInt8 → D → Bool

variable {D : Type} (F : Doubles D)

/-- The item `cJSON_New_Item` makes. -/
def Item.new : Item D := ⟨.invalid, none, 0, F.zero, none, []⟩

/-! ## The parse buffer -/

/-- `parse_buffer`: `hooks` says which of the allocations succeed, of which there have been
    `allocated` so far. The depth is an argument of the parser. -/
structure ParseBuffer where
  content : List UInt8
  offset : Nat
  hooks : Nat → Bool
  allocated : Nat

/-- `CJSON_NESTING_LIMIT` -/
abbrev nestingLimit : Nat := 1000

namespace ParseBuffer

variable (b : ParseBuffer)

/-- The characters from `buffer_at_offset` on. -/
def rest : List UInt8 := b.content.drop b.offset

/-- `can_read` -/
def canRead (size : Nat) : Bool := b.offset + size ≤ b.content.length

/-- `can_access_at_index` -/
def canAccessAtIndex (index : Nat) : Bool := b.offset + index < b.content.length

/-- The character `buffer_at_offset(buffer)[0]`. -/
def read : Except Stop UInt8 :=
  match b.rest with
  | [] => .error .overread
  | c :: _ => .ok c

/-- The test of `can_access_at_index(buffer, 0)` and then of the character there. -/
def isAt (c : UInt8) : Bool := b.rest.head? == some c

/-- The test of `can_read` and then of `strncmp` with a literal. -/
def isLiteral (text : List UInt8) : Bool :=
  b.canRead text.length && b.rest.take text.length == text

/-- The buffer `n` characters further. -/
def advance (n : Nat) : ParseBuffer := { b with offset := b.offset + n }

/-- The buffer one character back. -/
def stepBack : ParseBuffer := { b with offset := b.offset - 1 }

/-- A call of `hooks.allocate` or `cJSON_New_Item`. -/
def allocate : Except Stop ParseBuffer :=
  if b.hooks b.allocated then .ok { b with allocated := b.allocated + 1 } else .error .fail

/-- `buffer_skip_whitespace` -/
def skipWhitespace : ParseBuffer :=
  if !b.canAccessAtIndex 0 then b
  else
    let skipped := b.advance (b.rest.takeWhile (· ≤ 32)).length
    if skipped.offset = skipped.content.length then skipped.stepBack else skipped

/-- `skip_utf8_bom` -/
def skipUtf8Bom : ParseBuffer :=
  if b.canAccessAtIndex 4 && b.rest.take 3 == [0xEF, 0xBB, 0xBF] then b.advance 3 else b

end ParseBuffer

/-! ## Numbers -/

/-- A character `parse_number` copies. -/
def isNumberChar (c : UInt8) : Bool :=
  (0x30 ≤ c && c ≤ 0x39) || c == 0x2B || c == 0x2D || c == 0x65 || c == 0x45 || c == 0x2E

/-- The `valueint` for a number. -/
def Doubles.saturate (number : D) : Int32 :=
  if F.le (F.ofInt intMax) number then intMax
  else if F.le number (F.ofInt intMin) then intMin
  else F.truncate number

/-- `parse_number`, with a point for the decimal point of the locale. -/
def parseNumber (item : Item D) (b : ParseBuffer) : Except Stop (Item D × ParseBuffer) :=
  let numberCString := (b.rest.take 63).takeWhile isNumberChar
  let (number, read) := F.strtod numberCString
  if read = 0 then .error .fail
  else
    .ok ({ item with valuedouble := number, valueint := F.saturate number, type := .number },
      b.advance read)

/-! ## Strings -/

/-- A hexadecimal digit, as `parse_hex4` reads it. -/
def hexDigit (c : UInt8) : Option Nat :=
  if 0x30 ≤ c && c ≤ 0x39 then some (c.toNat - 0x30)
  else if 0x41 ≤ c && c ≤ 0x46 then some (10 + c.toNat - 0x41)
  else if 0x61 ≤ c && c ≤ 0x66 then some (10 + c.toNat - 0x61)
  else none

/-- The loop of `parse_hex4`, with `i` digits left. -/
def hexLoop : Nat → Nat → List UInt8 → Except Stop Nat
  | 0, h, _ => .ok h
  | _ + 1, _, [] => .error .overread
  | i + 1, h, c :: input =>
    match hexDigit c with
    | some d => hexLoop i (if i = 0 then h + d else (h + d) <<< 4) input
    | none => .ok 0

/-- `parse_hex4` -/
def parseHex4 (input : List UInt8) : Except Stop Nat := hexLoop 4 0 input

/-- The loop over the bytes behind the first one, which starts with the last; `bytes` are those
    written. -/
def encodeTail : Nat → Nat → List UInt8 → Nat × List UInt8
  | 0, codepoint, bytes => (codepoint, bytes)
  | position + 1, codepoint, bytes =>
    encodeTail position (codepoint >>> 6)
      (UInt8.ofNat ((codepoint ||| 0x80) &&& 0xBF) :: bytes)

/-- The bytes `utf16_literal_to_utf8` writes for a code point. -/
def encodeUtf8 (codepoint : Nat) : Except Stop (List UInt8) := do
  let (length, firstByteMark) ←
    if codepoint < 0x80 then .ok (1, 0)
    else if codepoint < 0x800 then .ok (2, 0xC0)
    else if codepoint < 0x10000 then .ok (3, 0xE0)
    else if codepoint ≤ 0x10FFFF then .ok (4, 0xF0)
    else .error .fail
  let (codepoint, bytes) := encodeTail (length - 1) codepoint []
  let first := if length > 1 then (codepoint ||| firstByteMark) &&& 0xFF else codepoint &&& 0x7F
  .ok (UInt8.ofNat first :: bytes)

/-- `utf16_literal_to_utf8`: the length of the sequence and the bytes it stands for. `n` is
    `input_end - input_pointer`. -/
def utf16LiteralToUtf8 (n : Nat) (input : List UInt8) : Except Stop (Nat × List UInt8) := do
  if n < 6 then throw .fail
  let firstCode ← parseHex4 (input.drop 2)
  if 0xDC00 ≤ firstCode ∧ firstCode ≤ 0xDFFF then throw .fail
  if 0xD800 ≤ firstCode ∧ firstCode ≤ 0xDBFF then
    let secondSequence := input.drop 6
    if n - 6 < 6 then throw .fail
    match secondSequence with
    | c₀ :: c₁ :: _ =>
      if c₀ ≠ backslash ∨ c₁ ≠ letterU then throw .fail
      let secondCode ← parseHex4 (secondSequence.drop 2)
      if secondCode < 0xDC00 ∨ 0xDFFF < secondCode then throw .fail
      let bytes ← encodeUtf8 (0x10000 + (((firstCode &&& 0x3FF) <<< 10) ||| (secondCode &&& 0x3FF)))
      .ok (12, bytes)
    | _ => .error .overread
  else
    let bytes ← encodeUtf8 firstCode
    .ok (6, bytes)

/-- The output of `parse_string`: the bytes written and the size of the allocation. -/
structure Output where
  bytes : List UInt8
  size : Nat
  deriving DecidableEq, Repr

/-- Bytes written at the output pointer. -/
def Output.put (out : Output) (bytes : List UInt8) : Except Stop Output :=
  if out.bytes.length + bytes.length ≤ out.size then
    .ok { out with bytes := out.bytes ++ bytes }
  else .error .overrun

/-- The first loop of `parse_string`, up to the closing quote: the characters passed, and the
    `skipped_bytes`. -/
def scanString : List UInt8 → Except Stop (Nat × Nat)
  | [] => .error .fail
  | c :: rest =>
    if c = quote then .ok (0, 0)
    else if c = backslash then
      match rest with
      | [] => .error .fail
      | _ :: rest => do
        let (n, skipped) ← scanString rest
        .ok (n + 2, skipped + 1)
    else do
      let (n, skipped) ← scanString rest
      .ok (n + 1, skipped)

/-- The escape sequence at the head of `input`: its length and the bytes it stands for. -/
def escapeSequence (n : Nat) (input : List UInt8) : Except Stop (Nat × List UInt8) :=
  match input with
  | _ :: e :: _ =>
    if e = 0x62 then .ok (2, [0x08])
    else if e = 0x66 then .ok (2, [0x0C])
    else if e = 0x6E then .ok (2, [0x0A])
    else if e = 0x72 then .ok (2, [0x0D])
    else if e = 0x74 then .ok (2, [0x09])
    else if e = quote ∨ e = backslash ∨ e = 0x2F then .ok (2, [e])
    else if e = letterU then utf16LiteralToUtf8 n input
    else .error .fail
  | _ => .error .overread

/-- The second loop of `parse_string`. `n` is `input_end - input_pointer`, and zero behind
    `input_end`. -/
def unescape : Nat → Nat → List UInt8 → Output → Except Stop Output
  | _, 0, _, out => .ok out
  | 0, _ + 1, _, _ => .error .spin
  | fuel + 1, n + 1, input, out =>
    match input with
    | [] => .error .overread
    | c :: rest =>
      if c ≠ backslash then do
        let out ← out.put [c]
        unescape fuel n rest out
      else do
        let (sequenceLength, bytes) ← escapeSequence (n + 1) input
        let out ← out.put bytes
        unescape fuel (n + 1 - sequenceLength) (input.drop sequenceLength) out

/-- `parse_string` -/
def parseString (item : Item D) (b : ParseBuffer) : Except Stop (Item D × ParseBuffer) := do
  let first ← b.read
  if first ≠ quote then throw .fail
  let input := b.rest.drop 1
  let (n, skipped) ← scanString input
  let b ← b.allocate
  let out ← unescape n n input ⟨[], n + 1 - skipped + 1⟩
  let _ ← out.put [0]
  .ok ({ item with type := .string, valuestring := some out.bytes }, b.advance (n + 2))

/-! ## Values -/

/-- A parser of a value into an item. -/
abbrev ValueParser (D : Type) := Item D → ParseBuffer → Except Stop (Item D × ParseBuffer)

/-- The loop of `parse_array`, behind the character in front of the next element; `head` are the
    elements parsed. -/
def parseElements (parseValue : ValueParser D) :
    Nat → List (Item D) → ParseBuffer → Except Stop (List (Item D) × ParseBuffer)
  | 0, _, _ => .error .spin
  | fuel + 1, head, b => do
    let b ← b.allocate
    let b := (b.advance 1).skipWhitespace
    let (item, b) ← parseValue (Item.new F) b
    let b := b.skipWhitespace
    if b.isAt comma then parseElements parseValue fuel (head ++ [item]) b
    else .ok (head ++ [item], b)

/-- `parse_array`, behind the check of the depth. -/
def parseArray (parseValue : ValueParser D) : ValueParser D := fun item b => do
  let first ← b.read
  if first ≠ openBracket then throw .fail
  let b := (b.advance 1).skipWhitespace
  if b.isAt closeBracket then
    return ({ item with type := .array, child := [] }, b.advance 1)
  if !b.canAccessAtIndex 0 then throw .fail
  let (head, b) ← parseElements F parseValue (b.content.length + 1) [] b.stepBack
  if !b.isAt closeBracket then throw .fail
  return ({ item with type := .array, child := head }, b.advance 1)

/-- The loop of `parse_object`. -/
def parseMembers (parseValue : ValueParser D) :
    Nat → List (Item D) → ParseBuffer → Except Stop (List (Item D) × ParseBuffer)
  | 0, _, _ => .error .spin
  | fuel + 1, head, b => do
    let b ← b.allocate
    if !b.canAccessAtIndex 1 then throw .fail
    let b := (b.advance 1).skipWhitespace
    let (item, b) ← parseString (Item.new F) b
    let b := b.skipWhitespace
    let item := { item with string := item.valuestring, valuestring := none }
    if !b.isAt colon then throw .fail
    let b := (b.advance 1).skipWhitespace
    let (item, b) ← parseValue item b
    let b := b.skipWhitespace
    if b.isAt comma then parseMembers parseValue fuel (head ++ [item]) b
    else .ok (head ++ [item], b)

/-- `parse_object`, behind the check of the depth. -/
def parseObject (parseValue : ValueParser D) : ValueParser D := fun item b => do
  if !b.isAt openBrace then throw .fail
  let b := (b.advance 1).skipWhitespace
  if b.isAt closeBrace then
    return ({ item with type := .object, child := [] }, b.advance 1)
  if !b.canAccessAtIndex 0 then throw .fail
  let (head, b) ← parseMembers F parseValue (b.content.length + 1) [] b.stepBack
  if !b.isAt closeBrace then throw .fail
  return ({ item with type := .object, child := head }, b.advance 1)

/-- The test of the first character of a number. -/
def ParseBuffer.isAtNumber (b : ParseBuffer) : Bool :=
  b.rest.head?.any fun c => c == 0x2D || (0x30 ≤ c && c ≤ 0x39)

/-- `parse_value`; `room` is what is left of the nesting limit at this depth. -/
def parseValue (room : Nat) : ValueParser D := fun item b =>
  if b.isLiteral Json.nullText then .ok ({ item with type := .null }, b.advance 4)
  else if b.isLiteral Json.falseText then .ok ({ item with type := .false }, b.advance 5)
  else if b.isLiteral Json.trueText then
    .ok ({ item with type := .true, valueint := 1 }, b.advance 4)
  else if b.isAt quote then parseString item b
  else if b.isAtNumber then parseNumber F item b
  else if b.isAt openBracket then
    match room with
    | 0 => .error .fail
    | room + 1 => parseArray F (parseValue room) item b
  else if b.isAt openBrace then
    match room with
    | 0 => .error .fail
    | room + 1 => parseObject F (parseValue room) item b
  else .error .fail

/-- `cJSON_ParseWithLengthOpts`: the item, and the characters in front of `return_parse_end`. -/
def parseWithLengthOpts (hooks : Nat → Bool) (value : List UInt8)
    (requireNullTerminated : Bool) : Except Stop (Item D × Nat) := do
  if value.length = 0 then throw .fail
  let b ← ParseBuffer.allocate ⟨value, 0, hooks, 0⟩
  let (item, b) ← parseValue F nestingLimit (Item.new F) b.skipUtf8Bom.skipWhitespace
  if requireNullTerminated then
    let b := b.skipWhitespace
    if !b.isAt 0 then throw .fail
    return (item, b.offset)
  return (item, b.offset)

/-- `cJSON_Parse` on a string without its terminator. -/
def cJsonParse (hooks : Nat → Bool) (value : List UInt8) : Except Stop (Item D) := do
  let (item, _) ← parseWithLengthOpts F hooks (value ++ [0]) false
  return item

end EspTesting.CJson
