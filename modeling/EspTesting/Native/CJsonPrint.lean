import Mathlib.Algebra.GroupWithZero.Nat
import EspTesting.ForStd.JsonNumber
import EspTesting.Native.CJson
import EspTesting.Native.JsonHelper

/-!
# The cJSON printer

`cJSON_PrintUnformatted` and the functions that build an object for it (`cJSON.c`). The printer
writes into a buffer that it enlarges, and finds out how much it has written by looking for the
terminator. What a fresh allocation holds is not known: `Hooks` says which blocks the allocator
gives, with whatever is in them.
-/

namespace EspTesting.CJson

open Json (quote comma colon openBracket closeBracket openBrace closeBrace backslash letterU)
open Http (cString)

/-! ## The print buffer -/

/-- `internal_hooks`: the contents of the block that an allocation gives, by the number of
    allocations before it and the size asked for, and whether `reallocate` is available. -/
structure Hooks where
  block : Nat → Nat → Option (List UInt8)
  reallocates : Bool

/-- `printbuffer`; `length` is that of `buffer`, and `allocated` the number of allocations. -/
structure PrintBuffer where
  buffer : List UInt8
  offset : Nat
  hooks : Hooks
  allocated : Nat

namespace PrintBuffer

variable (p : PrintBuffer)

/-- Bytes written at an index of the buffer. -/
def write (i : Nat) (bytes : List UInt8) : Except Stop PrintBuffer :=
  if i + bytes.length ≤ p.buffer.length then
    .ok { p with
      buffer := p.buffer.take i ++ bytes ++ p.buffer.drop (i + bytes.length) }
  else .error .overrun

/-- The new buffer in `ensure`. Without `reallocate`, only what has been written is copied. -/
def grow (newsize : Nat) : Except Stop PrintBuffer :=
  match p.hooks.block p.allocated newsize with
  | none => .error .fail
  | some block =>
    let copied :=
      if p.hooks.reallocates then p.buffer.take newsize else p.buffer.take (p.offset + 1)
    if copied.length ≤ block.length then
      .ok { p with buffer := copied ++ block.drop copied.length, allocated := p.allocated + 1 }
    else .error .overrun

/-- `ensure` -/
def ensure (needed : Nat) : Except Stop PrintBuffer :=
  let length := p.buffer.length
  if length > 0 ∧ p.offset ≥ length then .error .fail
  else if needed > 2147483647 then .error .fail
  else
    let needed := needed + (p.offset + 1)
    if needed ≤ length then .ok p
    else if needed > 2147483647 / 2 then
      if needed ≤ 2147483647 then p.grow 2147483647 else .error .fail
    else p.grow (needed * 2)

/-- `update_offset` -/
def updateOffset : Except Stop PrintBuffer :=
  let string := p.buffer.drop p.offset
  let n := (cString string).length
  if n < string.length then .ok { p with offset := p.offset + n } else .error .overread

end PrintBuffer

/-! ## Strings and numbers -/

/-- `sprintf` of the format `%d` -/
def sprintfD (i : Int32) : List UInt8 := Json.decimal i.toInt

/-- `sprintf` of the format `u%04x` for a byte -/
def sprintfU (c : UInt8) : List UInt8 :=
  [letterU, 0x30, 0x30, Json.lowerHex (c / 16), Json.lowerHex (c % 16)]

/-- `sprintf` into `number_buffer` -/
def numberBuffer (text : List UInt8) : Except Stop (List UInt8) :=
  if text.length + 1 ≤ 26 then .ok text else .error .overrun

variable {D : Type} (F : Doubles D)

/-- The text `print_number` puts into `number_buffer`. -/
def numberText (valueint : Int32) (d : D) : Except Stop (List UInt8) :=
  if F.isNanOrInf d then numberBuffer Json.nullText
  else if F.eq d (F.ofInt valueint) then numberBuffer (sprintfD valueint)
  else do
    let text ← numberBuffer (F.sprintfG 15 d)
    if F.recovers text d then return text
    numberBuffer (F.sprintfG 17 d)

/-- `print_number`, with a point for the decimal point of the locale -/
def printNumber (valueint : Int32) (valuedouble : D) (p : PrintBuffer) :
    Except Stop PrintBuffer := do
  let text ← numberText F valueint valuedouble
  if text.length > 25 then throw .fail
  let p ← p.ensure (text.length + 1)
  let p ← p.write p.offset (text ++ [0])
  .ok { p with offset := p.offset + text.length }

/-- The additional characters needed to escape a character. -/
def escapeCharacters (c : UInt8) : Nat :=
  if c = quote ∨ c = backslash ∨ c = 0x08 ∨ c = 0x0C ∨ c = 0x0A ∨ c = 0x0D ∨ c = 0x09 then 1
  else if c < 32 then 5
  else 0

/-- The loop of `print_string_ptr` that copies the string to the index `i` of the buffer. -/
def copyString : List UInt8 → Nat → PrintBuffer → Except Stop PrintBuffer
  | [], _, p => .ok p
  | c :: input, i, p =>
    if c > 31 ∧ c ≠ quote ∧ c ≠ backslash then do
      let p ← p.write i [c]
      copyString input (i + 1) p
    else do
      let p ← p.write i [backslash]
      if c = backslash ∨ c = quote then
        let p ← p.write (i + 1) [c]
        copyString input (i + 2) p
      else if c = 0x08 then
        let p ← p.write (i + 1) [0x62]
        copyString input (i + 2) p
      else if c = 0x0C then
        let p ← p.write (i + 1) [0x66]
        copyString input (i + 2) p
      else if c = 0x0A then
        let p ← p.write (i + 1) [0x6E]
        copyString input (i + 2) p
      else if c = 0x0D then
        let p ← p.write (i + 1) [0x72]
        copyString input (i + 2) p
      else if c = 0x09 then
        let p ← p.write (i + 1) [0x74]
        copyString input (i + 2) p
      else
        -- with its terminator, which the next character overwrites
        let p ← p.write (i + 1) (sprintfU c ++ [0])
        copyString input (i + 6) p

/-- The string between its quotes: copied as it is if nothing has to be escaped. -/
def writeString (escapes : Nat) (input : List UInt8) (i : Nat) (p : PrintBuffer) :
    Except Stop PrintBuffer :=
  if escapes = 0 then p.write i input else copyString input i p

/-- `print_string_ptr` -/
def printStringPtr (input : Option (List UInt8)) (p : PrintBuffer) : Except Stop PrintBuffer :=
  match input.map cString with
  | none => do
    let p ← p.ensure 3
    p.write p.offset [quote, quote, 0]
  | some input => do
    let escapes := (input.map escapeCharacters).sum
    let outputLength := input.length + escapes
    let p ← p.ensure (outputLength + 3)
    let p ← p.write p.offset [quote]
    let p ← writeString escapes input (p.offset + 1) p
    p.write (p.offset + (outputLength + 1)) [quote, 0]

/-! ## Values -/

/-- A literal, with its terminator. -/
def printLiteral (text : List UInt8) (p : PrintBuffer) : Except Stop PrintBuffer := do
  let p ← p.ensure (text.length + 1)
  p.write p.offset (text ++ [0])

/-- A character, and how far the offset moves for it. -/
def printChar (needed : Nat) (text : List UInt8) (length : Nat) (p : PrintBuffer) :
    Except Stop PrintBuffer := do
  let p ← p.ensure needed
  let p ← p.write p.offset text
  .ok { p with offset := p.offset + length }

mutual

/-- `print_value`, with `print_array` and `print_object` around their loops -/
def printValue : Item D → PrintBuffer → Except Stop PrintBuffer
  | ⟨type, valuestring, valueint, valuedouble, _, child⟩, p =>
    match type with
    | .null => printLiteral Json.nullText p
    | .false => printLiteral Json.falseText p
    | .true => printLiteral Json.trueText p
    | .number => printNumber F valueint valuedouble p
    | .raw =>
      match valuestring.map cString with
      | none => .error .fail
      | some raw => printLiteral raw p
    | .string => printStringPtr valuestring p
    | .array => do
      let p ← printChar 1 [openBracket] 1 p
      let p ← printElements child p
      printChar 2 [closeBracket, 0] 0 p
    | .object => do
      let p ← printChar 2 [openBrace] 1 p
      let p ← printMembers child p
      printChar 2 [closeBrace, 0] 0 p
    | .invalid => .error .fail

/-- The loop of `print_array`. -/
def printElements : List (Item D) → PrintBuffer → Except Stop PrintBuffer
  | [], p => .ok p
  | [item], p => do
    let p ← printValue item p
    p.updateOffset
  | item :: next :: child, p => do
    let p ← printValue item p
    let p ← p.updateOffset
    let p ← printChar 2 [comma, 0] 1 p
    printElements (next :: child) p

/-- The loop of `print_object`. -/
def printMembers : List (Item D) → PrintBuffer → Except Stop PrintBuffer
  | [], p => .ok p
  | [item], p => do
    let p ← printStringPtr item.string p
    let p ← p.updateOffset
    let p ← printChar 1 [colon] 1 p
    let p ← printValue item p
    let p ← p.updateOffset
    printChar 1 [0] 0 p
  | item :: next :: child, p => do
    let p ← printStringPtr item.string p
    let p ← p.updateOffset
    let p ← printChar 1 [colon] 1 p
    let p ← printValue item p
    let p ← p.updateOffset
    let p ← printChar 2 [comma, 0] 1 p
    printMembers (next :: child) p

end

/-- The copy that `print` returns. -/
def PrintBuffer.printed (p : PrintBuffer) : Except Stop (List UInt8) :=
  match p.hooks.block p.allocated (p.offset + 1) with
  | none => .error .fail
  | some block =>
    if p.hooks.reallocates then
      .ok (p.buffer.take (p.offset + 1) ++ block.drop p.buffer.length)
    else
      -- `cjson_min(buffer->length, buffer->offset + 1)` bytes, and the terminator
      let copied := p.buffer.take (p.offset + 1)
      if copied.length ≤ block.length ∧ p.offset < block.length then
        .ok ((copied ++ block.drop copied.length).set p.offset 0)
      else .error .overrun

/-- `cJSON_PrintUnformatted`: the block with the printed text. -/
def cJsonPrintUnformatted (hooks : Hooks) (item : Item D) : Except Stop (List UInt8) :=
  match hooks.block 0 256 with
  | none => .error .fail
  | some block => do
    let p ← printValue F item ⟨block, 0, hooks, 1⟩
    let p ← p.updateOffset
    p.printed

/-! ## Building and looking up -/

/-- The characters of a string literal, one byte each. -/
def nameBytes (name : String) : List UInt8 := name.toList.map fun c => UInt8.ofNat c.toNat

/-- `cJSON_CreateNumber` -/
def createNumber (num : D) : Item D :=
  { Item.new F with type := .number, valuedouble := num, valueint := F.saturate num }

/-- `cJSON_CreateBool` -/
def createBool (boolean : Bool) : Item D :=
  { Item.new F with type := if boolean then .true else .false }

/-- `cJSON_CreateString` -/
def createString (string : List UInt8) : Item D :=
  { Item.new F with type := .string, valuestring := some (cString string) }

/-- `cJSON_CreateObject` -/
def createObject : Item D := { Item.new F with type := .object }

/-- `cJSON_AddItemToObject` -/
def Item.addItemToObject (object : Item D) (name : List UInt8) (item : Item D) : Item D :=
  { object with child := object.child ++ [{ item with string := some (cString name) }] }

/-- `cJSON_GetObjectItemCaseSensitive`. The search ends at an item without a name. -/
def getObjectItem (name : List UInt8) : List (Item D) → Option (Item D)
  | [] => none
  | item :: child =>
    match item.string with
    | none => none
    | some string =>
      if cString string = cString name then some item else getObjectItem name child

end EspTesting.CJson
