import Mathlib.Data.List.Basic

/-!
# JSON texts

JSON values and the texts that stand for them. The grammar is built over its tokens (`Lexis`):
what may stand between the tokens, what stands for a string between its quotes, and what stands
for a number. `StringText` is the string token of JSON, with all its escapes; `render` is the text
without blanks that a writer produces.

## Key results

- `stringText_escape`: the escaped form of a string stands for it
- `text_render`: the rendered form of a value stands for it
- `Text.mono`: a text stays a text in a grammar with more tokens
-/

/-- A property of all bytes is one of the numbers below 256. -/
theorem UInt8.forall_iff_fin {P : UInt8 → Prop} :
    (∀ c, P c) ↔ ∀ n : Fin 256, P (UInt8.ofNat n.val) := by
  refine ⟨fun h n => h _, fun h c => ?_⟩
  have := h ⟨c.toNat, c.toNat_lt⟩
  rwa [UInt8.ofNat_toNat] at this

/-- A JSON value with numbers from `ν`. A string is the list of its bytes. -/
inductive Json (ν : Type _) where
  | null
  | bool (b : Bool)
  | number (n : ν)
  | string (s : List UInt8)
  | array (items : List (Json ν))
  | object (members : List (List UInt8 × Json ν))

namespace Json

variable {ν : Type _}

/-- The value is a number. -/
def isNumber : Json ν → Bool
  | number _ => true
  | _ => false

/-! ## Characters -/

/-- The double quote. -/
abbrev quote : UInt8 := 0x22
/-- The comma. -/
abbrev comma : UInt8 := 0x2C
/-- The colon. -/
abbrev colon : UInt8 := 0x3A
/-- The opening bracket. -/
abbrev openBracket : UInt8 := 0x5B
/-- The backslash. -/
abbrev backslash : UInt8 := 0x5C
/-- The closing bracket. -/
abbrev closeBracket : UInt8 := 0x5D
/-- The letter of a Unicode escape. -/
abbrev letterU : UInt8 := 0x75
/-- The opening brace. -/
abbrev openBrace : UInt8 := 0x7B
/-- The closing brace. -/
abbrev closeBrace : UInt8 := 0x7D

/-- The characters `null`. -/
def nullText : List UInt8 := [0x6E, 0x75, 0x6C, 0x6C]
/-- The characters `false`. -/
def falseText : List UInt8 := [0x66, 0x61, 0x6C, 0x73, 0x65]
/-- The characters `true`. -/
def trueText : List UInt8 := [0x74, 0x72, 0x75, 0x65]

/-- No NUL in the text of null. -/
theorem nullText_ne_zero : ∀ c ∈ nullText, c ≠ 0 := by simp [nullText]

/-- No NUL in the text of false. -/
theorem falseText_ne_zero : ∀ c ∈ falseText, c ≠ 0 := by simp [falseText]

/-- No NUL in the text of true. -/
theorem trueText_ne_zero : ∀ c ∈ trueText, c ≠ 0 := by simp [trueText]

/-! ## Nesting -/

mutual

/-- The number of arrays and objects that are open at once. -/
def depth : Json ν → Nat
  | array items => itemsDepth items + 1
  | object members => membersDepth members + 1
  | _ => 0

/-- The depth of the items of an array. -/
def itemsDepth : List (Json ν) → Nat
  | [] => 0
  | v :: vs => max v.depth (itemsDepth vs)

/-- The depth of the members of an object. -/
def membersDepth : List (List UInt8 × Json ν) → Nat
  | [] => 0
  | (_, v) :: ms => max v.depth (membersDepth ms)

end

/-! ## The grammar -/

/-- The tokens of a grammar. -/
structure Lexis (ν : Type _) where
  /-- a character that may stand between tokens -/
  blank : UInt8 → Prop
  /-- a string, and what stands for it between its quotes -/
  string : List UInt8 → List UInt8 → Prop
  /-- a number, and what stands for it -/
  number : ν → List UInt8 → Prop

/-- Nothing but characters that may stand between tokens. -/
def Lexis.Blank (L : Lexis ν) (w : List UInt8) : Prop := ∀ c ∈ w, L.blank c

/-- A string token with its quotes. -/
def quoted (t : List UInt8) : List UInt8 := quote :: t ++ [quote]

mutual

/-- The texts of a value. -/
inductive Text (L : Lexis ν) : Json ν → List UInt8 → Prop where
  | null : Text L .null nullText
  | false : Text L (.bool false) falseText
  | true : Text L (.bool true) trueText
  | number {n : ν} {t : List UInt8} (h : L.number n t) : Text L (.number n) t
  | string {s t : List UInt8} (h : L.string s t) : Text L (.string s) (quoted t)
  | emptyArray {w : List UInt8} (h : L.Blank w) :
      Text L (.array []) (openBracket :: w ++ [closeBracket])
  | array {vs : List (Json ν)} {t : List UInt8} (h : ItemsText L vs t) :
      Text L (.array vs) (openBracket :: t ++ [closeBracket])
  | emptyObject {w : List UInt8} (h : L.Blank w) :
      Text L (.object []) (openBrace :: w ++ [closeBrace])
  | object {ms : List (List UInt8 × Json ν)} {t : List UInt8} (h : MembersText L ms t) :
      Text L (.object ms) (openBrace :: t ++ [closeBrace])

/-- The texts of the items of an array, of which there is at least one. -/
inductive ItemsText (L : Lexis ν) : List (Json ν) → List UInt8 → Prop where
  | last {v : Json ν} {w t w' : List UInt8} (hw : L.Blank w) (h : Text L v t)
      (hw' : L.Blank w') : ItemsText L [v] (w ++ t ++ w')
  | more {v : Json ν} {vs : List (Json ν)} {w t w' ts : List UInt8} (hw : L.Blank w)
      (h : Text L v t) (hw' : L.Blank w') (hs : ItemsText L vs ts) :
      ItemsText L (v :: vs) (w ++ t ++ w' ++ comma :: ts)

/-- The texts of the members of an object, of which there is at least one. -/
inductive MembersText (L : Lexis ν) : List (List UInt8 × Json ν) → List UInt8 → Prop where
  | last {s : List UInt8} {v : Json ν} {w k w' w'' t w₃ : List UInt8} (hw : L.Blank w)
      (hk : L.string s k) (hw' : L.Blank w') (hw'' : L.Blank w'') (h : Text L v t)
      (hw₃ : L.Blank w₃) :
      MembersText L [(s, v)] (w ++ quoted k ++ w' ++ colon :: (w'' ++ t ++ w₃))
  | more {s : List UInt8} {v : Json ν} {ms : List (List UInt8 × Json ν)}
      {w k w' w'' t w₃ ts : List UInt8} (hw : L.Blank w) (hk : L.string s k)
      (hw' : L.Blank w') (hw'' : L.Blank w'') (h : Text L v t) (hw₃ : L.Blank w₃)
      (hs : MembersText L ms ts) :
      MembersText L ((s, v) :: ms)
        (w ++ quoted k ++ w' ++ colon :: (w'' ++ t ++ w₃ ++ comma :: ts))

end

/-! ## Strings -/

/-- The value of a hexadecimal digit. -/
def hexDigit (c : UInt8) : Option Nat :=
  if 0x30 ≤ c ∧ c ≤ 0x39 then some (c.toNat - 0x30)
  else if 0x41 ≤ c ∧ c ≤ 0x46 then some (c.toNat - 0x41 + 10)
  else if 0x61 ≤ c ∧ c ≤ 0x66 then some (c.toNat - 0x61 + 10)
  else none

/-- The value of hexadecimal digits. -/
def hexValue (ds : List UInt8) : Option Nat :=
  (ds.mapM hexDigit).map (List.foldl (fun h d => 16 * h + d) 0)

/-- The character behind the backslash of an escape, and what it stands for. -/
def shortEscape (e : UInt8) : Option UInt8 :=
  if e = 0x62 then some 0x08
  else if e = 0x66 then some 0x0C
  else if e = 0x6E then some 0x0A
  else if e = 0x72 then some 0x0D
  else if e = 0x74 then some 0x09
  else if e = quote ∨ e = backslash ∨ e = 0x2F then some e
  else none

/-- A string in UTF-8, and what stands for it between its quotes. -/
inductive StringText : List UInt8 → List UInt8 → Prop where
  | nil : StringText [] []
  | plain {c : UInt8} {s t : List UInt8} (hc : 0x20 ≤ c) (hquote : c ≠ quote)
      (hback : c ≠ backslash) (h : StringText s t) : StringText (c :: s) (c :: t)
  | short {e c : UInt8} {s t : List UInt8} (he : shortEscape e = some c)
      (h : StringText s t) : StringText (c :: s) (backslash :: e :: t)
  | unicode {c : Char} {d₀ d₁ d₂ d₃ : UInt8} {s t : List UInt8}
      (hd : hexValue [d₀, d₁, d₂, d₃] = some c.toNat) (h : StringText s t) :
      StringText (String.utf8EncodeChar c ++ s)
        (backslash :: letterU :: d₀ :: d₁ :: d₂ :: d₃ :: t)
  /-- a character behind the first plane, as a pair of surrogates -/
  | surrogates {c : Char} {d₀ d₁ d₂ d₃ e₀ e₁ e₂ e₃ : UInt8} {s t : List UInt8}
      (hc : 0x10000 ≤ c.toNat)
      (hd : hexValue [d₀, d₁, d₂, d₃] = some (0xD800 + (c.toNat - 0x10000) / 0x400))
      (he : hexValue [e₀, e₁, e₂, e₃] = some (0xDC00 + (c.toNat - 0x10000) % 0x400))
      (h : StringText s t) :
      StringText (String.utf8EncodeChar c ++ s)
        (backslash :: letterU :: d₀ :: d₁ :: d₂ :: d₃ ::
          backslash :: letterU :: e₀ :: e₁ :: e₂ :: e₃ :: t)

/-- The hexadecimal digit of a number below 16, in lower case. -/
def lowerHex (n : UInt8) : UInt8 := if n < 10 then 0x30 + n else 0x61 + (n - 10)

/-- A character as a writer puts it between quotes. -/
def escapeByte (c : UInt8) : List UInt8 :=
  if c = quote ∨ c = backslash then [backslash, c]
  else if c = 0x08 then [backslash, 0x62]
  else if c = 0x0C then [backslash, 0x66]
  else if c = 0x0A then [backslash, 0x6E]
  else if c = 0x0D then [backslash, 0x72]
  else if c = 0x09 then [backslash, 0x74]
  else if c < 0x20 then [backslash, letterU, 0x30, 0x30, lowerHex (c / 16), lowerHex (c % 16)]
  else [c]

/-- A string as a writer puts it between quotes. -/
def escape (s : List UInt8) : List UInt8 := s.flatMap escapeByte

/-- The character of a control code is encoded in one byte. -/
theorem utf8EncodeChar_ofNat (c : UInt8) (hc : c < 0x20) :
    String.utf8EncodeChar (Char.ofNat c.toNat) = [c] ∧ (Char.ofNat c.toNat).toNat = c.toNat := by
  have hall : ∀ n : Fin 32, String.utf8EncodeChar (Char.ofNat n.val) = [UInt8.ofNat n.val] ∧
      (Char.ofNat n.val).toNat = n.val := by decide +kernel
  have h := hall ⟨c.toNat, UInt8.lt_iff_toNat_lt.mp hc⟩
  rw [UInt8.ofNat_toNat] at h
  exact h

/-- The four hex digits of a control character give its code. -/
theorem hexValue_lowerHex (c : UInt8) (hc : c < 0x20) :
    hexValue [0x30, 0x30, lowerHex (c / 16), lowerHex (c % 16)] = some c.toNat := by
  have hall : ∀ n : Fin 32, hexValue [0x30, 0x30, lowerHex (UInt8.ofNat n.val / 16),
      lowerHex (UInt8.ofNat n.val % 16)] = some n.val := by decide +kernel
  have h := hall ⟨c.toNat, UInt8.lt_iff_toNat_lt.mp hc⟩
  rw [UInt8.ofNat_toNat] at h
  exact h

/-- The escaped form of a character, in front of a token. -/
theorem stringText_escapeByte (c : UInt8) {s t : List UInt8} (h : StringText s t) :
    StringText (c :: s) (escapeByte c ++ t) := by
  unfold escapeByte
  split
  · -- quotation mark and backslash
    rename_i hc
    apply StringText.short _ h
    rcases hc with rfl | rfl <;> rfl
  · rename_i hc
    rw [not_or] at hc
    split
    · rename_i heq
      rw [heq]
      exact .short rfl h
    · split
      · rename_i heq
        rw [heq]
        exact .short rfl h
      · split
        · rename_i heq
          rw [heq]
          exact .short rfl h
        · split
          · rename_i heq
            rw [heq]
            exact .short rfl h
          · split
            · rename_i heq
              rw [heq]
              exact .short rfl h
            · split
              · -- a control character is written in hex
                rename_i hlt
                obtain ⟨hencode, hnat⟩ := utf8EncodeChar_ofNat c hlt
                have hd := hexValue_lowerHex c hlt
                rw [← hnat] at hd
                have htext := StringText.unicode hd h
                rw [hencode] at htext
                exact htext
              · rename_i hlt
                exact .plain (UInt8.not_lt.mp hlt) hc.1 hc.2 h

/-- The escaped form of a string stands for it. -/
theorem stringText_escape (s : List UInt8) : StringText s (escape s) := by
  induction s with
  | nil => exact .nil
  | cons c s ih => exact stringText_escapeByte c ih

/-! ## Writing -/

mutual

/-- The text of a value without blanks. -/
def render (number : ν → List UInt8) : Json ν → List UInt8
  | .null => nullText
  | .bool b => if b then trueText else falseText
  | .number n => number n
  | .string s => quoted (escape s)
  | .array items => openBracket :: renderItems number items ++ [closeBracket]
  | .object members => openBrace :: renderMembers number members ++ [closeBrace]

/-- The items of an array, with commas between them. -/
def renderItems (number : ν → List UInt8) : List (Json ν) → List UInt8
  | [] => []
  | [v] => v.render number
  | v :: vs => v.render number ++ comma :: renderItems number vs

/-- The members of an object, with commas between them. -/
def renderMembers (number : ν → List UInt8) : List (List UInt8 × Json ν) → List UInt8
  | [] => []
  | [(s, v)] => quoted (escape s) ++ colon :: v.render number
  | (s, v) :: ms =>
    quoted (escape s) ++ colon :: (v.render number ++ comma :: renderMembers number ms)

end

mutual

/-- All strings in a value, names included, meet `S`, and all numbers meet `P`. -/
def AllTokens (S : List UInt8 → Prop) (P : ν → Prop) : Json ν → Prop
  | .number n => P n
  | .string s => S s
  | .array items => AllTokensItems S P items
  | .object members => AllTokensMembers S P members
  | _ => True

/-- All strings and numbers in the items of an array meet `S` and `P`. -/
def AllTokensItems (S : List UInt8 → Prop) (P : ν → Prop) : List (Json ν) → Prop
  | [] => True
  | v :: vs => AllTokens S P v ∧ AllTokensItems S P vs

/-- All strings and numbers in the members of an object meet `S` and `P`. -/
def AllTokensMembers (S : List UInt8 → Prop) (P : ν → Prop) :
    List (List UInt8 × Json ν) → Prop
  | [] => True
  | (s, v) :: ms => (S s ∧ AllTokens S P v) ∧ AllTokensMembers S P ms

end

/-- The length of the members, if each name and value have at most `k` characters. -/
theorem length_renderMembers_le {number : ν → List UInt8} {k : Nat}
    (ms : List (List UInt8 × Json ν))
    (h : ∀ m ∈ ms, (escape m.1).length + (m.2.render number).length ≤ k) :
    (renderMembers number ms).length ≤ ms.length * (k + 4) := by
  induction ms with
  | nil => simp [renderMembers]
  | cons m ms ih =>
    obtain ⟨s, v⟩ := m
    have hm : (escape s).length + (v.render number).length ≤ k := h _ (List.mem_cons_self ..)
    have hms := ih fun m' hm' => h m' (List.mem_cons_of_mem _ hm')
    rw [List.length_cons, Nat.succ_mul]
    -- a comma follows unless the member is the last one
    cases ms with
    | nil =>
      simp only [renderMembers, quoted, List.length_append, List.length_cons, List.length_nil]
      omega
    | cons m' ms =>
      rw [List.length_cons] at hms
      simp only [renderMembers, quoted, List.length_append, List.length_cons, List.length_nil]
      omega

/-- No text is blank. -/
theorem Lexis.blank_nil (L : Lexis ν) : L.Blank [] :=
  fun _ h => absurd h List.not_mem_nil

/-- Two blank texts are a blank text. -/
theorem Lexis.Blank.append {L : Lexis ν} {w w' : List UInt8} (h : L.Blank w) (h' : L.Blank w') :
    L.Blank (w ++ w') := fun c hc => (List.mem_append.mp hc).elim (h c) (h' c)

/-- Blanks may stand in front of the items of an array. -/
theorem ItemsText.blank_append {L : Lexis ν} {vs : List (Json ν)} {w t : List UInt8}
    (h : ItemsText L vs t) (hw : L.Blank w) : ItemsText L vs (w ++ t) := by
  cases h with
  | last hw' h h' =>
    simp only [← List.append_assoc]
    exact .last (hw.append hw') h h'
  | more hw' h h' hs =>
    simp only [← List.append_assoc]
    exact .more (hw.append hw') h h' hs

/-- Blanks may stand in front of the members of an object. -/
theorem MembersText.blank_append {L : Lexis ν} {ms : List (List UInt8 × Json ν)}
    {w t : List UInt8} (h : MembersText L ms t) (hw : L.Blank w) :
    MembersText L ms (w ++ t) := by
  cases h with
  | last hw' hk h₁ h₂ h h₃ =>
    rw [← List.append_assoc, ← List.append_assoc, ← List.append_assoc]
    exact .last (hw.append hw') hk h₁ h₂ h h₃
  | more hw' hk h₁ h₂ h h₃ hs =>
    rw [← List.append_assoc, ← List.append_assoc, ← List.append_assoc]
    exact .more (hw.append hw') hk h₁ h₂ h h₃ hs

section

variable {L : Lexis ν} {number : ν → List UInt8} {S : List UInt8 → Prop} {P : ν → Prop}

mutual

/-- The rendered form of a value stands for it. -/
theorem text_render (hs : ∀ s, S s → L.string s (escape s))
    (hn : ∀ n, P n → L.number n (number n)) :
    ∀ v : Json ν, AllTokens S P v → Text L v (v.render number)
  | .null, _ => by simp only [render]; exact .null
  | .bool true, _ => by simp only [render]; exact .true
  | .bool false, _ => by simp only [render]; exact .false
  | .number n, h => by
    simp only [AllTokens] at h
    simp only [render]
    exact .number (hn n h)
  | .string s, h => by
    simp only [AllTokens] at h
    simp only [render]
    exact .string (hs s h)
  | .array [], _ => by simp only [render, renderItems]; exact .emptyArray L.blank_nil
  | .array (v :: vs), h => by
    simp only [AllTokens] at h
    simp only [render]
    exact .array (itemsText_render hs hn (v :: vs) (List.cons_ne_nil _ _) h)
  | .object [], _ => by simp only [render, renderMembers]; exact .emptyObject L.blank_nil
  | .object ((s, v) :: ms), h => by
    simp only [AllTokens] at h
    simp only [render]
    exact .object (membersText_render hs hn ((s, v) :: ms) (List.cons_ne_nil _ _) h)

/-- The items of an array, rendered with commas between them, are a text for them. -/
theorem itemsText_render (hs : ∀ s, S s → L.string s (escape s))
    (hn : ∀ n, P n → L.number n (number n)) :
    ∀ vs : List (Json ν), vs ≠ [] → AllTokensItems S P vs →
      ItemsText L vs (renderItems number vs)
  | [], hne, _ => absurd rfl hne
  | [v], _, h => by
    simp only [AllTokensItems, and_true] at h
    have := ItemsText.last L.blank_nil (text_render hs hn v h) L.blank_nil
    simpa only [renderItems, List.nil_append, List.append_nil] using this
  | v :: v' :: vs, _, h => by
    simp only [AllTokensItems] at h
    have := ItemsText.more L.blank_nil (text_render hs hn v h.1) L.blank_nil
      (itemsText_render hs hn (v' :: vs) (List.cons_ne_nil _ _)
        (by simp only [AllTokensItems]; exact h.2))
    simpa only [renderItems, List.nil_append, List.append_nil] using this

/-- The members of an object, rendered with commas between them, are a text for them. -/
theorem membersText_render (hs : ∀ s, S s → L.string s (escape s))
    (hn : ∀ n, P n → L.number n (number n)) :
    ∀ ms : List (List UInt8 × Json ν), ms ≠ [] → AllTokensMembers S P ms →
      MembersText L ms (renderMembers number ms)
  | [], hne, _ => absurd rfl hne
  | [(s, v)], _, h => by
    simp only [AllTokensMembers, and_true] at h
    have := MembersText.last L.blank_nil (hs s h.1) L.blank_nil L.blank_nil
      (text_render hs hn v h.2) L.blank_nil
    simpa only [renderMembers, List.nil_append, List.append_nil] using this
  | (s, v) :: m :: ms, _, h => by
    simp only [AllTokensMembers] at h
    have := MembersText.more L.blank_nil (hs s h.1.1) L.blank_nil L.blank_nil
      (text_render hs hn v h.1.2) L.blank_nil
      (membersText_render hs hn (m :: ms) (List.cons_ne_nil _ _)
        (by simp only [AllTokensMembers]; exact h.2))
    simpa only [renderMembers, List.nil_append, List.append_nil, List.append_assoc] using this

end

end

/-! ## From one grammar to another -/

section

variable {L L' : Lexis ν}

/-- What is blank for one lexis is blank for a wider one. -/
theorem Lexis.Blank.mono (hb : ∀ c, L.blank c → L'.blank c) {w : List UInt8} (h : L.Blank w) :
    L'.Blank w := fun c hc => hb c (h c hc)

mutual

/-- The texts of a grammar whose tokens are tokens of another one. -/
theorem Text.mono (hb : ∀ c, L.blank c → L'.blank c)
    (hs : ∀ s t, L.string s t → L'.string s t) (hn : ∀ n t, L.number n t → L'.number n t) :
    ∀ {v : Json ν} {t : List UInt8}, Text L v t → Text L' v t
  | _, _, .null => .null
  | _, _, .false => .false
  | _, _, .true => .true
  | _, _, .number h => .number (hn _ _ h)
  | _, _, .string h => .string (hs _ _ h)
  | _, _, .emptyArray h => .emptyArray (h.mono hb)
  | _, _, .array h => .array (ItemsText.mono hb hs hn h)
  | _, _, .emptyObject h => .emptyObject (h.mono hb)
  | _, _, .object h => .object (MembersText.mono hb hs hn h)

/-- A text of items for one lexis is one for a wider one. -/
theorem ItemsText.mono (hb : ∀ c, L.blank c → L'.blank c)
    (hs : ∀ s t, L.string s t → L'.string s t) (hn : ∀ n t, L.number n t → L'.number n t) :
    ∀ {vs : List (Json ν)} {t : List UInt8}, ItemsText L vs t → ItemsText L' vs t
  | _, _, .last hw h hw' => .last (hw.mono hb) (Text.mono hb hs hn h) (hw'.mono hb)
  | _, _, .more hw h hw' ht =>
    .more (hw.mono hb) (Text.mono hb hs hn h) (hw'.mono hb) (ItemsText.mono hb hs hn ht)

/-- A text of members for one lexis is one for a wider one. -/
theorem MembersText.mono (hb : ∀ c, L.blank c → L'.blank c)
    (hs : ∀ s t, L.string s t → L'.string s t) (hn : ∀ n t, L.number n t → L'.number n t) :
    ∀ {ms : List (List UInt8 × Json ν)} {t : List UInt8}, MembersText L ms t →
      MembersText L' ms t
  | _, _, .last hw hk hw' hw'' h hw₃ =>
    .last (hw.mono hb) (hs _ _ hk) (hw'.mono hb) (hw''.mono hb) (Text.mono hb hs hn h)
      (hw₃.mono hb)
  | _, _, .more hw hk hw' hw'' h hw₃ ht =>
    .more (hw.mono hb) (hs _ _ hk) (hw'.mono hb) (hw''.mono hb) (Text.mono hb hs hn h)
      (hw₃.mono hb) (MembersText.mono hb hs hn ht)

end

end

end Json
