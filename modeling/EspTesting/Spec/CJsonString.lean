import Mathlib.Algebra.Group.Nat.Defs
import EspTesting.ForStd.Except
import EspTesting.Native.CJson

/-!
# The strings of a JSON text

`parse_string` passes a string twice: once to find its end and the size of its output, and once
to write the output. The second pass may be out of step with the first one, as it takes six
characters for `\u` whatever they are. These lemmas show that it stays within its output all
the same, and what it writes for the strings of JSON.

## Key results

- `unescape_eq`: the second loop writes what `decode` gives, within its output
- `decode_of_stringText`: a string of JSON is decoded to what it stands for
-/

namespace EspTesting.CJson

open Json (quote backslash letterU StringText)

/-! ## The first loop -/

/-- The characters between the quotes of a string, as the first loop passes them. -/
inductive Scanned : List UInt8 → Nat → Prop where
  | nil : Scanned [] 0
  | plain {c : UInt8} {t : List UInt8} {k : Nat} (hquote : c ≠ quote) (hback : c ≠ backslash)
      (h : Scanned t k) : Scanned (c :: t) k
  | pair {e : UInt8} {t : List UInt8} {k : Nat} (h : Scanned t k) :
      Scanned (backslash :: e :: t) (k + 1)

/-- One turn of the scan for the closing quotation mark. -/
theorem scanString_cons (c : UInt8) (rest : List UInt8) :
    scanString (c :: rest) =
      if c = quote then .ok (0, 0)
      else if c = backslash then
        match rest with
        | [] => .error .fail
        | _ :: rest => scanString rest >>= fun p => .ok (p.1 + 2, p.2 + 1)
      else scanString rest >>= fun p => .ok (p.1 + 1, p.2) := by
  cases rest <;> rfl

/-- The scan stops at the quotation mark behind what is scanned. -/
theorem scanString_of_scanned {t : List UInt8} {k : Nat} (h : Scanned t k) (r : List UInt8) :
    scanString (t ++ quote :: r) = .ok (t.length, k) := by
  induction h with
  | nil => rw [List.nil_append, scanString_cons, if_pos rfl]; rfl
  | plain hquote hback _ ih =>
    rw [List.cons_append, scanString_cons, if_neg hquote, if_neg hback, ih]
    rfl
  | pair _ ih =>
    have hne : backslash ≠ quote := by decide
    simp only [List.cons_append, scanString_cons, if_neg hne, if_pos, ih]
    rfl

/-- The first loop stops at the first quote that is not escaped. -/
theorem scanString_meets : ∀ input : List UInt8,
    (scanString input).Meets (· = .fail) fun p =>
      ∃ t r, input = t ++ quote :: r ∧ t.length = p.1 ∧ Scanned t p.2
  | [] => rfl
  | c :: rest => by
    rw [scanString_cons]
    refine .ite (fun hc => ⟨[], rest, by rw [hc]; rfl, rfl, .nil⟩) fun hquote => ?_
    refine .ite (fun hc => ?_) fun hback => ?_
    · -- a backslash takes the byte behind it along
      cases rest with
      | nil => exact rfl
      | cons e rest =>
        refine (scanString_meets rest).bind fun p hp => ?_
        obtain ⟨t, r, rfl, hlen, ht⟩ := hp
        exact ⟨backslash :: e :: t, r, by rw [hc]; rfl, by simp only [List.length_cons, hlen],
          ht.pair⟩
    · refine (scanString_meets rest).bind fun p hp => ?_
      obtain ⟨t, r, rfl, hlen, ht⟩ := hp
      exact ⟨c :: t, r, rfl, by simp only [List.length_cons, hlen], ht.plain hquote hback⟩

/-! ## Hexadecimal digits -/

/-- The digits of the parser are the hex digits. -/
theorem hexDigit_eq (c : UInt8) : hexDigit c = Json.hexDigit c := by
  simp only [hexDigit, Json.hexDigit, Bool.and_eq_true, decide_eq_true_eq]
  have := c.toNat_lt
  split
  · rfl
  · split
    · rename_i h
      have := UInt8.le_iff_toNat_le.mp h.1
      simp only [UInt8.reduceToNat] at this
      congr 1
      omega
    · split
      · rename_i h
        have := UInt8.le_iff_toNat_le.mp h.1
        simp only [UInt8.reduceToNat] at this
        congr 1
        omega
      · rfl

/-- A hex digit is neither a quotation mark nor a backslash. -/
theorem ne_of_hexDigit {c : UInt8} {d : Nat} (h : Json.hexDigit c = some d) :
    c ≠ quote ∧ c ≠ backslash := by
  constructor
  · rintro rfl
    cases h
  · rintro rfl
    cases h

/-- A hex digit is below 16. -/
theorem hexDigit_lt {c : UInt8} {d : Nat} (h : Json.hexDigit c = some d) : d < 16 := by
  simp only [Json.hexDigit, UInt8.le_iff_toNat_le, UInt8.reduceToNat] at h
  split at h
  · cases h; omega
  · split at h
    · cases h; omega
    · split at h
      · cases h; omega
      · cases h

/-- Four hexadecimal digits, and the number they stand for. -/
theorem hexValue_eq_some_iff {d₀ d₁ d₂ d₃ : UInt8} {v : Nat} :
    Json.hexValue [d₀, d₁, d₂, d₃] = some v ↔ ∃ h₀ h₁ h₂ h₃, Json.hexDigit d₀ = some h₀ ∧
      Json.hexDigit d₁ = some h₁ ∧ Json.hexDigit d₂ = some h₂ ∧ Json.hexDigit d₃ = some h₃ ∧
      v = 16 * (16 * (16 * h₀ + h₁) + h₂) + h₃ := by
  simp only [Json.hexValue]
  cases h₀ : Json.hexDigit d₀ <;> cases h₁ : Json.hexDigit d₁ <;>
    cases h₂ : Json.hexDigit d₂ <;> cases h₃ : Json.hexDigit d₃ <;>
    simp [h₀, h₁, h₂, h₃, eq_comm]

/-- Four hex digits are below 65536. -/
theorem hexValue_lt {d₀ d₁ d₂ d₃ : UInt8} {v : Nat}
    (h : Json.hexValue [d₀, d₁, d₂, d₃] = some v) : v < 0x10000 := by
  obtain ⟨h₀, h₁, h₂, h₃, e₀, e₁, e₂, e₃, rfl⟩ := hexValue_eq_some_iff.mp h
  have := hexDigit_lt e₀
  have := hexDigit_lt e₁
  have := hexDigit_lt e₂
  have := hexDigit_lt e₃
  omega

/-- `parse_hex4` takes anything but four digits for zero. -/
theorem parseHex4_eq (d₀ d₁ d₂ d₃ : UInt8) (r : List UInt8) :
    parseHex4 (d₀ :: d₁ :: d₂ :: d₃ :: r) =
      .ok ((Json.hexValue [d₀, d₁, d₂, d₃]).getD 0) := by
  simp only [parseHex4, hexLoop, hexDigit_eq, Json.hexValue]
  cases h₀ : Json.hexDigit d₀ <;> cases h₁ : Json.hexDigit d₁ <;>
    cases h₂ : Json.hexDigit d₂ <;> cases h₃ : Json.hexDigit d₃ <;>
    simp [h₀, h₁, h₂, h₃, Nat.shiftLeft_eq]
  omega

/-! ## UTF-8 -/

/-- A byte behind the first one. -/
theorem or_and_eq (codepoint : Nat) :
    (codepoint ||| 0x80) &&& 0xBF = codepoint % 64 + 128 := by
  -- bit by bit: the lower six, and the mark
  have hsplit : (codepoint ||| 0x80) &&& 0xBF = (codepoint % 2 ^ 6) ||| 2 ^ 7 := by
    apply Nat.eq_of_testBit_eq
    intro i
    rw [Nat.testBit_and, Nat.testBit_or, Nat.testBit_or, Nat.testBit_mod_two_pow]
    by_cases hi : i < 8
    · obtain rfl | rfl | rfl | rfl | rfl | rfl | rfl | rfl :
        i = 0 ∨ i = 1 ∨ i = 2 ∨ i = 3 ∨ i = 4 ∨ i = 5 ∨ i = 6 ∨ i = 7 := by omega
      all_goals simp [Nat.testBit]
    · have h₁ : Nat.testBit 0xBF i = false := Nat.testBit_lt_two_pow
        (Nat.lt_of_lt_of_le (by decide : 0xBF < 2 ^ 8)
          (Nat.pow_le_pow_right (by decide) (by omega)))
      have h₂ : Nat.testBit (2 ^ 7) i = false := Nat.testBit_two_pow_of_ne (by omega)
      have h₃ : ¬i < 6 := by omega
      simp only [h₁, h₂, h₃, Bool.and_false, decide_false, Bool.false_and, Bool.or_self]
  have hlt : codepoint % 2 ^ 6 < 2 ^ 7 := by omega
  have hadd : 2 ^ 7 ||| codepoint % 2 ^ 6 = 2 ^ 7 + codepoint % 2 ^ 6 :=
    (Nat.two_pow_add_eq_or_of_lt hlt 1).symm
  rw [hsplit, Nat.or_comm, hadd]
  omega

/-- The first byte of a sequence of `length` bytes. -/
theorem or_and_eq_add (mark bits c : Nat) (hc : c < 2 ^ bits)
    (hbits : bits ≤ 8) (hmark : mark < 256) (hdvd : mark % 2 ^ bits = 0) :
    (c ||| mark) &&& 0xFF = mark + c := by
  obtain ⟨m, rfl⟩ := Nat.dvd_of_mod_eq_zero hdvd
  -- the bits of the mark and of the value do not meet
  have hadd : c ||| 2 ^ bits * m = 2 ^ bits * m + c := by
    rw [Nat.or_comm, ← Nat.two_pow_add_eq_or_of_lt hc m]
  have hpow : 2 ^ bits ≤ 2 ^ 8 := Nat.pow_le_pow_right (by decide) hbits
  have hlt : 2 ^ bits * m + c < 2 ^ 8 := by
    rw [← hadd]
    exact Nat.or_lt_two_pow (Nat.lt_of_lt_of_le hc hpow) hmark
  have hmask : (0xFF : Nat) = 2 ^ 8 - 1 := rfl
  rw [hadd, hmask, Nat.and_two_pow_sub_one_eq_mod, Nat.mod_eq_of_lt hlt]

/-- The code points of one to four bytes. -/
theorem encodeUtf8_eq {codepoint : Nat} (h : codepoint ≤ 0x10FFFF) :
    encodeUtf8 codepoint = .ok (
      if codepoint < 0x80 then [UInt8.ofNat codepoint]
      else if codepoint < 0x800 then
        [UInt8.ofNat (codepoint / 64 + 0xC0), UInt8.ofNat (codepoint % 64 + 0x80)]
      else if codepoint < 0x10000 then
        [UInt8.ofNat (codepoint / 4096 + 0xE0), UInt8.ofNat (codepoint / 64 % 64 + 0x80),
          UInt8.ofNat (codepoint % 64 + 0x80)]
      else
        [UInt8.ofNat (codepoint / 262144 + 0xF0), UInt8.ofNat (codepoint / 4096 % 64 + 0x80),
          UInt8.ofNat (codepoint / 64 % 64 + 0x80), UInt8.ofNat (codepoint % 64 + 0x80)]) := by
  have hshift : ∀ n : Nat, n >>> 6 = n / 64 := fun n => Nat.shiftRight_eq_div_pow n 6
  have hdiv₂ : codepoint / 64 / 64 = codepoint / 4096 := by omega
  have hdiv₃ : codepoint / 4096 / 64 = codepoint / 262144 := by omega
  unfold encodeUtf8
  split
  · rename_i hlt
    -- one byte
    have hmask : (0x7F : Nat) = 2 ^ 7 - 1 := rfl
    simp only [bind, Except.bind, encodeTail, Nat.sub_self, if_neg (Nat.lt_irrefl 1), hmask,
      Nat.and_two_pow_sub_one_eq_mod, Nat.mod_eq_of_lt hlt]
  · split
    · -- the byte in front carries the mark of the length, each byte behind it six bits
      have hfirst := or_and_eq_add 0xC0 5 (codepoint / 64) (by omega)
        (by decide) (by decide) (by decide)
      simp [bind, Except.bind, encodeTail, hshift, or_and_eq, hfirst, Nat.add_comm]
    · split
      · have hfirst := or_and_eq_add 0xE0 4 (codepoint / 4096)
          (by omega) (by decide) (by decide) (by decide)
        simp [bind, Except.bind, encodeTail, hshift, or_and_eq, hdiv₂, hfirst, Nat.add_comm]
      · have hfirst := or_and_eq_add 0xF0 3 (codepoint / 262144)
          (by omega) (by decide) (by decide) (by decide)
        simp [bind, Except.bind, encodeTail, hshift, or_and_eq, hdiv₂, hdiv₃, hfirst,
          Nat.add_comm]

/-- A character is encoded in UTF-8. -/
theorem encodeUtf8_char (c : Char) : encodeUtf8 c.toNat = .ok (String.utf8EncodeChar c) := by
  have hvalid := c.valid
  simp only [UInt32.isValidChar, Nat.isValidChar] at hvalid
  have hnat : c.toNat = c.val.toNat := rfl
  rw [hnat, encodeUtf8_eq (by omega), String.utf8EncodeChar]
  generalize c.val.toNat = v at hvalid ⊢
  congr 1
  -- the lengths of both encodings change at the same code points
  by_cases h₁ : v < 0x80
  · rw [if_pos h₁, if_pos (by omega)]
  · rw [if_neg h₁, if_neg (by omega : ¬v ≤ 0x7F)]
    by_cases h₂ : v < 0x800
    · rw [if_pos h₂, if_pos (by omega), Nat.mod_eq_of_lt (a := v / 64) (by omega)]
    · rw [if_neg h₂, if_neg (by omega : ¬v ≤ 0x7FF)]
      by_cases h₃ : v < 0x10000
      · rw [if_pos h₃, if_pos (by omega), Nat.mod_eq_of_lt (a := v / 4096) (by omega)]
      · rw [if_neg h₃, if_neg (by omega), Nat.mod_eq_of_lt (a := v / 262144) (by omega)]

/-- A code point takes four bytes at most, three below 65536, and one if it is 0. -/
theorem length_encodeUtf8 {codepoint : Nat} (h : codepoint ≤ 0x10FFFF) :
    ∃ bytes, encodeUtf8 codepoint = .ok bytes ∧ bytes.length ≤ 4 ∧
      (codepoint < 0x10000 → bytes.length ≤ 3) ∧ (codepoint = 0 → bytes.length = 1) := by
  refine ⟨_, encodeUtf8_eq h, ?_⟩
  by_cases h₁ : codepoint < 0x80
  · simp [if_pos h₁]
  · rw [if_neg h₁]
    have hne : codepoint ≠ 0 := by omega
    by_cases h₂ : codepoint < 0x800
    · simp [if_pos h₂, hne]
    · rw [if_neg h₂]
      by_cases h₃ : codepoint < 0x10000
      · simp [if_pos h₃, hne]
      · simp [h₃, hne]

/-- The code point of two surrogates. -/
theorem surrogates_eq (first second : Nat) :
    0x10000 + (((first &&& 0x3FF) <<< 10) ||| (second &&& 0x3FF)) =
      0x10000 + first % 1024 * 1024 + second % 1024 := by
  have hmask : (0x3FF : Nat) = 2 ^ 10 - 1 := rfl
  rw [hmask, Nat.and_two_pow_sub_one_eq_mod, Nat.and_two_pow_sub_one_eq_mod, Nat.shiftLeft_eq,
    Nat.mul_comm, ← Nat.two_pow_add_eq_or_of_lt (Nat.mod_lt _ (by decide))]
  omega

/-! ## Escape sequences -/

/-- The number behind `\u`, zero for anything but four digits. -/
def hexCode (d₀ d₁ d₂ d₃ : UInt8) : Nat := (Json.hexValue [d₀, d₁, d₂, d₃]).getD 0

/-- A code unit is below 65536. -/
theorem hexCode_lt (d₀ d₁ d₂ d₃ : UInt8) : hexCode d₀ d₁ d₂ d₃ < 0x10000 := by
  unfold hexCode
  cases h : Json.hexValue [d₀, d₁, d₂, d₃] with
  | none => decide
  | some v => exact hexValue_lt h

/-- Digits whose code is not 0 are hex digits of this value. -/
theorem hexValue_of_hexCode {d₀ d₁ d₂ d₃ : UInt8} (h : hexCode d₀ d₁ d₂ d₃ ≠ 0) :
    Json.hexValue [d₀, d₁, d₂, d₃] = some (hexCode d₀ d₁ d₂ d₃) := by
  unfold hexCode at h ⊢
  cases hv : Json.hexValue [d₀, d₁, d₂, d₃] with
  | none => rw [hv] at h; exact absurd rfl h
  | some v => rfl

/-- The code at the head of a surrogate pair, in front of the characters `input`. -/
def secondHalf (n firstCode : Nat) (input : List UInt8) : Except Stop (Nat × List UInt8) :=
  match input with
  | c₀ :: c₁ :: e₀ :: e₁ :: e₂ :: e₃ :: _ =>
    if n - 6 < 6 then .error .fail
    else if c₀ ≠ backslash ∨ c₁ ≠ letterU then .error .fail
    else if hexCode e₀ e₁ e₂ e₃ < 0xDC00 ∨ 0xDFFF < hexCode e₀ e₁ e₂ e₃ then .error .fail
    else (encodeUtf8 (0x10000 + firstCode % 1024 * 1024 + hexCode e₀ e₁ e₂ e₃ % 1024)).map
      fun bytes => (12, bytes)
  | _ => .error .fail

/-- The first four bytes. -/
theorem exists_four {l : List UInt8} (h : 4 ≤ l.length) :
    ∃ c₀ c₁ c₂ c₃ t, l = c₀ :: c₁ :: c₂ :: c₃ :: t := by
  match l, h with
  | c₀ :: c₁ :: c₂ :: c₃ :: t, _ => exact ⟨c₀, c₁, c₂, c₃, t, rfl⟩

/-- The first six bytes. -/
theorem exists_six {l : List UInt8} (h : 6 ≤ l.length) :
    ∃ c₀ c₁ c₂ c₃ c₄ c₅ t, l = c₀ :: c₁ :: c₂ :: c₃ :: c₄ :: c₅ :: t := by
  match l, h with
  | c₀ :: c₁ :: c₂ :: c₃ :: c₄ :: c₅ :: t, _ => exact ⟨c₀, c₁, c₂, c₃, c₄, c₅, t, rfl⟩

/-- What a `\u` escape is converted to. -/
theorem utf16LiteralToUtf8_eq {n : Nat} (hn : 6 ≤ n) (b u d₀ d₁ d₂ d₃ : UInt8)
    (x : List UInt8) (hx : n - 6 ≤ x.length) :
    utf16LiteralToUtf8 n (b :: u :: d₀ :: d₁ :: d₂ :: d₃ :: x) =
      if 0xDC00 ≤ hexCode d₀ d₁ d₂ d₃ ∧ hexCode d₀ d₁ d₂ d₃ ≤ 0xDFFF then .error .fail
      else if 0xD800 ≤ hexCode d₀ d₁ d₂ d₃ ∧ hexCode d₀ d₁ d₂ d₃ ≤ 0xDBFF then
        secondHalf n (hexCode d₀ d₁ d₂ d₃) x
      else (encodeUtf8 (hexCode d₀ d₁ d₂ d₃)).map fun bytes => (6, bytes) := by
  have hfirst : parseHex4 ((b :: u :: d₀ :: d₁ :: d₂ :: d₃ :: x).drop 2) =
      .ok (hexCode d₀ d₁ d₂ d₃) := parseHex4_eq d₀ d₁ d₂ d₃ x
  have hdrop : (b :: u :: d₀ :: d₁ :: d₂ :: d₃ :: x).drop 6 = x := rfl
  simp only [utf16LiteralToUtf8, if_neg (by omega : ¬n < 6), hfirst, hdrop]
  generalize hexCode d₀ d₁ d₂ d₃ = code
  simp only [bind, Except.bind, throw, throwThe, MonadExceptOf.throw]
  by_cases hlow : 0xDC00 ≤ code ∧ code ≤ 0xDFFF
  · -- the second half of a pair must not come first
    simp only [if_pos hlow]
  · simp only [if_neg hlow]
    by_cases hhigh : 0xD800 ≤ code ∧ code ≤ 0xDBFF
    · -- the first half needs the second
      simp only [if_pos hhigh]
      by_cases hshort : n - 6 < 6
      · simp only [if_pos hshort]
        unfold secondHalf
        split
        · exact (if_pos hshort).symm
        · rfl
      · obtain ⟨c₀, c₁, e₀, e₁, e₂, e₃, y, rfl⟩ := exists_six (by omega : 6 ≤ x.length)
        have hsecond : parseHex4 ((c₀ :: c₁ :: e₀ :: e₁ :: e₂ :: e₃ :: y).drop 2) =
          .ok (hexCode e₀ e₁ e₂ e₃) := parseHex4_eq e₀ e₁ e₂ e₃ y
        simp only [secondHalf, if_neg hshort, hsecond, surrogates_eq]
        generalize hexCode e₀ e₁ e₂ e₃ = second
        by_cases hback : c₀ ≠ backslash ∨ c₁ ≠ letterU
        · simp only [if_pos hback]
        · simp only [if_neg hback]
          by_cases hrange : second < 0xDC00 ∨ 0xDFFF < second
          · simp only [if_pos hrange]
          · simp only [if_neg hrange]
            cases encodeUtf8 (0x10000 + code % 1024 * 1024 + second % 1024) <;> rfl
    · simp only [if_neg hhigh]
      cases encodeUtf8 code <;> rfl

/-- What an escape sequence takes of the characters `a` between its backslash and the closing
    quote: the length of the sequence, and the bytes it stands for. -/
inductive Escapes : List UInt8 → Nat → List UInt8 → Prop where
  | short {a : List UInt8} {c : UInt8} : Escapes a 2 [c]
  | invalid {d₀ d₁ d₂ d₃ c : UInt8} {a : List UInt8} :
      Escapes (letterU :: d₀ :: d₁ :: d₂ :: d₃ :: a) 6 [c]
  | unicode {d₀ d₁ d₂ d₃ : UInt8} {a bytes : List UInt8} (hd : hexCode d₀ d₁ d₂ d₃ ≠ 0)
      (hlen : bytes.length ≤ 3) : Escapes (letterU :: d₀ :: d₁ :: d₂ :: d₃ :: a) 6 bytes
  | surrogates {d₀ d₁ d₂ d₃ e₀ e₁ e₂ e₃ : UInt8} {a bytes : List UInt8}
      (hd : hexCode d₀ d₁ d₂ d₃ ≠ 0) (he : hexCode e₀ e₁ e₂ e₃ ≠ 0)
      (hlen : bytes.length ≤ 4) :
      Escapes (letterU :: d₀ :: d₁ :: d₂ :: d₃ ::
        backslash :: letterU :: e₀ :: e₁ :: e₂ :: e₃ :: a) 12 bytes

/-- An escape is a code unit or a short one. -/
theorem escapeSequence_cons (n : Nat) (b e : UInt8) (x : List UInt8) :
    escapeSequence n (b :: e :: x) =
      if e = letterU then utf16LiteralToUtf8 n (b :: e :: x)
      else
        match Json.shortEscape e with
        | some c => .ok (2, [c])
        | none => .error .fail := by
  by_cases hu : e = letterU
  · rw [if_pos hu]
    subst hu
    rfl
  · rw [if_neg hu]
    simp only [escapeSequence, Json.shortEscape, if_neg hu]
    repeat' split
    all_goals simp_all

/-- Behind a first half, a second one is needed. -/
theorem secondHalf_cases (code : Nat) {d₀ d₁ d₂ d₃ : UInt8} (hd : hexCode d₀ d₁ d₂ d₃ ≠ 0)
    (a : List UInt8) :
    (∀ r, secondHalf (a.length + 6) code (a ++ quote :: r) = .error .fail) ∨
      ∃ n bytes, Escapes (letterU :: d₀ :: d₁ :: d₂ :: d₃ :: a) n bytes ∧
        ∀ r, secondHalf (a.length + 6) code (a ++ quote :: r) = .ok (n, bytes) := by
  by_cases hlen : a.length < 6
  · -- too few bytes for a second escape
    left
    intro r
    unfold secondHalf
    split
    · exact if_pos (by omega)
    · rfl
  · obtain ⟨c₀, c₁, e₀, e₁, e₂, e₃, y, rfl⟩ := exists_six (by omega : 6 ≤ a.length)
    simp only [List.length_cons, List.cons_append, secondHalf,
      if_neg (by omega : ¬y.length + 1 + 1 + 1 + 1 + 1 + 1 + 6 - 6 < 6)]
    by_cases hback : c₀ ≠ backslash ∨ c₁ ≠ letterU
    · simp only [if_pos hback]
      exact .inl fun _ => trivial
    · simp only [if_neg hback]
      by_cases hrange : hexCode e₀ e₁ e₂ e₃ < 0xDC00 ∨ 0xDFFF < hexCode e₀ e₁ e₂ e₃
      · simp only [if_pos hrange]
        exact .inl fun _ => trivial
      · simp only [if_neg hrange]
        obtain ⟨bytes, hencode, hbytes, -, -⟩ := length_encodeUtf8
          (by omega : 0x10000 + code % 1024 * 1024 + hexCode e₀ e₁ e₂ e₃ % 1024 ≤ 0x10FFFF)
        simp only [ne_eq, not_or, Decidable.not_not] at hback
        obtain ⟨rfl, rfl⟩ := hback
        refine .inr ⟨12, bytes, .surrogates hd (by omega) hbytes, fun _ => ?_⟩
        rw [hencode]
        rfl

/-- An escape sequence stays within the string, and does not depend on what follows it. -/
theorem escapeSequence_cases (a : List UInt8) :
    (∀ r, escapeSequence (a.length + 1) (backslash :: (a ++ quote :: r)) = .error .fail) ∨
      ∃ n bytes, Escapes a n bytes ∧
        ∀ r, escapeSequence (a.length + 1) (backslash :: (a ++ quote :: r)) =
          .ok (n, bytes) := by
  cases a with
  | nil => exact .inr ⟨2, [quote], .short, fun _ => rfl⟩
  | cons e a =>
    simp only [List.cons_append, escapeSequence_cons, List.length_cons]
    by_cases hu : e = letterU
    · subst hu
      simp only [if_pos]
      by_cases hlen : a.length < 4
      · left
        intro r
        exact if_pos (by omega)
      · -- the digits, whatever they are
        obtain ⟨d₀, d₁, d₂, d₃, a, rfl⟩ := exists_four (by omega : 4 ≤ a.length)
        have heq := fun r => utf16LiteralToUtf8_eq (n := a.length + 6) (by omega) backslash
          letterU d₀ d₁ d₂ d₃ (a ++ quote :: r) (by simp)
        simp only [List.length_cons, List.cons_append, Nat.add_assoc, Nat.reduceAdd] at heq ⊢
        simp only [heq]
        by_cases hlow : 0xDC00 ≤ hexCode d₀ d₁ d₂ d₃ ∧ hexCode d₀ d₁ d₂ d₃ ≤ 0xDFFF
        · simp only [if_pos hlow]
          exact .inl fun _ => trivial
        · simp only [if_neg hlow]
          by_cases hhigh : 0xD800 ≤ hexCode d₀ d₁ d₂ d₃ ∧ hexCode d₀ d₁ d₂ d₃ ≤ 0xDBFF
          · simp only [if_pos hhigh]
            exact secondHalf_cases _ (by omega) a
          · simp only [if_neg hhigh]
            have hlt := hexCode_lt d₀ d₁ d₂ d₃
            obtain ⟨bytes, hencode, -, hbytes, hzero⟩ := length_encodeUtf8
              (by omega : hexCode d₀ d₁ d₂ d₃ ≤ 0x10FFFF)
            refine .inr ⟨6, bytes, ?_, fun _ => by rw [hencode]; rfl⟩
            by_cases hd : hexCode d₀ d₁ d₂ d₃ = 0
            · obtain ⟨c, rfl⟩ := List.length_eq_one_iff.mp (hzero hd)
              exact .invalid
            · exact .unicode hd (hbytes hlt)
    · simp only [if_neg hu]
      cases Json.shortEscape e with
      | none => exact .inl fun _ => rfl
      | some c => exact .inr ⟨2, [c], .short, fun _ => rfl⟩

/-! ## The second loop -/

/-- The second loop of `parse_string` without its output buffer. -/
def decode : Nat → Nat → List UInt8 → Except Stop (List UInt8)
  | _, 0, _ => .ok []
  | 0, _ + 1, _ => .error .spin
  | fuel + 1, n + 1, input =>
    match input with
    | [] => .error .overread
    | c :: rest =>
      if c ≠ backslash then (decode fuel n rest).map (c :: ·)
      else do
        let (sequenceLength, bytes) ← escapeSequence (n + 1) input
        (decode fuel (n + 1 - sequenceLength) (input.drop sequenceLength)).map (bytes ++ ·)

/-- The characters of the first loop's steps. -/
def units : List UInt8 → Nat
  | [] => 0
  | [_] => 1
  | c :: e :: t => if c = backslash then units t + 1 else units (e :: t) + 1

/-- The units of a text are its bytes less the backslashes of its pairs. -/
theorem units_of_scanned {t : List UInt8} {k : Nat} (h : Scanned t k) :
    units t + k = t.length := by
  induction h with
  | nil => rfl
  | @plain c t k _ hback _ ih =>
    cases t with
    | nil => simp only [units, List.length_cons] at ih ⊢; omega
    | cons e t => simp only [units, if_neg hback, List.length_cons] at ih ⊢; omega
  | pair _ ih => simp only [units, if_pos, List.length_cons]; omega

/-- The output has room for what is left of the string: from a step of the first loop, or
    from within one. -/
def Fits (room : Nat) (a : List UInt8) : Prop :=
  units a ≤ room ∨ ∃ c t, a = c :: t ∧ units t + 1 ≤ room

/-- A plain byte is a unit. -/
theorem units_cons_of_ne {c : UInt8} (hc : c ≠ backslash) (t : List UInt8) :
    units (c :: t) = units t + 1 := by
  cases t with
  | nil => rfl
  | cons e t => simp only [units, if_neg hc]

/-- An escape is a unit. -/
theorem units_pair (e : UInt8) (t : List UInt8) : units (backslash :: e :: t) = units t + 1 := by
  simp only [units, if_pos]

/-- A character passed without any output. -/
theorem Fits.tail {room : Nat} {c : UInt8} {a : List UInt8} (h : Fits room (c :: a)) :
    Fits room a := by
  obtain h | ⟨c', t, heq, h⟩ := h
  · by_cases hc : c = backslash
    · cases a with
      | nil => exact .inl (Nat.zero_le _)
      | cons e a =>
        rw [hc, units_pair] at h
        exact .inr ⟨e, a, rfl, h⟩
    · rw [units_cons_of_ne hc] at h
      exact .inl (by omega)
  · obtain ⟨rfl, rfl⟩ := List.cons.inj heq
    exact .inl (by omega)

/-- A character other than a backslash makes room for one byte. -/
theorem Fits.plain {room : Nat} {c : UInt8} {a : List UInt8} (hc : c ≠ backslash)
    (h : Fits room (c :: a)) : 1 ≤ room ∧ Fits (room - 1) a := by
  obtain h | ⟨c', t, heq, h⟩ := h
  · rw [units_cons_of_ne hc] at h
    exact ⟨by omega, .inl (by omega)⟩
  · obtain ⟨rfl, rfl⟩ := List.cons.inj heq
    exact ⟨by omega, .inl (by omega)⟩

/-- So do a backslash and the character behind it. -/
theorem Fits.pair {room : Nat} {e : UInt8} {a : List UInt8}
    (h : Fits room (backslash :: e :: a)) : 1 ≤ room ∧ Fits (room - 1) a := by
  obtain h | ⟨c', t, heq, h⟩ := h
  · rw [units_pair] at h
    exact ⟨by omega, .inl (by omega)⟩
  · obtain ⟨rfl, rfl⟩ := List.cons.inj heq
    by_cases he : e = backslash
    · -- out of step: the pair is the end of one step and the beginning of the next
      cases a with
      | nil => exact ⟨by omega, .inl (Nat.zero_le _)⟩
      | cons e' a =>
        rw [he, units_pair] at h
        exact ⟨by omega, .inr ⟨e', a, rfl, by omega⟩⟩
    · rw [units_cons_of_ne he] at h
      exact ⟨by omega, .inl (by omega)⟩

/-- The digits of a code unit are no backslashes. -/
theorem hexDigits_ne {d₀ d₁ d₂ d₃ : UInt8} (h : hexCode d₀ d₁ d₂ d₃ ≠ 0) :
    d₀ ≠ backslash ∧ d₁ ≠ backslash ∧ d₂ ≠ backslash ∧ d₃ ≠ backslash := by
  obtain ⟨h₀, h₁, h₂, h₃, e₀, e₁, e₂, e₃, -⟩ := hexValue_eq_some_iff.mp (hexValue_of_hexCode h)
  exact ⟨(ne_of_hexDigit e₀).2, (ne_of_hexDigit e₁).2, (ne_of_hexDigit e₂).2,
    (ne_of_hexDigit e₃).2⟩

/-- Four digits make room for four bytes. -/
theorem Fits.digits {room : Nat} {d₀ d₁ d₂ d₃ : UInt8} {a : List UInt8}
    (hd : hexCode d₀ d₁ d₂ d₃ ≠ 0) (h : Fits room (d₀ :: d₁ :: d₂ :: d₃ :: a)) :
    4 ≤ room ∧ Fits (room - 4) a := by
  obtain ⟨h₀, h₁, h₂, h₃⟩ := hexDigits_ne hd
  obtain ⟨k₀, h⟩ := h.plain h₀
  obtain ⟨k₁, h⟩ := h.plain h₁
  obtain ⟨k₂, h⟩ := h.plain h₂
  obtain ⟨k₃, h⟩ := h.plain h₃
  exact ⟨by omega, h⟩

/-- More room. -/
theorem Fits.mono {room room' : Nat} {a : List UInt8} (h : Fits room a) (hle : room ≤ room') :
    Fits room' a := by
  obtain h | ⟨c, t, heq, h⟩ := h
  · exact .inl (by omega)
  · exact .inr ⟨c, t, heq, by omega⟩

/-- An escape sequence passes enough characters for the bytes it stands for. -/
theorem Escapes.fits {a bytes : List UInt8} {n room : Nat} (h : Escapes a n bytes)
    (hfits : Fits room (backslash :: a)) :
    bytes.length ≤ room ∧ Fits (room - bytes.length) ((backslash :: a).drop n) := by
  cases h with
  | short =>
    cases a with
    | nil =>
      have hroom : 1 ≤ room := by
        obtain h | ⟨c, t, heq, h⟩ := hfits
        · exact h
        · omega
      exact ⟨hroom, .inl (Nat.zero_le _)⟩
    | cons e a => exact hfits.pair
  | invalid =>
    obtain ⟨hroom, h⟩ := hfits.pair
    exact ⟨hroom, h.tail.tail.tail.tail⟩
  -- six bytes for at most three
  | unicode hd hlen =>
    obtain ⟨k, h⟩ := hfits.pair
    obtain ⟨k', h⟩ := h.digits hd
    exact ⟨by omega, h.mono (by omega)⟩
  -- twelve bytes for at most four
  | surrogates hd he hlen =>
    obtain ⟨k, h⟩ := hfits.pair
    obtain ⟨k₁, h⟩ := h.digits hd
    obtain ⟨k₂, h⟩ := h.pair
    obtain ⟨k₃, h⟩ := h.digits he
    exact ⟨by omega, h.mono (by omega)⟩

/-- What is left behind an escape sequence: nothing, or the rest of the string. -/
theorem Escapes.drop {a bytes : List UInt8} {n : Nat} (h : Escapes a n bytes)
    (r : List UInt8) :
    0 < n ∧ (a.length + 1 - n = 0 ∨
      a.length + 1 - n = ((backslash :: a).drop n).length ∧
        (backslash :: (a ++ quote :: r)).drop n = (backslash :: a).drop n ++ quote :: r) := by
  cases h with
  | short =>
    cases a with
    | nil => exact ⟨by decide, .inl rfl⟩
    | cons e a => exact ⟨by decide, .inr ⟨by simp, rfl⟩⟩
  | invalid => exact ⟨by decide, .inr ⟨by simp, rfl⟩⟩
  | unicode => exact ⟨by decide, .inr ⟨by simp, rfl⟩⟩
  | surrogates => exact ⟨by decide, .inr ⟨by simp, rfl⟩⟩

/-- There is room for what is put. -/
theorem put_of_fits {out : Output} {bytes : List UInt8} {room : Nat}
    (hsize : out.bytes.length + room ≤ out.size) (hlen : bytes.length ≤ room) :
    out.put bytes = .ok { out with bytes := out.bytes ++ bytes } := if_pos (by omega)

/-- The second loop writes what `decode` gives, within its output. -/
theorem unescape_eq (fuel : Nat) {a : List UInt8} (r : List UInt8) (out : Output) {room : Nat}
    (hfits : Fits room a) (hsize : out.bytes.length + room ≤ out.size) :
    unescape fuel a.length (a ++ quote :: r) out =
        (decode fuel a.length (a ++ quote :: r)).map
          (fun s => { out with bytes := out.bytes ++ s }) ∧
      ∀ s, decode fuel a.length (a ++ quote :: r) = .ok s → s.length ≤ room := by
  induction fuel generalizing a out room with
  | zero =>
    cases a with
    | nil => simp [unescape, decode, Except.map]
    | cons c a => simp [unescape, decode, Except.map]
  | succ fuel ih =>
    cases a with
    | nil => simp [unescape, decode, Except.map]
    | cons c a =>
      by_cases hc : c = backslash
      · subst hc
        simp only [List.cons_append, List.length_cons, unescape, decode, ne_eq, not_true_eq_false,
          if_false]
        obtain hfail | ⟨n, bytes, hescapes, hok⟩ := escapeSequence_cases a
        · simp [hfail, bind, Except.bind, Except.map]
        · -- what the escape stands for has room, and so has the rest
          obtain ⟨hlen, hrest⟩ := hescapes.fits hfits
          have hput := put_of_fits hsize hlen
          simp only [hok, bind, Except.bind, hput]
          obtain ⟨-, hdone | ⟨hcount, hdrop⟩⟩ := hescapes.drop r
          · simp only [hdone, unescape, decode, Except.map, List.append_nil, Except.ok.injEq]
            exact ⟨trivial, fun s hs => hs ▸ hlen⟩
          · rw [hcount, hdrop]
            obtain ⟨heq, hle⟩ := ih { out with bytes := out.bytes ++ bytes } hrest
              (by simp only [List.length_append]; omega)
            rw [heq]
            cases hs : decode fuel ((backslash :: a).drop n).length
              ((backslash :: a).drop n ++ quote :: r) with
            | error e => simp [Except.map]
            | ok s =>
              have := hle s hs
              simp only [Except.map, List.append_assoc, Except.ok.injEq, forall_eq',
                List.length_append, true_and]
              omega
      · obtain ⟨hroom, hrest⟩ := hfits.plain hc
        have hput : out.put [c] = .ok { out with bytes := out.bytes ++ [c] } :=
          put_of_fits hsize hroom
        simp only [List.cons_append, List.length_cons, unescape, decode, ne_eq, hc,
          not_false_eq_true, if_true, hput, bind, Except.bind]
        obtain ⟨heq, hle⟩ := ih { out with bytes := out.bytes ++ [c] } hrest
          (by simp only [List.length_append, List.length_singleton]; omega)
        rw [heq]
        cases hs : decode fuel a.length (a ++ quote :: r) with
        | error e => simp [Except.map]
        | ok s =>
          have := hle s hs
          simp only [Except.map, List.append_assoc, List.singleton_append, Except.ok.injEq,
            forall_eq', List.length_cons, true_and]
          omega

/-- The second loop stays within the string, and does not depend on what follows it. -/
theorem decode_cases {fuel : Nat} {a : List UInt8} (hfuel : a.length ≤ fuel) :
    (∀ r, decode fuel a.length (a ++ quote :: r) = .error .fail) ∨
      ∃ s, ∀ r, decode fuel a.length (a ++ quote :: r) = .ok s := by
  induction fuel generalizing a with
  | zero =>
    cases a with
    | nil => exact .inr ⟨[], fun _ => rfl⟩
    | cons c a => exact absurd hfuel (by simp)
  | succ fuel ih =>
    cases a with
    | nil => exact .inr ⟨[], fun _ => rfl⟩
    | cons c a =>
      simp only [List.length_cons] at hfuel
      by_cases hc : c = backslash
      · -- an escape does not look behind the closing quotation mark
        subst hc
        simp only [List.cons_append, List.length_cons, decode, ne_eq, not_true_eq_false, if_false]
        obtain hfail | ⟨n, bytes, hescapes, hok⟩ := escapeSequence_cases a
        · exact .inl fun r => by rw [hfail]; rfl
        · simp only [hok, bind, Except.bind]
          by_cases hdone : a.length + 1 - n = 0
          · exact .inr ⟨bytes, fun r => by simp only [hdone, decode, Except.map, List.append_nil]⟩
          · have hdrop := fun r => hescapes.drop r
            have hpos := (hdrop []).1
            simp only [hdone, false_or] at hdrop
            have hcount := (hdrop []).2.1
            obtain hfail | ⟨s, hs⟩ := @ih ((backslash :: a).drop n) (by omega)
            · left
              intro r
              rw [hcount, (hdrop r).2.2, hfail]
              rfl
            · refine .inr ⟨bytes ++ s, fun r => ?_⟩
              rw [hcount, (hdrop r).2.2, hs]
              rfl
      · simp only [List.cons_append, List.length_cons, decode, ne_eq, hc, not_false_eq_true,
          if_true]
        obtain hfail | ⟨s, hs⟩ := @ih a (by omega)
        · exact .inl fun r => by rw [hfail]; rfl
        · exact .inr ⟨c :: s, fun r => by rw [hs]; rfl⟩

/-! ## The strings of JSON -/

/-- A hex digit is scanned like any plain byte. -/
theorem Scanned.plain_hex {c : UInt8} {t : List UInt8} {d k : Nat}
    (hd : Json.hexDigit c = some d) (h : Scanned t k) : Scanned (c :: t) k :=
  .plain (ne_of_hexDigit hd).1 (ne_of_hexDigit hd).2 h

/-- Four digits in front of what the first loop passes. -/
theorem Scanned.digits {d₀ d₁ d₂ d₃ : UInt8} {v k : Nat} {t : List UInt8}
    (hd : Json.hexValue [d₀, d₁, d₂, d₃] = some v) (h : Scanned t k) :
    Scanned (d₀ :: d₁ :: d₂ :: d₃ :: t) k := by
  obtain ⟨h₀, h₁, h₂, h₃, e₀, e₁, e₂, e₃, -⟩ := hexValue_eq_some_iff.mp hd
  exact (((h.plain_hex e₃).plain_hex e₂).plain_hex e₁).plain_hex e₀

/-- The first loop passes a string of JSON. -/
theorem scanned_of_stringText {s t : List UInt8} (h : StringText s t) : ∃ k, Scanned t k := by
  induction h with
  | nil => exact ⟨0, .nil⟩
  | plain _ hquote hback _ ih => exact ⟨_, ih.choose_spec.plain hquote hback⟩
  | short _ _ ih => exact ⟨_, ih.choose_spec.pair⟩
  | unicode hd _ ih => exact ⟨_, (ih.choose_spec.digits hd).pair⟩
  | surrogates _ hd he _ ih => exact ⟨_, (((ih.choose_spec.digits he).pair).digits hd).pair⟩

/-- The code of hex digits is their value. -/
theorem hexCode_eq {d₀ d₁ d₂ d₃ : UInt8} {v : Nat}
    (h : Json.hexValue [d₀, d₁, d₂, d₃] = some v) : hexCode d₀ d₁ d₂ d₃ = v := by
  rw [hexCode, h]
  rfl

/-- The escape of a character of the first plane. -/
theorem escapeSequence_unicode {c : Char} {d₀ d₁ d₂ d₃ : UInt8}
    (hd : Json.hexValue [d₀, d₁, d₂, d₃] = some c.toNat) (n : Nat) (x : List UInt8)
    (hx : n ≤ x.length) :
    escapeSequence (n + 6) (backslash :: letterU :: d₀ :: d₁ :: d₂ :: d₃ :: x) =
      .ok (6, String.utf8EncodeChar c) := by
  have hvalid := c.valid
  simp only [UInt32.isValidChar, Nat.isValidChar] at hvalid
  have hnat : c.toNat = c.val.toNat := rfl
  rw [escapeSequence_cons, if_pos rfl, utf16LiteralToUtf8_eq (by omega) _ _ _ _ _ _ _ (by omega),
    hexCode_eq hd, if_neg (by omega), if_neg (by omega), encodeUtf8_char]
  rfl

/-- The escape of a character behind it. -/
theorem escapeSequence_surrogates {c : Char} {d₀ d₁ d₂ d₃ e₀ e₁ e₂ e₃ : UInt8}
    (hc : 0x10000 ≤ c.toNat)
    (hd : Json.hexValue [d₀, d₁, d₂, d₃] = some (0xD800 + (c.toNat - 0x10000) / 0x400))
    (he : Json.hexValue [e₀, e₁, e₂, e₃] = some (0xDC00 + (c.toNat - 0x10000) % 0x400))
    (n : Nat) (x : List UInt8) (hx : n ≤ x.length) :
    escapeSequence (n + 12) (backslash :: letterU :: d₀ :: d₁ :: d₂ :: d₃ ::
        backslash :: letterU :: e₀ :: e₁ :: e₂ :: e₃ :: x) =
      .ok (12, String.utf8EncodeChar c) := by
  have hvalid := c.valid
  simp only [UInt32.isValidChar, Nat.isValidChar] at hvalid
  have hnat : c.toNat = c.val.toNat := rfl
  -- the two halves give the code point back
  have hcode : 0x10000 + (0xD800 + (c.toNat - 0x10000) / 0x400) % 1024 * 1024 +
      (0xDC00 + (c.toNat - 0x10000) % 0x400) % 1024 = c.toNat := by omega
  have hback : ¬(backslash ≠ backslash ∨ letterU ≠ letterU) := by decide
  rw [escapeSequence_cons, if_pos rfl, utf16LiteralToUtf8_eq (by omega) _ _ _ _ _ _ _
      (by simp only [List.length_cons]; omega),
    hexCode_eq hd, if_neg (by omega), if_pos (by omega)]
  simp only [secondHalf, hexCode_eq he]
  rw [if_neg (by omega), if_neg hback, if_neg (by omega), hcode, encodeUtf8_char]
  rfl

/-- A string of JSON is decoded to what it stands for. -/
theorem decode_of_stringText {s t : List UInt8} (h : StringText s t) (r : List UInt8)
    {fuel : Nat} (hfuel : t.length ≤ fuel) :
    decode fuel t.length (t ++ quote :: r) = .ok s := by
  induction h generalizing fuel with
  | nil => cases fuel <;> rfl
  | plain _ _ hback _ ih =>
    obtain ⟨fuel, rfl⟩ : ∃ f, fuel = f + 1 := ⟨fuel - 1, by simp at hfuel; omega⟩
    simp only [List.length_cons] at hfuel
    simp only [List.cons_append, List.length_cons, decode, ne_eq, hback, not_false_eq_true,
      if_true, ih (by omega : _ ≤ fuel), Except.map]
  | @short e c s t he _ ih =>
    obtain ⟨fuel, rfl⟩ : ∃ f, fuel = f + 1 := ⟨fuel - 1, by simp at hfuel; omega⟩
    simp only [List.length_cons] at hfuel
    -- a short escape is no code unit
    have hu : e ≠ letterU := by
      rintro rfl
      cases he
    simp only [List.cons_append, List.length_cons, decode, ne_eq, not_true_eq_false, if_false,
      escapeSequence_cons, if_neg hu, he, bind, Except.bind, Nat.reduceSubDiff,
      List.drop_succ_cons, List.drop_zero, ih (by omega : _ ≤ fuel), Except.map]
    rfl
  | @unicode c d₀ d₁ d₂ d₃ s t hd _ ih =>
    obtain ⟨fuel, rfl⟩ : ∃ f, fuel = f + 1 := ⟨fuel - 1, by simp at hfuel; omega⟩
    simp only [List.length_cons] at hfuel
    -- four hex digits
    have hescape := escapeSequence_unicode hd t.length (t ++ quote :: r) (by simp)
    simp only [List.cons_append, List.length_cons, decode, ne_eq, not_true_eq_false, if_false,
      hescape, bind, Except.bind, Nat.reduceSubDiff, List.drop_succ_cons,
      List.drop_zero, ih (by omega : _ ≤ fuel), Except.map]
  | @surrogates c d₀ d₁ d₂ d₃ e₀ e₁ e₂ e₃ s t hc hd he _ ih =>
    obtain ⟨fuel, rfl⟩ : ∃ f, fuel = f + 1 := ⟨fuel - 1, by simp at hfuel; omega⟩
    simp only [List.length_cons] at hfuel
    have hescape := escapeSequence_surrogates hc hd he t.length (t ++ quote :: r) (by simp)
    simp only [List.cons_append, List.length_cons, decode, ne_eq, not_true_eq_false, if_false,
      hescape, bind, Except.bind, Nat.reduceSubDiff, List.drop_succ_cons,
      List.drop_zero, ih (by omega : _ ≤ fuel), Except.map]

end EspTesting.CJson
