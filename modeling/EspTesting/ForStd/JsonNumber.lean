import Mathlib.Algebra.Group.Nat.Defs
import EspTesting.ForStd.Json

/-!
# The numbers of a JSON text

The number token of JSON, the decimal text of an integer, and the grammar of JSON over what the
numbers stand for.

## Key results

- `numberText_decimal`: the decimal text of an integer is a number of JSON
-/

namespace Json

/-- A decimal digit. -/
def IsDigit (c : UInt8) : Prop := 0x30 ≤ c ∧ c ≤ 0x39

/-- Decimal digits, at least one. -/
def Digits (t : List UInt8) : Prop := t ≠ [] ∧ ∀ c ∈ t, IsDigit c

/-- A number of JSON: a sign or none, digits without a leading zero, a fraction or none, and an
    exponent or none. -/
def NumberText (t : List UInt8) : Prop :=
  ∃ sign int frac exp, t = sign ++ int ++ frac ++ exp ∧
    (sign = [] ∨ sign = [0x2D]) ∧
    (int = [0x30] ∨ Digits int ∧ int.head? ≠ some 0x30) ∧
    (frac = [] ∨ ∃ ds, frac = 0x2E :: ds ∧ Digits ds) ∧
    (exp = [] ∨ ∃ e s ds, exp = e :: s ++ ds ∧ (e = 0x65 ∨ e = 0x45) ∧
      (s = [] ∨ s = [0x2B] ∨ s = [0x2D]) ∧ Digits ds)

/-- The grammar of JSON, with the strings in UTF-8. `value` says what a number stands for. -/
def standard {ν : Type _} (value : ν → List UInt8 → Prop) : Lexis ν where
  blank c := c = 0x20 ∨ c = 0x09 ∨ c = 0x0A ∨ c = 0x0D
  string := StringText
  number n t := NumberText t ∧ value n t

/-- The digits of a number. -/
def digits (n : Nat) : List UInt8 := (Nat.toDigits 10 n).map fun c => UInt8.ofNat c.toNat

/-- The decimal text of an integer. -/
def decimal (i : Int) : List UInt8 :=
  if i < 0 then 0x2D :: digits i.natAbs else digits i.natAbs

/-- The byte of a decimal digit is a digit of the text. -/
theorem isDigit_of_char {c : Char} (h : c.isDigit = true) : IsDigit (UInt8.ofNat c.toNat) := by
  have hnat : 48 ≤ c.toNat ∧ c.toNat ≤ 57 := Char.isDigit_iff_toNat.mp h
  rw [IsDigit, UInt8.le_iff_toNat_le, UInt8.le_iff_toNat_le, UInt8.toNat_ofNat']
  simp only [UInt8.reduceToNat]
  omega

/-- What `digits` writes are digits, and not none. -/
theorem digits_digits (n : Nat) : Digits (digits n) := by
  constructor
  · simp [digits]
  · intro c hc
    obtain ⟨d, hd, rfl⟩ := List.mem_map.mp hc
    exact isDigit_of_char (Nat.isDigit_of_mem_toDigits (by decide) (by decide) hd)

/-- A number below `10 ^ k` has at most `k` digits. -/
theorem length_digits_le {n k : Nat} (hk : 0 < k) (h : n < 10 ^ k) : (digits n).length ≤ k := by
  rw [digits, List.length_map]
  exact (Nat.length_toDigits_le_iff (by decide) hk).mpr h

/-- The number that digits stand for. -/
def digitsValue (ds : List UInt8) : Nat := ds.foldl (fun n c => 10 * n + (c.toNat - 0x30)) 0

/-- One more digit behind the others counts for one, the others for ten times as much. -/
theorem digitsValue_append_singleton (ds : List UInt8) (c : UInt8) :
    digitsValue (ds ++ [c]) = 10 * digitsValue ds + (c.toNat - 0x30) := by
  simp only [digitsValue, List.foldl_append, List.foldl_cons, List.foldl_nil]

/-- The last digit is the remainder, the digits in front of it are the quotient. -/
theorem digits_of_ten_le {n : Nat} (h : 10 ≤ n) :
    digits n = digits (n / 10) ++ [UInt8.ofNat (Nat.digitChar (n % 10)).toNat] := by
  rw [digits, Nat.toDigits_of_base_le (by decide) h, List.map_append]
  rfl

/-- The digits of a number stand for it. -/
theorem digitsValue_digits (n : Nat) : digitsValue (digits n) = n := by
  -- the ten digits by evaluation, the rest by the quotient
  have hall : ∀ k : Fin 10, digitsValue (digits k.val) = k.val ∧
      (UInt8.ofNat (Nat.digitChar k.val).toNat).toNat - 0x30 = k.val := by decide
  induction n using Nat.strongRecOn with
  | ind n ih =>
    by_cases hlt : n < 10
    · exact (hall ⟨n, hlt⟩).1
    · have hlast := (hall ⟨n % 10, Nat.mod_lt _ (by decide)⟩).2
      rw [digits_of_ten_le (by omega), digitsValue_append_singleton, ih (n / 10) (by omega)]
      simp only at hlast
      omega

/-- Only zero starts with the digit zero. -/
theorem head?_digits (n : Nat) (h : 0 < n) : (digits n).head? ≠ some 0x30 := by
  induction n using Nat.strongRecOn with
  | ind n ih =>
    by_cases hlt : n < 10
    · have hall : ∀ k : Fin 10, 0 < k.val → (digits k.val).head? ≠ some 0x30 := by decide
      exact hall ⟨n, hlt⟩ h
    · -- the first digit is the first one of the quotient
      have hdiv := ih (n / 10) (by omega) (by omega)
      have hne := (digits_digits (n / 10)).1
      rw [digits_of_ten_le (by omega), List.head?_append_of_ne_nil _ hne]
      exact hdiv

/-- The decimal text of an integer is a number of JSON. -/
theorem numberText_decimal (i : Int) : NumberText (decimal i) := by
  -- the text has a lone zero, or digits that begin with none
  have hint : ∀ n, digits n = [0x30] ∨ Digits (digits n) ∧ (digits n).head? ≠ some 0x30 := by
    intro n
    by_cases hn : n = 0
    · left
      rw [hn]
      rfl
    · exact .inr ⟨digits_digits n, head?_digits n (by omega)⟩
  unfold decimal
  split
  · exact ⟨[0x2D], digits i.natAbs, [], [], by simp, .inr rfl, hint _, .inl rfl, .inl rfl⟩
  · exact ⟨[], digits i.natAbs, [], [], by simp, .inl rfl, hint _, .inl rfl, .inl rfl⟩

/-- The sign takes one byte more. -/
theorem length_decimal_le {i : Int} {k : Nat} (hk : 0 < k) (h : i.natAbs < 10 ^ k) :
    (decimal i).length ≤ k + 1 := by
  have := length_digits_le hk h
  unfold decimal
  split
  · rw [List.length_cons]
    omega
  · omega

/-- A character of a decimal text: a digit or a sign. -/
theorem mem_decimal {i : Int} {c : UInt8} (h : c ∈ decimal i) : c = 0x2D ∨ IsDigit c := by
  unfold decimal at h
  split at h
  · obtain rfl | h := List.mem_cons.mp h
    · exact .inl rfl
    · exact .inr ((digits_digits _).2 c h)
  · exact .inr ((digits_digits _).2 c h)

end Json
