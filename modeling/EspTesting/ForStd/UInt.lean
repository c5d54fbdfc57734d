import Mathlib.Algebra.Group.Nat.Defs

/-!
# Words and their bytes

The high and the low byte of a 16-bit word, joined by shift and or, give the word back; four
bytes joined like this are their little-endian number. Adding a constant to two 32-bit words
keeps their order exactly if both sums wrap or neither does.
-/

namespace UInt16

/-- Joining the high and the low byte of a word. -/
theorem join_bytes (n : UInt16) :
    ((n >>> 8).toUInt8.toUInt16 <<< 8) ||| n.toUInt8.toUInt16 = n := by
  apply UInt16.toNat_inj.mp
  have hn := n.toNat_lt
  have hshift : (8 : UInt16).toNat % 16 = 8 := by decide
  have hhigh : (n >>> 8).toUInt8.toNat = n.toNat / 2 ^ 8 := by
    rw [UInt16.toNat_toUInt8, UInt16.toNat_shiftRight, hshift, Nat.shiftRight_eq_div_pow]
    omega
  rw [UInt16.toNat_or, UInt16.toNat_shiftLeft, UInt8.toNat_toUInt16, UInt8.toNat_toUInt16,
    hhigh, hshift, UInt16.toNat_toUInt8]
  have hlow : n.toNat % 2 ^ 8 < 2 ^ 8 := Nat.mod_lt _ (by decide)
  have hfit : (n.toNat / 2 ^ 8) <<< 8 % 2 ^ 16 = (n.toNat / 2 ^ 8) <<< 8 := by
    rw [Nat.shiftLeft_eq]; omega
  rw [hfit, ← Nat.shiftLeft_add_eq_or_of_lt hlow, Nat.shiftLeft_eq]
  omega

/-- Two bytes joined by shift and or are their number, the low byte first. -/
theorem toNat_join_bytes (high low : UInt8) :
    ((high.toUInt16 <<< 8) ||| low.toUInt16).toNat = low.toNat + 2 ^ 8 * high.toNat := by
  have hhigh := high.toNat_lt
  have hlow := low.toNat_lt
  have hshift : (8 : UInt16).toNat % 16 = 8 := by decide
  have hfit : high.toNat <<< 8 % 2 ^ 16 = high.toNat <<< 8 := by
    rw [Nat.shiftLeft_eq]
    omega
  rw [UInt16.toNat_or, UInt16.toNat_shiftLeft, UInt8.toNat_toUInt16, UInt8.toNat_toUInt16,
    hshift, hfit, ← Nat.shiftLeft_add_eq_or_of_lt hlow, Nat.shiftLeft_eq]
  omega

/-- The low byte of two joined bytes. -/
theorem toUInt8_join_bytes (high low : UInt8) :
    ((high.toUInt16 <<< 8) ||| low.toUInt16).toUInt8 = low := by
  apply UInt8.toNat_inj.mp
  have hlow := low.toNat_lt
  rw [UInt16.toNat_toUInt8, toNat_join_bytes]
  omega

end UInt16

namespace UInt32

/-- Four bytes joined by shift and or, the lowest first. -/
theorem toNat_join_bytes (b₀ b₁ b₂ b₃ : UInt8) :
    (b₀.toUInt32 ||| (b₁.toUInt32 <<< 8) ||| (b₂.toUInt32 <<< 16) |||
      (b₃.toUInt32 <<< 24)).toNat =
      b₀.toNat + 2 ^ 8 * b₁.toNat + 2 ^ 16 * b₂.toNat + 2 ^ 24 * b₃.toNat := by
  have h₀ := b₀.toNat_lt
  have h₁ := b₁.toNat_lt
  have h₂ := b₂.toNat_lt
  have h₃ := b₃.toNat_lt
  -- a byte put above the bits of `n` adds to it
  have hor : ∀ n k b, n < 2 ^ k → n ||| b <<< k = n + 2 ^ k * b := by
    intro n k b hn
    rw [Nat.or_comm, ← Nat.shiftLeft_add_eq_or_of_lt hn, Nat.shiftLeft_eq, Nat.mul_comm,
      Nat.add_comm]
  have hfit : b₁.toNat <<< 8 % 2 ^ 32 = b₁.toNat <<< 8 ∧
      b₂.toNat <<< 16 % 2 ^ 32 = b₂.toNat <<< 16 ∧
      b₃.toNat <<< 24 % 2 ^ 32 = b₃.toNat <<< 24 := by
    simp only [Nat.shiftLeft_eq]
    omega
  simp only [UInt32.toNat_or, UInt32.toNat_shiftLeft, UInt8.toNat_toUInt32,
    UInt32.reduceToNat, Nat.reduceMod]
  rw [hfit.1, hfit.2.1, hfit.2.2, hor _ 8 _ h₀, hor _ 16 _ (by omega), hor _ 24 _ (by omega)]

/-- Two numbers stay in their order when `c` is added exactly if both sums wrap or neither. -/
theorem add_lt_add_right_iff_iff (a b c : UInt32) : (a + c < b + c ↔ a < b) ↔
    (2 ^ 32 ≤ a.toNat + c.toNat ↔ 2 ^ 32 ≤ b.toNat + c.toNat) := by
  have ha := a.toNat_lt
  have hb := b.toNat_lt
  have hc := c.toNat_lt
  rw [UInt32.lt_iff_toNat_lt, UInt32.lt_iff_toNat_lt, UInt32.toNat_add, UInt32.toNat_add]
  omega

/-- The difference of two numbers does not see what is added to both. -/
theorem add_sub_add_right (a b c : UInt32) : a + c - (b + c) = a - b := by
  apply UInt32.toNat_inj.mp
  have ha := a.toNat_lt
  have hb := b.toNat_lt
  have hc := c.toNat_lt
  simp only [UInt32.toNat_sub, UInt32.toNat_add]
  omega

end UInt32
