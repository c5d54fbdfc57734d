/-!
# Signed integers without overflow

The operations and conversions of signed fixed-width integers, where the exact result fits the
type.
-/

namespace Int32

/-- A sum inside the 32 bits is the sum. -/
theorem toInt_add_of_bounds {a b : Int32} (hlo : -2147483648 ≤ a.toInt + b.toInt)
    (hhi : a.toInt + b.toInt < 2147483648) : (a + b).toInt = a.toInt + b.toInt := by
  rw [Int32.toInt_add]
  exact Int.bmod_eq_of_le hlo hhi

/-- A difference inside the 32 bits is the difference. -/
theorem toInt_sub_of_bounds {a b : Int32} (hlo : -2147483648 ≤ a.toInt - b.toInt)
    (hhi : a.toInt - b.toInt < 2147483648) : (a - b).toInt = a.toInt - b.toInt := by
  rw [Int32.toInt_sub]
  exact Int.bmod_eq_of_le hlo hhi

/-- A non-negative value divided by a positive one. -/
theorem toInt_div_of_nonneg {a b : Int32} (ha : 0 ≤ a.toInt) (hb : 0 < b.toInt) :
    (a / b).toInt = a.toInt / b.toInt := by
  have hlt := a.toInt_lt
  have hle : a.toInt / b.toInt ≤ a.toInt := Int.ediv_le_self _ ha
  have hnonneg : 0 ≤ a.toInt / b.toInt := Int.ediv_nonneg ha (Int.le_of_lt hb)
  rw [Int32.toInt_div, Int.tdiv_eq_ediv_of_nonneg ha]
  exact Int.bmod_eq_of_le (by omega) (by omega)

/-- A number inside the 16 bits keeps its value when it is cut to them. -/
theorem toInt_toInt16_of_bounds {a : Int32} (hlo : -32768 ≤ a.toInt) (hhi : a.toInt < 32768) :
    a.toInt16.toInt = a.toInt := by
  rw [Int32.toInt_toInt16]
  exact Int.bmod_eq_of_le hlo hhi

end Int32

/-- A 16-bit word as a 32-bit signed integer. -/
theorem UInt16.toInt_toInt32 (n : UInt16) : n.toUInt32.toInt32.toInt = n.toNat := by
  have hlt := n.toNat_lt
  rw [← Int32.toInt_toBitVec]
  show n.toUInt32.toBitVec.toInt = n.toNat
  rw [BitVec.toInt_eq_toNat_of_lt]
  · rfl
  · show 2 * n.toNat < 2 ^ 32
    omega

/-- A non-negative 16-bit integer as a word. -/
theorem Int16.toNat_toUInt16_of_nonneg {n : Int16} (h : 0 ≤ n.toInt) :
    (n.toUInt16.toNat : Int) = n.toInt := by
  have hle : 0 ≤ n := Int16.le_iff_toInt_le.mpr h
  rw [Int16.toNat_toUInt16_of_le hle]
  exact Int.toNat_of_nonneg h
