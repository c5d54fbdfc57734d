/-!
# Flags in a word

A word whose bits are flags. Flags are set, cleared and tested by a mask, several at a time;
the lemmas bring all of it down to single bits.
-/

namespace Flags

variable {w : Nat}

/-- The mask of the flag number `i`. -/
def bit (w i : Nat) : BitVec w := BitVec.twoPow w i

/-- Set the flags in the mask. -/
def set (bits mask : BitVec w) : BitVec w := bits ||| mask

/-- Clear the flags in the mask. -/
def clear (bits mask : BitVec w) : BitVec w := bits &&& ~~~mask

/-- One of the flags in the mask is set. -/
def any (bits mask : BitVec w) : Bool := bits &&& mask != 0

variable {i : Nat} {bits mask : BitVec w}

/-- The mask of one flag asks for this flag. -/
theorem any_bit (hi : i < w) : any bits (bit w i) = bits.getLsbD i := by
  unfold any bit
  rw [BitVec.and_twoPow]
  split
  · rename_i hset
    -- the mask is not 0: its own bit is set
    have hne : BitVec.twoPow w i ≠ 0 := by
      intro hzero
      have hbit : (BitVec.twoPow w i).getLsbD i = true := by
        simp [hi]
      rw [hzero] at hbit
      simp at hbit
    rw [hset, bne_iff_ne]
    exact hne
  · rename_i hclear
    rw [Bool.not_eq_true] at hclear
    rw [hclear]
    exact bne_self_eq_false 0

/-- A flag is set afterwards if it was or the mask has it. -/
theorem getLsbD_set : (set bits mask).getLsbD i = (bits.getLsbD i || mask.getLsbD i) :=
  BitVec.getLsbD_or

/-- A flag is set afterwards if it was and the mask does not have it. -/
theorem getLsbD_clear (hi : i < w) :
    (clear bits mask).getLsbD i = (bits.getLsbD i && !mask.getLsbD i) := by
  unfold clear
  rw [BitVec.getLsbD_and, BitVec.getLsbD_not, decide_eq_true hi, Bool.true_and]

/-- The mask of one flag has no other. -/
theorem getLsbD_bit {j : Nat} (hj : j < w) : (bit w i).getLsbD j = decide (j = i) := by
  simp [bit, hj, eq_comm]

/-- The flags of a word after one was set. -/
theorem getLsbD_set_bit {j : Nat} (hi : i < w) :
    (set bits (bit w i)).getLsbD j = true ↔ bits.getLsbD j = true ∨ j = i := by
  rw [getLsbD_set, Bool.or_eq_true]
  by_cases hj : j < w
  · rw [getLsbD_bit hj, decide_eq_true_eq]
  · have hne : j ≠ i := by omega
    simp [bit, BitVec.getLsbD_twoPow, hne, Ne.symm hne]

/-- A flag is set after flags were set if it was before or is one of them. -/
theorem any_set (hi : i < w) :
    any (set bits mask) (bit w i) = (any bits (bit w i) || any mask (bit w i)) := by
  rw [any_bit hi, any_bit hi, any_bit hi, getLsbD_set]

/-- A flag is set after flags were cleared if it was before and is none of them. -/
theorem any_clear (hi : i < w) :
    any (clear bits mask) (bit w i) = (any bits (bit w i) && !any mask (bit w i)) := by
  rw [any_bit hi, any_bit hi, any_bit hi, getLsbD_clear hi]

end Flags
