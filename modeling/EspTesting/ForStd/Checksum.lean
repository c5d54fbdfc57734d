import Mathlib.Algebra.GroupWithZero.Nat
import Mathlib.Data.Nat.ModEq

/-!
# Additive checksums

The sum of a list of words modulo a bound. Replacing one word changes it, as long as the two
words differ modulo the bound.
-/

namespace Checksum

/-- The sum of the words modulo `M`. -/
def additive (M : Nat) (ws : List Nat) : Nat := ws.sum % M

/-- A checksum is below the modulus. -/
theorem additive_lt {M : Nat} (hM : 0 < M) (ws : List Nat) : additive M ws < M :=
  Nat.mod_lt _ hM

/-- Adding one more word to a running sum. -/
theorem additive_append_singleton (M : Nat) (ws : List Nat) (w : Nat) :
    additive M (ws ++ [w]) = (additive M ws + w) % M := by
  simp [additive]

/-- One word is replaced by another: the sum changes by the difference. -/
theorem sum_set {ws : List Nat} {i : Nat} (hi : i < ws.length) (w : Nat) :
    (ws.set i w).sum + ws[i] = ws.sum + w := by
  induction ws generalizing i with
  | nil => exact absurd hi (Nat.not_lt_zero i)
  | cons v ws ih =>
    cases i with
    | zero =>
      simp only [List.set_cons_zero, List.sum_cons, List.getElem_cons_zero]
      omega
    -- the word is in the rest
    | succ i =>
      have hrest := ih (Nat.lt_of_succ_lt_succ hi)
      simp only [List.set_cons_succ, List.sum_cons, List.getElem_cons_succ]
      omega

/-- Replacing a word changes the checksum. -/
theorem additive_set_ne {M : Nat} {ws : List Nat} {i : Nat} (hi : i < ws.length) {w : Nat}
    (hw : w % M ≠ ws[i] % M) : additive M (ws.set i w) ≠ additive M ws := by
  intro hsame
  apply hw
  have hsum := sum_set hi w
  have hmod : (ws.set i w).sum ≡ ws.sum [MOD M] := hsame
  have hadd : ws.sum + w ≡ ws.sum + ws[i] [MOD M] := by
    rw [← hsum]
    exact hmod.add_right _
  exact Nat.ModEq.add_left_cancel' _ hadd

end Checksum
