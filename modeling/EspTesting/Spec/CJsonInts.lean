import EspTesting.Spec.CJsonPrint

/-!
# Numbers without a fraction

What the parser and the printer rely on in floating point, and that the numbers of type `int`
have it: they are read back as they are written.

## Key results

- `Doubles.ints`: the numbers of type `int` with the operations on them
- `rereads_ofInt`: an `int` is read back as it is written
-/

namespace EspTesting.CJson

open Json (digits digitsValue decimal NumberText IsDigit)

variable {D : Type}

/-- A number is read back as it is written. -/
def Doubles.Rereads (F : Doubles D) (d : D) : Prop :=
  NumberText (F.text d) ∧ F.strtod (F.text d) = (d, (F.text d).length)

/-- Every `int` is a double of its own, which `strtod` reads for its decimal text. -/
structure Doubles.HoldsInts (F : Doubles D) : Prop where
  isNanOrInf : ∀ i, F.isNanOrInf (F.ofInt i) = false
  eq : ∀ i, F.eq (F.ofInt i) (F.ofInt i) = true
  saturate : ∀ i, F.saturate (F.ofInt i) = i
  strtod : ∀ i : Int32, F.strtod (decimal i.toInt) = (F.ofInt i, (decimal i.toInt).length)

/-- An `int` is printed in decimal. -/
theorem text_ofInt {F : Doubles D} (hF : F.HoldsInts) (i : Int32) :
    F.text (F.ofInt i) = decimal i.toInt := by
  simp only [Doubles.text, hF.isNanOrInf, hF.saturate, hF.eq, Bool.false_eq_true, if_false,
    if_true]
  rfl

/-- An `int` is read back as it is written. -/
theorem rereads_ofInt {F : Doubles D} (hF : F.HoldsInts) (i : Int32) : F.Rereads (F.ofInt i) := by
  rw [Doubles.Rereads, text_ofInt hF]
  exact ⟨Json.numberText_decimal _, hF.strtod i⟩

/-! ## The numbers of type `int` -/

/-- A decimal digit. -/
def isDigit (c : UInt8) : Bool := 0x30 ≤ c && c ≤ 0x39

/-- The digits at the head of a text. -/
def leadingDigits (s : List UInt8) : List UInt8 := s.takeWhile isDigit

/-- A sign or none, and digits. -/
def readInt (s : List UInt8) : Int × Nat :=
  let negative := s.head? = some 0x2D
  let ds := leadingDigits (if negative then s.tail else s)
  if ds = [] then (0, 0)
  else if negative then (-(digitsValue ds : Int), ds.length + 1)
  else (digitsValue ds, ds.length)

/-- The numbers of type `int`. -/
def Doubles.ints : Doubles Int32 where
  zero := 0
  ofInt i := i
  truncate d := d
  le a b := a ≤ b
  eq a b := a == b
  isNanOrInf _ := false
  strtod s := (Int32.ofInt (readInt s).1, (readInt s).2)
  sprintfG _ d := decimal d.toInt
  recovers s d := Int32.ofInt (readInt s).1 == d

/-- The digits of a text end where its other characters begin. -/
theorem leadingDigits_append {ds s : List UInt8} (h : ∀ c ∈ ds, IsDigit c)
    (hs : leadingDigits s = []) : leadingDigits (ds ++ s) = ds := by
  have hdigit : ∀ c ∈ ds, isDigit c = true := by simpa [isDigit, IsDigit] using h
  rw [leadingDigits, List.takeWhile_append_of_pos hdigit]
  rw [leadingDigits] at hs
  rw [hs, List.append_nil]

/-- The digits of a text are the digits of as much of it. -/
theorem leadingDigits_take (s : List UInt8) :
    leadingDigits (s.take (leadingDigits s).length) = leadingDigits s := by
  have hprefix : leadingDigits s <+: s := List.takeWhile_prefix _
  rw [← List.prefix_iff_eq_take.mp hprefix]
  rw [leadingDigits, leadingDigits, List.takeWhile_takeWhile]
  simp

/-- A minus in front of digits. -/
theorem readInt_of_neg {s : List UInt8} (h : s.head? = some 0x2D)
    (hne : leadingDigits s.tail ≠ []) : readInt s =
      (-(digitsValue (leadingDigits s.tail) : Int), (leadingDigits s.tail).length + 1) := by
  simp only [readInt, h, if_true, if_neg hne]

/-- Digits without a minus. -/
theorem readInt_of_pos {s : List UInt8} (h : s.head? ≠ some 0x2D) (hne : leadingDigits s ≠ []) :
    readInt s = ((digitsValue (leadingDigits s) : Int), (leadingDigits s).length) := by
  simp only [readInt, h, if_false, if_neg hne]

/-- Without digits nothing is read. -/
theorem readInt_of_nil {s : List UInt8}
    (h : leadingDigits (if s.head? = some 0x2D then s.tail else s) = []) : readInt s = (0, 0) := by
  simp only [readInt, h, if_true]

/-- The decimal text of an integer is read in full. -/
theorem readInt_decimal (i : Int) : readInt (decimal i) = (i, (decimal i).length) := by
  obtain ⟨hne, hdigits⟩ := Json.digits_digits i.natAbs
  have hleading : leadingDigits (digits i.natAbs) = digits i.natAbs := by
    have := leadingDigits_append hdigits (s := []) rfl
    rwa [List.append_nil] at this
  unfold decimal
  -- the minus is the first character exactly if the integer is negative
  split
  · rename_i hneg
    rw [readInt_of_neg rfl (by rw [List.tail_cons, hleading]; exact hne), List.tail_cons, hleading,
      Json.digitsValue_digits, List.length_cons]
    congr 1
    omega
  · rename_i hpos
    -- a digit is no minus
    have hhead : (digits i.natAbs).head? ≠ some 0x2D := by
      intro h
      obtain ⟨r, hr⟩ := List.head?_eq_some_iff.mp h
      have := hdigits 0x2D (hr ▸ List.mem_cons_self ..)
      exact absurd this.1 (by decide)
    rw [readInt_of_pos hhead (by rw [hleading]; exact hne), hleading, Json.digitsValue_digits]
    congr 1
    omega

/-- No more is read than there is. -/
theorem readInt_le (s : List UInt8) : (readInt s).2 ≤ s.length := by
  have hle : ∀ t, (leadingDigits t).length ≤ t.length := fun t =>
    (List.takeWhile_prefix _).length_le
  -- no digits, digits behind a minus, digits alone
  by_cases hnil : leadingDigits (if s.head? = some 0x2D then s.tail else s) = []
  · rw [readInt_of_nil hnil]
    exact Nat.zero_le _
  · by_cases hneg : s.head? = some 0x2D
    · rw [if_pos hneg] at hnil
      obtain ⟨r, rfl⟩ := List.head?_eq_some_iff.mp hneg
      rw [readInt_of_neg hneg hnil, List.length_cons]
      exact Nat.succ_le_succ (hle r)
    · rw [if_neg hneg] at hnil
      rw [readInt_of_pos hneg hnil]
      exact hle s

/-- The characters read are enough to read them again. -/
theorem readInt_take (s : List UInt8) : readInt (s.take (readInt s).2) = readInt s := by
  -- in each of the three ways to read, the digits are found again
  by_cases hnil : leadingDigits (if s.head? = some 0x2D then s.tail else s) = []
  · rw [readInt_of_nil hnil]
    rfl
  · by_cases hneg : s.head? = some 0x2D
    · rw [if_pos hneg] at hnil
      obtain ⟨r, rfl⟩ := List.head?_eq_some_iff.mp hneg
      rw [List.tail_cons] at hnil
      have hagain := leadingDigits_take r
      rw [readInt_of_neg hneg hnil, List.tail_cons, List.take_succ_cons,
        readInt_of_neg rfl (by rw [List.tail_cons, hagain]; exact hnil), List.tail_cons, hagain]
    · rw [if_neg hneg] at hnil
      have hagain := leadingDigits_take s
      rw [readInt_of_pos hneg hnil]
      -- the text does not begin with a minus because it is cut
      have hhead : (s.take (leadingDigits s).length).head? ≠ some 0x2D := by
        rw [List.head?_take, if_neg (by simpa using hnil)]
        exact hneg
      rw [readInt_of_pos hhead (by rw [hagain]; exact hnil), hagain]

/-- Reading a number of type `int` looks at the characters it counts only. -/
theorem readsPrefix_ints : Doubles.ints.ReadsPrefix where
  le := readInt_le
  take s := by
    simp only [Doubles.ints, readInt_take]

/-- Its decimal text is short and holds no terminator. -/
theorem printsShort_ints : Doubles.ints.PrintsShort where
  length_le _ d _ := length_sprintfD_le d
  ne_zero _ _ := sprintfD_ne_zero

/-- Of these numbers every `int` is one of its own. -/
theorem holdsInts_ints : Doubles.ints.HoldsInts where
  isNanOrInf _ := rfl
  eq i := by simp [Doubles.ints]
  saturate i := by
    have hlt := i.toInt_lt
    have hle := i.le_toInt
    have hmax : intMax.toInt = 2147483647 := by decide
    have hmin : intMin.toInt = -2147483648 := by decide
    simp only [Doubles.saturate, Doubles.ints, decide_eq_true_eq, Int32.le_iff_toInt_le, hmax,
      hmin]
    -- the limits of `int` are not exceeded, so nothing is cut off
    split
    · exact Int32.toInt_inj.mp (by rw [hmax]; omega)
    · split
      · exact Int32.toInt_inj.mp (by rw [hmin]; omega)
      · rfl
  strtod i := by
    simp only [Doubles.ints, readInt_decimal, Int32.ofInt_toInt]

end EspTesting.CJson
