/-!
# Writing a block into a fixed-size buffer

`writeAt` copies a list into a buffer element by element, as a C loop over
`buf[pos++] = data[i]` does. What a reader of the filled prefix sees is the old
prefix followed by the block.
-/

namespace Vector

variable {α : Type _} {n : Nat}

/-- Copy `data` into `buf` from index `pos` on. -/
def writeAt (buf : Vector α n) : Nat → List α → Vector α n
  | _, [] => buf
  | pos, x :: data => (buf.setIfInBounds pos x).writeAt (pos + 1) data

/-- Setting one element and taking the prefix that ends with it. -/
private theorem take_toList_setIfInBounds (buf : Vector α n) {pos : Nat} (x : α)
    (h : pos < n) :
    (buf.setIfInBounds pos x).toList.take (pos + 1) = buf.toList.take pos ++ [x] := by
  have hlen : buf.toList.length = n := Vector.length_toList
  apply List.ext_getElem
  · simp only [List.length_take, Vector.length_toList, List.length_append, List.length_cons,
      List.length_nil]
    omega
  · intro i h₁ _
    simp only [List.length_take, Vector.length_toList] at h₁
    simp only [List.getElem_take, Vector.getElem_toList, Vector.getElem_setIfInBounds]
    by_cases hi : pos = i
    · subst hi
      rw [if_pos rfl, List.getElem_append_right (by simp only [List.length_take]; omega)]
      simp only [List.getElem_singleton]
    · rw [if_neg hi, List.getElem_append_left (by simp only [List.length_take]; omega)]
      simp only [List.getElem_take, Vector.getElem_toList]

/-- The filled prefix after a block that fits has been written behind it. -/
theorem take_toList_writeAt (buf : Vector α n) {pos : Nat} (data : List α)
    (h : pos + data.length ≤ n) :
    (buf.writeAt pos data).toList.take (pos + data.length) = buf.toList.take pos ++ data := by
  induction data generalizing buf pos with
  | nil => simp only [writeAt, List.length_nil, Nat.add_zero, List.append_nil]
  | cons x data ih =>
    simp only [List.length_cons] at h
    have htail := @ih (buf.setIfInBounds pos x) (pos + 1) (by omega)
    rw [take_toList_setIfInBounds buf x (by omega), List.append_assoc] at htail
    simpa only [writeAt, List.length_cons, Nat.add_assoc, Nat.add_comm 1,
      List.singleton_append] using htail

/-- The buffer after a block that fits has been written into it. -/
theorem toList_writeAt (buf : Vector α n) {pos : Nat} (data : List α)
    (h : pos + data.length ≤ n) : (buf.writeAt pos data).toList =
      buf.toList.take pos ++ data ++ buf.toList.drop (pos + data.length) := by
  rw [← List.take_append_drop (pos + data.length) (buf.writeAt pos data).toList,
    take_toList_writeAt buf data h]
  congr 1
  -- behind the block nothing has changed
  induction data generalizing buf pos with
  | nil => rfl
  | cons x data ih =>
    simp only [List.length_cons] at h
    have hrest := @ih (buf.setIfInBounds pos x) (pos + 1) (by omega)
    simp only [List.length_cons, writeAt]
    rw [show pos + (data.length + 1) = pos + 1 + data.length by omega, hrest]
    apply List.ext_getElem
    · simp only [List.length_drop, Vector.length_toList]
    · intro i _ _
      simp only [List.getElem_drop, Vector.getElem_toList, Vector.getElem_setIfInBounds]
      rw [if_neg (by omega)]

end Vector
