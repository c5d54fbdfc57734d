/-!
# Buffers that drop what does not fit

A bounded buffer appends a piece when the result stays below its capacity and drops
the piece otherwise. A record written as several pieces is therefore not atomic:
these lemmas say exactly when the whole record, or nothing of it, gets in.
-/

namespace BoundedBuffer

variable {α : Type _} {cap : Nat}

/-- Append `piece` if the buffer stays below `cap`. -/
def append (cap : Nat) (buf piece : List α) : List α :=
  if buf.length + piece.length < cap then buf ++ piece else buf

/-- Append the pieces of a record one after the other. -/
def appendAll (cap : Nat) (buf : List α) (pieces : List (List α)) : List α :=
  pieces.foldl (append cap) buf

theorem appendAll_append (buf : List α) (pieces pieces' : List (List α)) :
    appendAll cap buf (pieces ++ pieces') = appendAll cap (appendAll cap buf pieces) pieces' := by
  simp only [appendAll, List.foldl_append]

/-- The buffer never shrinks. -/
theorem length_le_appendAll (buf : List α) (pieces : List (List α)) :
    buf.length ≤ (appendAll cap buf pieces).length := by
  induction pieces generalizing buf with
  | nil => exact Nat.le_refl _
  | cons piece pieces ih =>
    refine Nat.le_trans ?_ (ih (append cap buf piece))
    simp only [append]
    split
    · simp only [List.length_append, Nat.le_add_right]
    · exact Nat.le_refl _

/-- A record that fits as a whole is appended as a whole. -/
theorem appendAll_of_fits {buf : List α} {pieces : List (List α)}
    (h : buf.length + pieces.flatten.length < cap) :
    appendAll cap buf pieces = buf ++ pieces.flatten := by
  induction pieces generalizing buf with
  | nil => simp only [appendAll, List.foldl_nil, List.flatten_nil, List.append_nil]
  | cons piece pieces ih =>
    simp only [List.flatten_cons, List.length_append] at h
    have hpiece : append cap buf piece = buf ++ piece := if_pos (by omega)
    have hrest := @ih (buf ++ piece) (by simp only [List.length_append]; omega)
    simp only [appendAll, List.foldl_cons, hpiece] at hrest ⊢
    rw [hrest, List.flatten_cons, List.append_assoc]

/-- A record that does not fit loses at least one byte. -/
theorem length_appendAll_lt {buf : List α} {pieces : List (List α)}
    (hne : ∀ piece ∈ pieces, piece ≠ []) (hbuf : buf.length < cap)
    (h : cap ≤ buf.length + pieces.flatten.length) :
    (appendAll cap buf pieces).length < buf.length + pieces.flatten.length := by
  -- `le` bounds the tail behind a piece that was dropped
  have le : ∀ (pieces : List (List α)) (buf : List α),
      (appendAll cap buf pieces).length ≤ buf.length + pieces.flatten.length := by
    intro pieces
    induction pieces with
    | nil => exact fun buf => Nat.le_refl _
    | cons piece pieces ih =>
      intro buf
      refine Nat.le_trans (ih (append cap buf piece)) ?_
      simp only [append, List.flatten_cons, List.length_append]
      split
      · simp only [List.length_append]; omega
      · omega
  induction pieces generalizing buf with
  | nil => simp only [List.flatten_nil, List.length_nil] at h; omega
  | cons piece pieces ih =>
    have hpiece : 0 < piece.length :=
      List.length_pos_iff.mpr (hne piece (List.mem_cons_self ..))
    simp only [List.flatten_cons, List.length_append] at h ⊢
    by_cases hfit : buf.length + piece.length < cap
    · have happ : append cap buf piece = buf ++ piece := if_pos hfit
      have := @ih (buf ++ piece) (fun p hp => hne p (List.mem_cons_of_mem _ hp))
        (by simp only [List.length_append]; omega) (by simp only [List.length_append]; omega)
      simp only [appendAll, List.foldl_cons, happ, List.length_append] at this ⊢
      omega
    · have happ : append cap buf piece = buf := if_neg hfit
      have := le pieces buf
      simp only [appendAll, List.foldl_cons, happ] at this ⊢
      omega

/-- A buffer with one free place keeps no piece of a record. -/
theorem appendAll_of_full {buf : List α} {pieces : List (List α)}
    (hne : ∀ piece ∈ pieces, piece ≠ []) (hbuf : cap ≤ buf.length + 1) :
    appendAll cap buf pieces = buf := by
  induction pieces with
  | nil => rfl
  | cons piece pieces ih =>
    have hpiece : 0 < piece.length :=
      List.length_pos_iff.mpr (hne piece (List.mem_cons_self ..))
    have happ : append cap buf piece = buf := if_neg (by omega)
    simp only [appendAll, List.foldl_cons, happ]
    exact ih fun p hp => hne p (List.mem_cons_of_mem _ hp)

/-- A first piece that fits is kept, whatever becomes of the others. -/
theorem length_lt_appendAll {buf piece : List α} {pieces : List (List α)}
    (hpiece : piece ≠ []) (hfit : buf.length + piece.length < cap) :
    buf.length < (appendAll cap buf (piece :: pieces)).length := by
  have hpos : 0 < piece.length := List.length_pos_iff.mpr hpiece
  have happ : append cap buf piece = buf ++ piece := if_pos hfit
  have hle := @length_le_appendAll _ cap (buf ++ piece) pieces
  simp only [appendAll, List.foldl_cons, happ, List.length_append] at hle ⊢
  omega

end BoundedBuffer
