import Mathlib.Algebra.GroupWithZero.Nat

/-!
# Streams in pieces

`Streaming` says of a stateful function on lists that it may be applied piece by piece.
`Source` is a reader that holds a list and answers a request with some of the items it has
left, at least one if it can; `fullReads` counts the requests it answers in full before the
first one that it does not.
-/

namespace ListStream

variable {α β σ τ : Type _}

/-! ## Functions applied piece by piece -/

/-- The function gives one item for each it takes. -/
def KeepsLength (update : τ → List α → Option (List β × τ)) : Prop :=
  ∀ t xs out t', update t xs = some (out, t') → out.length = xs.length

/-- The function may be applied piece by piece, and gives one item for each it takes. -/
structure Streaming (update : τ → List α → Option (List β × τ)) : Prop where
  nil : ∀ t, update t [] = some ([], t)
  append : ∀ t xs ys, update t (xs ++ ys) =
    (update t xs).bind fun r => (update r.2 ys).map fun r' => (r.1 ++ r'.1, r'.2)
  length : KeepsLength update

/-- The pieces taken one after the other are taken at once. -/
theorem Streaming.append_eq_some {update : τ → List α → Option (List β × τ)}
    (h : Streaming update) {t t₁ t₂ : τ} {xs ys : List α} {out₁ out₂ : List β}
    (h₁ : update t xs = some (out₁, t₁)) (h₂ : update t₁ ys = some (out₂, t₂)) :
    update t (xs ++ ys) = some (out₁ ++ out₂, t₂) := by
  rw [h.append, h₁, Option.bind_some, h₂, Option.map_some]

/-! ## Sources -/

/-- A reader of a list: a request for `n` items is answered with the next ones that it has
    left, at most `n`, and at least one if there is any. -/
structure Source (α σ : Type _) where
  read : σ → Nat → List α × σ
  left : σ → List α
  read_append_left : ∀ s n, (read s n).1 ++ left (read s n).2 = left s
  length_read_le : ∀ s n, (read s n).1.length ≤ n
  read_ne_nil : ∀ s n, 0 < n → left s ≠ [] → (read s n).1 ≠ []

namespace Source

variable (src : Source α σ) {s : σ} {n : Nat}

/-- The requests of a list that are answered in full before the first that is not. -/
def fullReads : σ → List Nat → Nat
  | _, [] => 0
  | s, n :: ns =>
    if (src.read s n).1.length = n then fullReads (src.read s n).2 ns + 1 else 0

/-- A full answer is the next `n` items. -/
theorem read_eq_take (h : (src.read s n).1.length = n) :
    (src.read s n).1 = (src.left s).take n := by
  rw [← src.read_append_left s n, List.take_left' h]

theorem left_read_eq_drop (h : (src.read s n).1.length = n) :
    src.left (src.read s n).2 = (src.left s).drop n := by
  rw [← src.read_append_left s n, List.drop_left' h]

/-- As many requests are answered in full as the list has items for. -/
theorem sum_fullReads_le (ns : List Nat) (s : σ) :
    (ns.take (src.fullReads s ns)).sum ≤ (src.left s).length := by
  induction ns generalizing s with
  | nil => simp
  | cons n ns ih =>
    unfold fullReads
    split
    · rename_i hfull
      have hrest := ih (src.read s n).2
      have hsplit := congrArg List.length (src.read_append_left s n)
      rw [List.length_append] at hsplit
      rw [List.take_succ_cons, List.sum_cons]
      omega
    · simp

/-- The source that answers with at most `k` items. -/
def ofLimit (α : Type _) (k : Nat) (hk : 0 < k) : Source α (List α) where
  read left n := (left.take (min n k), left.drop (min n k))
  left := id
  read_append_left left n := List.take_append_drop ..
  length_read_le left n := by
    rw [List.length_take]
    omega
  read_ne_nil left n hn hleft := by
    have hpos := List.length_pos_iff.mpr hleft
    apply List.ne_nil_of_length_pos
    rw [List.length_take]
    simp only [id_eq] at hpos
    omega

end Source

end ListStream
