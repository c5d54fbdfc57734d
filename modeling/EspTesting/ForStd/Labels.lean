import Mathlib.Algebra.Group.Nat.Defs

/-!
# Length-prefixed labels

A name as a sequence of labels, each behind a byte that holds its length, as it lies in memory
(`OnWire`). A byte zero in front of the next label ends the name, so the labels in front of it
are determined by the bytes.
-/

namespace Labels

/-- A label. -/
abbrev Label := List UInt8

/-- The letters `A` to `Z` in lower case, the other bytes as they are. -/
def toLower (c : UInt8) : UInt8 := if 65 ≤ c ∧ c ≤ 90 then c + 32 else c

/-- The label in lower case. -/
def lower (l : Label) : Label := l.map toLower

/-- `n` bytes of the memory, from `off` on. -/
def block (bytes : Nat → UInt8) (off n : Nat) : List UInt8 :=
  (List.range n).map fun i => bytes (off + i)

/-- The number of bytes that the labels take, with the bytes of their lengths. -/
def size : List Label → Nat
  | [] => 0
  | l :: ls => l.length + 1 + size ls

/-- The labels lie in memory from `off` on, and none of them is empty. -/
def OnWire (bytes : Nat → UInt8) : Nat → List Label → Prop
  | _, [] => True
  | off, l :: ls =>
    l ≠ [] ∧ (bytes off).toNat = l.length ∧ block bytes (off + 1) l.length = l ∧
      OnWire bytes (off + (l.length + 1)) ls

/-- Whether the labels are there can be computed. -/
instance decidableOnWire (bytes : Nat → UInt8) :
    (off : Nat) → (ls : List Label) → Decidable (OnWire bytes off ls)
  | _, [] => isTrue trivial
  | off, l :: ls =>
    have := decidableOnWire bytes (off + (l.length + 1)) ls
    inferInstanceAs (Decidable (l ≠ [] ∧ (bytes off).toNat = l.length ∧ _ ∧ _))

/-- The labels from `off` on are those of a name that ends with the byte zero behind them. -/
def Closed (bytes : Nat → UInt8) (off : Nat) (ls : List Label) : Prop :=
  OnWire bytes off ls ∧ bytes (off + size ls) = 0

instance (bytes : Nat → UInt8) (off : Nat) (ls : List Label) : Decidable (Closed bytes off ls) :=
  inferInstanceAs (Decidable (_ ∧ _))

variable {bytes bytes' : Nat → UInt8} {off n : Nat} {l : Label} {ls ls' : List Label}

/-- Case does not change the length. -/
@[simp] theorem length_lower (l : Label) : (lower l).length = l.length := List.length_map _

/-- A block has as many bytes as asked for. -/
@[simp] theorem length_block (bytes : Nat → UInt8) (off n : Nat) :
    (block bytes off n).length = n := by
  simp [block]

/-- A block is its first byte and the block behind it. -/
theorem block_succ (bytes : Nat → UInt8) (off n : Nat) :
    block bytes off (n + 1) = bytes off :: block bytes (off + 1) n := by
  simp only [block, List.range_succ_eq_map, List.map_cons, List.map_map, Nat.add_zero]
  congr 1
  apply List.map_congr_left
  intro i _
  show bytes (off + (i + 1)) = bytes (off + 1 + i)
  congr 1
  omega

/-- A block is cut in two. -/
theorem block_add (bytes : Nat → UInt8) (off m n : Nat) :
    block bytes off (m + n) = block bytes off m ++ block bytes (off + m) n := by
  simp only [block, List.range_add, List.map_append, List.map_map]
  congr 1
  apply List.map_congr_left
  intro i _
  show bytes (off + (m + i)) = bytes (off + m + i)
  rw [Nat.add_assoc]

/-- A block depends on its own bytes only. -/
theorem block_congr (h : ∀ i, off ≤ i → i < off + n → bytes i = bytes' i) :
    block bytes off n = block bytes' off n := by
  apply List.map_congr_left
  intro i hi
  rw [List.mem_range] at hi
  exact h (off + i) (by omega) (by omega)

/-- Equal blocks have equal bytes. -/
theorem eq_of_block_eq (h : block bytes off n = block bytes' off n) {i : Nat} (hle : off ≤ i)
    (hlt : i < off + n) : bytes i = bytes' i := by
  have hi := List.map_inj_left.mp h (i - off) (List.mem_range.mpr (by omega))
  rwa [Nat.add_sub_cancel' hle] at hi

/-- The labels are the same in memories that agree on the bytes they take. -/
theorem OnWire.congr (h : OnWire bytes off ls)
    (hsame : ∀ i, off ≤ i → i < off + size ls → bytes i = bytes' i) : OnWire bytes' off ls := by
  induction ls generalizing off with
  | nil => trivial
  | cons l ls ih =>
    obtain ⟨hne, hlen, hblock, hrest⟩ := h
    simp only [size] at hsame
    refine ⟨hne, ?_, ?_, ih hrest fun i hle hlt => hsame i (by omega) (by omega)⟩
    · -- the length byte
      rw [← hsame off (by omega) (by omega)]
      exact hlen
    · -- the bytes of the label
      rw [← block_congr fun i hle hlt => hsame i (by omega) (by omega)]
      exact hblock

/-- The byte in front of a label is not zero. -/
theorem OnWire.ne_zero (h : OnWire bytes off (l :: ls)) : bytes off ≠ 0 := by
  obtain ⟨hne, hlen, _⟩ := h
  intro hzero
  rw [hzero] at hlen
  exact hne (List.length_eq_zero_iff.mp hlen.symm)

/-- The bytes determine the labels of a name. -/
theorem Closed.unique (h : Closed bytes off ls) (h' : Closed bytes off ls') : ls = ls' := by
  induction ls generalizing off ls' with
  | nil =>
    cases ls' with
    | nil => rfl
    | cons l' ls' => exact absurd h.2 h'.1.ne_zero
  | cons l ls ih =>
    cases ls' with
    | nil => exact absurd h'.2 h.1.ne_zero
    | cons l' ls' =>
      obtain ⟨⟨_, hlen, hblock, hrest⟩, hzero⟩ := h
      obtain ⟨⟨_, hlen', hblock', hrest'⟩, hzero'⟩ := h'
      -- one length byte, so one label
      have hsame : l.length = l'.length := hlen.symm.trans hlen'
      have hl : l = l' := by rw [← hblock, ← hblock', hsame]
      subst hl
      -- the rest of both names begins behind it
      simp only [size, ← Nat.add_assoc] at hzero hzero'
      rw [ih ⟨hrest, by rwa [← Nat.add_assoc]⟩ ⟨hrest', by rwa [← Nat.add_assoc]⟩]

/-- No byte zero closes a name before the labels found so far end. -/
theorem OnWire.size_le_of_closed (h : OnWire bytes off ls) (h' : Closed bytes off ls') :
    size ls ≤ size ls' := by
  induction ls generalizing off ls' with
  | nil => exact Nat.zero_le _
  | cons l ls ih =>
    cases ls' with
    | nil => exact absurd h'.2 h.ne_zero
    | cons l' ls' =>
      obtain ⟨_, hlen, _, hrest⟩ := h
      obtain ⟨⟨_, hlen', _, hrest'⟩, hzero'⟩ := h'
      -- both first labels have the length that is written there
      have hsame : l'.length = l.length := hlen'.symm.trans hlen
      rw [hsame] at hrest'
      simp only [size, hsame] at hzero' ⊢
      have hsize := ih hrest ⟨hrest', by rwa [Nat.add_assoc]⟩
      omega

end Labels
