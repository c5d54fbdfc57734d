import Mathlib.Algebra.Group.Int.Defs
import Mathlib.Algebra.Group.Nat.Defs

/-!
# Byte memory

A byte-addressed memory is a function from addresses to bytes. `load` and `store`
move blocks of bytes; `leValue` and `leBytes` are the little-endian reading of a
block as a number. The frame lemmas say which addresses a store leaves alone.
-/

/-- A byte-addressed memory. -/
abbrev Mem := Nat → UInt8

namespace Mem

/-- The `n` bytes from address `a` on. -/
def load (m : Mem) (a n : Nat) : List UInt8 :=
  (List.range n).map fun i => m (a + i)

/-- Overwrite the block that starts at `a` with `bytes`. -/
def store (m : Mem) (a : Nat) (bytes : List UInt8) : Mem := fun x =>
  if a ≤ x then (bytes[x - a]?).getD (m x) else m x

/-- The blocks `[a, a + n)` and `[b, b + k)` share no address. -/
def Apart (a n b k : Nat) : Prop := a + n ≤ b ∨ b + k ≤ a

instance (a n b k : Nat) : Decidable (Apart a n b k) := inferInstanceAs (Decidable (_ ∨ _))

/-- As many bytes are loaded as asked for. -/
@[simp] theorem length_load (m : Mem) (a n : Nat) : (m.load a n).length = n := by
  simp only [load, List.length_map, List.length_range]

/-- The bytes that are loaded are those of the addresses in order. -/
theorem getElem_load (m : Mem) (a n i : Nat) (h : i < (m.load a n).length) :
    (m.load a n)[i] = m (a + i) := by
  simp only [load, List.getElem_map, List.getElem_range]

/-- Loading one byte. -/
theorem load_one (m : Mem) (a : Nat) : m.load a 1 = [m a] := rfl

/-- A block is the block in front of a cut and the one behind it. -/
theorem load_add (m : Mem) (a n k : Nat) : m.load a (n + k) = m.load a n ++ m.load (a + n) k := by
  simp only [load, List.range_add, List.map_append, List.map_map]
  congr 1
  apply List.map_congr_left
  intro i _
  rw [Function.comp_apply, Nat.add_assoc]

/-- Two memories agree on a block exactly when they load the same bytes from it. -/
theorem load_eq_iff {m m' : Mem} {a n : Nat} :
    m.load a n = m'.load a n ↔ ∀ x, a ≤ x → x < a + n → m x = m' x := by
  simp only [load, List.map_inj_left, List.mem_range]
  constructor
  · intro h x hlo hhi
    have := h (x - a) (by omega)
    rwa [Nat.add_sub_cancel' hlo] at this
  · exact fun h i hi => h (a + i) (Nat.le_add_right a i) (by omega)

/-- A store changes nothing outside its block. -/
theorem store_of_not_mem {m : Mem} {a x : Nat} {bytes : List UInt8}
    (h : x < a ∨ a + bytes.length ≤ x) : m.store a bytes x = m x := by
  simp only [store]
  split
  · rw [List.getElem?_eq_none (by omega), Option.getD_none]
  · rfl

/-- A store puts byte `i` of the block at address `a + i`. -/
theorem store_of_mem {m : Mem} {a i : Nat} {bytes : List UInt8} (h : i < bytes.length) :
    m.store a bytes (a + i) = bytes[i] := by
  simp only [store, Nat.le_add_right, if_true, Nat.add_sub_cancel_left,
    List.getElem?_eq_getElem h, Option.getD_some]

/-- Storing nothing. -/
@[simp] theorem store_nil (m : Mem) (a : Nat) : m.store a [] = m := by
  funext x
  exact store_of_not_mem (by simp only [List.length_nil]; omega)

/-- Loading the block just stored gives the bytes stored. -/
theorem load_store (m : Mem) (a : Nat) (bytes : List UInt8) :
    (m.store a bytes).load a bytes.length = bytes := by
  apply List.ext_getElem (length_load ..)
  intro i h _
  rw [getElem_load, store_of_mem (by simpa only [length_load] using h)]

/-- A store leaves every block apart from it as it was. -/
theorem load_store_of_apart {m : Mem} {a b n : Nat} {bytes : List UInt8}
    (h : Apart a bytes.length b n) : (m.store a bytes).load b n = m.load b n := by
  rw [load_eq_iff]
  intro x hlo hhi
  apply store_of_not_mem
  cases h with
  | inl h => exact Or.inr (Nat.le_trans h hlo)
  | inr h => exact Or.inl (Nat.lt_of_lt_of_le hhi h)

/-- Being apart goes both ways. -/
theorem Apart.symm {a n b k : Nat} (h : Apart a n b k) : Apart b k a n := Or.symm h

/-! ### Memories that agree -/

/-- The memories agree on the addresses in `A`. -/
def Agree (A : Nat → Prop) (m m' : Mem) : Prop := ∀ x, A x → m x = m' x

namespace Agree

variable {A : Nat → Prop} {m m' : Mem}

/-- The same store keeps two memories in agreement, wherever it goes. -/
theorem store (h : Agree A m m') (a : Nat) (bytes : List UInt8) :
    Agree A (m.store a bytes) (m'.store a bytes) := by
  intro x hx
  unfold Mem.store
  rw [h x hx]

/-- Memories that agree where it is loaded load the same. -/
theorem load (h : Agree A m m') {a n : Nat} (hin : ∀ x, a ≤ x → x < a + n → A x) :
    m.load a n = m'.load a n :=
  load_eq_iff.mpr fun x hlo hhi => h x (hin x hlo hhi)

end Agree

/-! ### Runs of stores -/

/-- The stores of `writes`, in order. -/
def storeAll (m : Mem) (writes : List (Nat × List UInt8)) : Mem :=
  writes.foldl (fun m w => m.store w.1 w.2) m

/-- The address lies in the block of one of the writes. -/
def Covered (writes : List (Nat × List UInt8)) (x : Nat) : Prop :=
  ∃ w ∈ writes, w.1 ≤ x ∧ x < w.1 + w.2.length

/-- Writes one behind the other. -/
theorem storeAll_append (m : Mem) (ws ws' : List (Nat × List UInt8)) :
    m.storeAll (ws ++ ws') = (m.storeAll ws).storeAll ws' := by
  unfold storeAll
  rw [List.foldl_append]

/-- A run of stores changes nothing outside its blocks. -/
theorem storeAll_of_not_covered {m : Mem} {writes : List (Nat × List UInt8)} {x : Nat}
    (h : ¬ Covered writes x) : m.storeAll writes x = m x := by
  induction writes generalizing m with
  | nil => rfl
  | cons w writes ih =>
    have hw : ¬ (w.1 ≤ x ∧ x < w.1 + w.2.length) := fun hx =>
      h ⟨w, List.mem_cons_self .., hx⟩
    have hrest : ¬ Covered writes x := fun ⟨v, hv, hx⟩ => h ⟨v, List.mem_cons_of_mem _ hv, hx⟩
    show (m.store w.1 w.2).storeAll writes x = m x
    rw [ih hrest, store_of_not_mem (by omega)]

/-- Where all the stores that cover an address put the same byte, that byte is there in
    the end. -/
theorem storeAll_of_covered {m : Mem} {writes : List (Nat × List UInt8)} {x : Nat} {b : UInt8}
    (hcovered : Covered writes x)
    (h : ∀ w ∈ writes, ∀ i, w.1 + i = x → ∀ c, w.2[i]? = some c → c = b) :
    m.storeAll writes x = b := by
  induction writes generalizing m with
  | nil =>
    obtain ⟨w, hw, _⟩ := hcovered
    cases hw
  | cons w writes ih =>
    show (m.store w.1 w.2).storeAll writes x = b
    by_cases hrest : Covered writes x
    · exact ih hrest fun v hv => h v (List.mem_cons_of_mem _ hv)
    · -- no later store covers the address, so the first one does
      rw [storeAll_of_not_covered hrest]
      obtain ⟨v, hv, hlo, hhi⟩ := hcovered
      cases List.mem_cons.mp hv with
      | inr hin => exact absurd ⟨v, hin, hlo, hhi⟩ hrest
      | inl heq =>
        subst heq
        have hi : x - v.1 < v.2.length := by omega
        have hx : v.1 + (x - v.1) = x := by omega
        rw [← hx, store_of_mem hi]
        exact h v (List.mem_cons_self ..) _ hx _ (List.getElem?_eq_getElem hi)

/-! ### Little-endian numbers -/

/-- The number a block of bytes stands for, low byte first. -/
def leValue : List UInt8 → Nat
  | [] => 0
  | b :: bytes => b.toNat + 256 * leValue bytes

/-- The low `n` bytes of `v`, low byte first. -/
def leBytes : Nat → Nat → List UInt8
  | 0, _ => []
  | n + 1, v => UInt8.ofNat v :: leBytes n (v / 256)

/-- A number is written in as many bytes as asked for. -/
@[simp] theorem length_leBytes (n v : Nat) : (leBytes n v).length = n := by
  induction n generalizing v with
  | zero => rfl
  | succ n ih => simp only [leBytes, List.length_cons, ih]

/-- The bytes of a number read back as the number modulo their range. -/
theorem leValue_leBytes (n v : Nat) : leValue (leBytes n v) = v % 256 ^ n := by
  induction n generalizing v with
  | zero => simp only [leBytes, leValue, Nat.pow_zero, Nat.mod_one]
  | succ n ih =>
    simp only [leBytes, leValue, ih, UInt8.toNat_ofNat']
    rw [show 256 ^ (n + 1) = 256 * 256 ^ n from Nat.pow_succ', Nat.mod_mul]

/-- The bytes of a number below 256. -/
theorem leBytes_of_lt {v : Nat} (h : v < 256) (n : Nat) :
    leBytes (n + 1) v = UInt8.ofNat v :: List.replicate n 0 := by
  -- nothing is left for the bytes behind the first
  have hzero : ∀ n, leBytes n 0 = List.replicate n 0 := by
    intro n
    induction n with
    | zero => rfl
    | succ n ih =>
      show UInt8.ofNat 0 :: leBytes n 0 = _
      rw [ih, List.replicate_succ]
      rfl
  show UInt8.ofNat v :: leBytes n (v / 256) = _
  rw [Nat.div_eq_of_lt h, hzero]

/-- A block is determined by the number it stands for. -/
theorem leBytes_leValue (bytes : List UInt8) : leBytes bytes.length (leValue bytes) = bytes := by
  induction bytes with
  | nil => rfl
  | cons b bytes ih =>
    have hb := b.toNat_lt
    -- the first byte is cut off, the rest is the value of the rest
    have hdiv : (b.toNat + 256 * leValue bytes) / 256 = leValue bytes := by omega
    simp only [List.length_cons, leBytes, leValue, hdiv, ih]
    congr 1
    apply UInt8.toNat_inj.mp
    rw [UInt8.toNat_ofNat']
    omega

end Mem
