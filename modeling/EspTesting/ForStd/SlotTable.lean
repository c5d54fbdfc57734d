import Mathlib.Data.List.FinRange
import Mathlib.Data.Set.Card
import Mathlib.Logic.Function.Basic

/-!
# Tables of slots

A fixed number of slots used as a map: an entry under a key goes to the first slot that
carries the key, and otherwise to the first free one. A slot that was freed may still carry
its old key. As long as entries are only stored like this, every slot in use is the first one
with its key (`FirstLive`), and the table is a map from keys to entries (`entry`).
-/

namespace SlotTable

variable {α κ : Type _} [DecidableEq κ] {n : Nat}

/-- The first slot with the property. -/
def find (tbl : Vector α n) (p : α → Bool) : Option (Fin n) :=
  (List.finRange n).find? fun i => p (tbl.get i)

/-- The slot for an entry under the key `k`. -/
def claim (key : α → κ) (free : α → Bool) (tbl : Vector α n) (k : κ) : Option (Fin n) :=
  match find tbl fun x => key x = k with
  | some i => some i
  | none => find tbl free

/-- Every slot in use is the first one with its key. -/
def FirstLive (key : α → κ) (free : α → Bool) (tbl : Vector α n) : Prop :=
  ∀ i, free (tbl.get i) = false → find tbl (fun x => key x = key (tbl.get i)) = some i

/-- The entry in use under the key `k`. -/
def entry (key : α → κ) (free : α → Bool) (tbl : Vector α n) (k : κ) : Option α :=
  ((find tbl fun x => key x = k).map tbl.get).filter fun x => !free x

/-- The keys in use, in the order of their slots. -/
def liveKeys (key : α → κ) (free : α → Bool) (tbl : Vector α n) : List κ :=
  ((List.finRange n).filter fun i => !free (tbl.get i)).map fun i => key (tbl.get i)

/-! ## Finding a slot -/

/-- Reading a slot of a table in which one is replaced. -/
theorem get_set (tbl : Vector α n) (i j : Fin n) (x : α) :
    (tbl.set i x i.isLt).get j = if j = i then x else tbl.get j := by
  show (tbl.set i x i.isLt)[j.val] = _
  rw [Vector.getElem_set]
  by_cases h : j = i
  · rw [if_pos (congrArg Fin.val h).symm, if_pos h]
  · rw [if_neg fun hij => h (Fin.ext hij.symm), if_neg h]
    rfl

/-- Reading a slot of a table in which all are replaced. -/
theorem get_map {β : Type _} (f : α → β) (tbl : Vector α n) (i : Fin n) :
    (tbl.map f).get i = f (tbl.get i) :=
  Vector.getElem_map f i.isLt

omit [DecidableEq κ] in
/-- There are not enough slots for one thing more. -/
theorem exists_forall_ne (f : Fin n → κ) {g : Fin (n + 1) → κ} (hg : Function.Injective g) :
    ∃ k, ∀ i, f i ≠ g k := by
  by_contra! h
  choose slot hslot using h
  have hinj : Function.Injective slot := by
    intro k k' hsame
    apply hg
    rw [← hslot k, ← hslot k', hsame]
  have hle := Fintype.card_le_of_injective slot hinj
  simp at hle

variable {tbl : Vector α n} {p : α → Bool} {i j : Fin n}

/-- The first index with the property. -/
theorem find?_finRange_eq_some_iff {q : Fin n → Bool} : (List.finRange n).find? q = some i ↔
    q i = true ∧ ∀ j < i, q j = false := by
  rw [List.find?_eq_some_iff_getElem]
  constructor
  · -- the slots in front of `i` are the slots below it
    rintro ⟨hq, k, hk, hki, hbefore⟩
    refine ⟨hq, fun j hj => ?_⟩
    rw [List.getElem_finRange] at hki
    have hjk : j.val < k := by
      rw [← hki] at hj
      exact hj
    have hfalse := hbefore j.val hjk
    rw [List.getElem_finRange] at hfalse
    exact Bool.eq_false_iff.mpr (by simpa using hfalse)
  · rintro ⟨hq, hbefore⟩
    refine ⟨hq, i.val, by simp, by simp, fun k hk => ?_⟩
    rw [List.getElem_finRange]
    have hfalse := hbefore ⟨k, Nat.lt_trans hk i.isLt⟩ hk
    simpa using hfalse

/-- The slot that is found is the first one with the property. -/
theorem find_eq_some_iff : find tbl p = some i ↔
    p (tbl.get i) = true ∧ ∀ j < i, p (tbl.get j) = false :=
  find?_finRange_eq_some_iff

/-- No slot is found exactly if none has the property. -/
theorem find_eq_none_iff : find tbl p = none ↔ ∀ i, p (tbl.get i) = false := by
  unfold find
  rw [List.find?_eq_none]
  exact ⟨fun h i => by simpa using h i (List.mem_finRange i), fun h i _ => by simp [h i]⟩

/-- A slot behind others without the property is found once it holds an entry that has it. -/
theorem find_set_self {x : α} (hbefore : ∀ j < i, p (tbl.get j) = false) (hx : p x = true) :
    find (tbl.set i x i.isLt) p = some i := by
  rw [find_eq_some_iff]
  refine ⟨?_, fun j hj => ?_⟩
  · rw [get_set, if_pos rfl]
    exact hx
  · rw [get_set, if_neg (Fin.ne_of_lt hj)]
    exact hbefore j hj

/-- Another slot may be filled with an entry that is not looked for. -/
theorem find_set_of_ne {x : α} (h : find tbl p = some i) (hij : i ≠ j) (hx : p x = false) :
    find (tbl.set j x j.isLt) p = some i := by
  obtain ⟨hi, hbefore⟩ := find_eq_some_iff.mp h
  rw [find_eq_some_iff]
  refine ⟨?_, fun k hk => ?_⟩
  · rw [get_set, if_neg hij]
    exact hi
  · rw [get_set]
    split
    · exact hx
    · exact hbefore k hk

omit [DecidableEq κ] in
/-- The invariant rule for a pass over all slots in their order. -/
theorem foldl_finRange_invariant {β : Type _} {I : Nat → β → Prop} {f : β → Fin n → β}
    (hstep : ∀ (i : Fin n) s, I i.val s → I (i.val + 1) (f s i)) {s : β} (hs : I 0 s) :
    I n ((List.finRange n).foldl f s) := by
  -- by induction on how many slots had their turn
  suffices ∀ k, k ≤ n → I k (((List.finRange n).take k).foldl f s) by
    have hall := this n (Nat.le_refl n)
    rwa [List.take_of_length_le (Nat.le_of_eq List.length_finRange)] at hall
  intro k
  induction k with
  | zero => exact fun _ => hs
  | succ k ih =>
    intro hk
    have hlen : k < (List.finRange n).length := by
      rw [List.length_finRange]
      exact hk
    rw [List.take_succ_eq_append_getElem hlen, List.foldl_append, List.getElem_finRange]
    exact hstep ⟨k, hk⟩ _ (ih (by omega))

section

variable {key : α → κ} {free : α → Bool} {k : κ} {x : α}

/-- The slot claimed carries the key or is free. -/
theorem claim_eq_some (h : claim key free tbl k = some i) :
    (find tbl (fun x => key x = k) = some i) ∨
    (∀ j, key (tbl.get j) ≠ k) ∧ free (tbl.get i) = true := by
  unfold claim at h
  split at h
  · rename_i hfind
    exact Or.inl (hfind.trans h)
  · rename_i hfind
    exact Or.inr ⟨fun j => of_decide_eq_false (find_eq_none_iff.mp hfind j),
      (find_eq_some_iff.mp h).1⟩

/-- What is put into the slot claimed for its key is found under the key. -/
theorem find_set_claim (h : claim key free tbl k = some i) (hx : key x = k) :
    find (tbl.set i x i.isLt) (fun x => key x = k) = some i := by
  refine find_set_self (fun j hj => ?_) (decide_eq_true hx)
  rcases claim_eq_some h with hfind | ⟨hnone, _⟩
  · exact (find_eq_some_iff.mp hfind).2 j hj
  · exact decide_eq_false (hnone j)

/-- No slot can be claimed exactly if none has the key and none is free. -/
theorem claim_eq_none_iff : claim key free tbl k = none ↔
    ∀ i, key (tbl.get i) ≠ k ∧ free (tbl.get i) = false := by
  unfold claim
  split
  · rename_i i hfind
    have hkey := of_decide_eq_true (find_eq_some_iff.mp hfind).1
    exact iff_of_false (Option.some_ne_none i) fun h => (h i).1 hkey
  · rename_i hfind
    rw [find_eq_none_iff]
    exact ⟨fun h i => ⟨of_decide_eq_false (find_eq_none_iff.mp hfind i), h i⟩,
      fun h i => (h i).2⟩

/-! ## Slots in use -/

namespace FirstLive

/-- A key is in use in one slot at most. -/
theorem unique (h : FirstLive key free tbl) (hi : free (tbl.get i) = false)
    (hj : free (tbl.get j) = false) (hkey : key (tbl.get i) = key (tbl.get j)) : i = j := by
  have hfind := h i hi
  rw [hkey, h j hj] at hfind
  exact (Option.some.inj hfind).symm

/-- The slot in use under a key is the one claimed for it. -/
theorem eq_of_claim (h : FirstLive key free tbl) (hclaim : claim key free tbl k = some i)
    (hj : free (tbl.get j) = false) (hkey : key (tbl.get j) = k) : j = i := by
  rcases claim_eq_some hclaim with hfind | ⟨hnone, _⟩
  · rw [← hkey, h j hj] at hfind
    exact Option.some.inj hfind
  · exact absurd hkey (hnone j)

/-- Storing an entry under a key in the slot claimed for it. -/
theorem set_claim (h : FirstLive key free tbl) (hclaim : claim key free tbl k = some i)
    (hx : key x = k) : FirstLive key free (tbl.set i x i.isLt) := by
  intro j hj
  by_cases hji : j = i
  · -- the slot itself: no slot in front of it carries the key
    subst hji
    rw [get_set, if_pos rfl, hx]
    exact find_set_claim hclaim hx
  · -- a slot in use keeps its key for itself
    rw [get_set, if_neg hji] at hj ⊢
    apply find_set_of_ne (h j hj) hji
    rw [hx]
    exact decide_eq_false fun hk => hji (h.eq_of_claim hclaim hj hk.symm)

/-- Changing entries without changing their keys or taking a free slot into use. -/
theorem congr {tbl' : Vector α n} (h : FirstLive key free tbl)
    (hkey : ∀ i, key (tbl'.get i) = key (tbl.get i))
    (hfree : ∀ i, free (tbl'.get i) = false → free (tbl.get i) = false) :
    FirstLive key free tbl' := by
  intro i hi
  have hfirst := find_eq_some_iff.mp (h i (hfree i hi))
  rw [find_eq_some_iff]
  simp only [hkey]
  exact ⟨decide_eq_true trivial, hfirst.2⟩

/-- The same change for all entries at once. -/
theorem map (h : FirstLive key free tbl) {f : α → α} (hkey : ∀ x, key (f x) = key x)
    (hfree : ∀ x, free (f x) = false → free x = false) : FirstLive key free (tbl.map f) := by
  refine h.congr (fun i => ?_) fun i hi => ?_
  · rw [get_map, hkey]
  · rw [get_map] at hi
    exact hfree _ hi

end FirstLive

/-! ## The table as a map -/

/-- The entry of a key is what the slot in use under this key holds. -/
theorem entry_eq_some_iff (h : FirstLive key free tbl) : entry key free tbl k = some x ↔
    ∃ i, tbl.get i = x ∧ key x = k ∧ free x = false := by
  unfold entry
  rw [Option.filter_eq_some_iff, Option.map_eq_some_iff]
  constructor
  · rintro ⟨⟨i, hfind, rfl⟩, hlive⟩
    exact ⟨i, rfl, of_decide_eq_true (find_eq_some_iff.mp hfind).1, by simpa using hlive⟩
  · rintro ⟨i, rfl, rfl, hlive⟩
    exact ⟨⟨i, h i hlive, rfl⟩, by simpa using hlive⟩

/-- A key has no entry exactly if all slots under it are free. -/
theorem entry_eq_none_iff (h : FirstLive key free tbl) : entry key free tbl k = none ↔
    ∀ i, key (tbl.get i) = k → free (tbl.get i) = true := by
  rw [Option.eq_none_iff_forall_ne_some]
  constructor
  · intro hnone i hkey
    by_contra hfree
    exact hnone _ ((entry_eq_some_iff h).mpr ⟨i, rfl, hkey, by simpa using hfree⟩)
  · intro hfree x hx
    obtain ⟨i, rfl, hkey, hlive⟩ := (entry_eq_some_iff h).mp hx
    exact absurd hlive (by rw [hfree i hkey]; exact Bool.noConfusion)

/-- Storing an entry changes the map at its key only. -/
theorem entry_set_claim (h : FirstLive key free tbl) (hclaim : claim key free tbl k = some i)
    (hx : key x = k) : entry key free (tbl.set i x i.isLt) =
      Function.update (entry key free tbl) k (if free x then none else some x) := by
  have h' := h.set_claim hclaim hx
  -- the slot claimed is in use under no other key
  have hother : ∀ j, free (tbl.get j) = false → key (tbl.get j) ≠ k → j ≠ i := by
    intro j hlive hkey hji
    rw [hji] at hlive hkey
    rcases claim_eq_some hclaim with hfind | ⟨_, hfree⟩
    · exact hkey (of_decide_eq_true (find_eq_some_iff.mp hfind).1)
    · exact absurd hlive (by rw [hfree]; exact Bool.noConfusion)
  funext k'
  by_cases hk : k' = k
  · -- the key that is claimed
    rw [hk, Function.update_self]
    cases hfree : free x with
    | true =>
      rw [if_pos rfl, entry_eq_none_iff h']
      intro j hkey
      rw [get_set] at hkey ⊢
      split
      · exact hfree
      · rename_i hji
        rw [if_neg hji] at hkey
        by_contra hlive
        have hlive' : free (tbl.get j) = false := by simpa using hlive
        exact hji (h.eq_of_claim hclaim hlive' hkey)
    | false =>
      rw [if_neg Bool.false_ne_true, entry_eq_some_iff h']
      exact ⟨i, by rw [get_set, if_pos rfl], hx, hfree⟩
  · -- another key: its slot is not the one claimed
    rw [Function.update_of_ne hk]
    apply Option.ext
    intro y
    rw [entry_eq_some_iff h', entry_eq_some_iff h]
    constructor
    · rintro ⟨j, hget, hkey, hlive⟩
      rw [get_set] at hget
      split at hget
      · rw [← hget, hx] at hkey
        exact absurd hkey.symm hk
      · exact ⟨j, hget, hkey, hlive⟩
    · rintro ⟨j, rfl, hkey, hlive⟩
      refine ⟨j, ?_, hkey, hlive⟩
      rw [get_set, if_neg (hother j hlive fun hk' => hk (hkey.symm.trans hk'))]

/-- Changing all entries without changing their keys. -/
theorem entry_map (h : FirstLive key free tbl) {f : α → α} (hkey : ∀ x, key (f x) = key x)
    (hfree : ∀ x, free (f x) = false → free x = false) (k : κ) :
    entry key free (tbl.map f) k =
      ((entry key free tbl k).map f).filter fun x => !free x := by
  apply Option.ext
  intro y
  rw [entry_eq_some_iff (h.map hkey hfree), Option.filter_eq_some_iff, Option.map_eq_some_iff]
  constructor
  · -- a slot in use afterwards was in use before
    rintro ⟨i, rfl, hk, hlive⟩
    rw [get_map] at hk hlive ⊢
    exact ⟨⟨_, (entry_eq_some_iff h).mpr ⟨i, rfl, (hkey _).symm.trans hk, hfree _ hlive⟩, rfl⟩,
      by simpa using hlive⟩
  · rintro ⟨⟨x, hx, rfl⟩, hlive⟩
    obtain ⟨i, rfl, hk, _⟩ := (entry_eq_some_iff h).mp hx
    exact ⟨i, get_map .., (hkey _).trans hk, by simpa using hlive⟩

/-- The slots in use under a key, in their order: the entry, if there is one. -/
theorem filter_live_eq (h : FirstLive key free tbl) (k : κ) :
    ((List.finRange n).map tbl.get).filter (fun x => !free x && decide (key x = k)) =
      (entry key free tbl k).toList := by
  rw [List.filter_map]
  cases hentry : entry key free tbl k with
  | none =>
    have hnone := (entry_eq_none_iff h).mp hentry
    rw [List.filter_eq_nil_iff.mpr, List.map_nil, Option.toList_none]
    intro i _ hi
    simp only [Function.comp_apply, Bool.and_eq_true, Bool.not_eq_true', decide_eq_true_eq] at hi
    exact absurd (hnone i hi.2) (by rw [hi.1]; exact Bool.noConfusion)
  -- exactly the slot of the entry is left
  | some x =>
    obtain ⟨i, rfl, hkey, hlive⟩ := (entry_eq_some_iff h).mp hentry
    -- the slot of the entry is in the list, is the only one there and is there once
    have hmem : i ∈ (List.finRange n).filter
        ((fun x => !free x && decide (key x = k)) ∘ tbl.get) := by
      simp [hlive, hkey]
    have honly : ∀ j ∈ (List.finRange n).filter
        ((fun x => !free x && decide (key x = k)) ∘ tbl.get), j = i := by
      intro j hj
      simp only [List.mem_filter, Function.comp_apply, Bool.and_eq_true, Bool.not_eq_true',
        decide_eq_true_eq] at hj
      exact h.unique hj.2.1 hlive (hj.2.2.trans hkey.symm)
    have hnodup := (List.nodup_finRange n).filter
      ((fun x => !free x && decide (key x = k)) ∘ tbl.get)
    revert hmem honly hnodup
    cases (List.finRange n).filter ((fun x => !free x && decide (key x = k)) ∘ tbl.get) with
    | nil => exact fun hmem => absurd hmem List.not_mem_nil
    | cons j rest =>
      intro _ honly hnodup
      have hj := honly j (List.mem_cons_self ..)
      have hrest : rest = [] := by
        rw [List.eq_nil_iff_forall_not_mem]
        intro j' hj'
        have heq := honly j' (List.mem_cons_of_mem _ hj')
        rw [List.nodup_cons, hj, ← heq] at hnodup
        exact hnodup.1 hj'
      rw [hj, hrest]
      rfl

/-! ## Keys in use -/

/-- The keys in use are those that have an entry. -/
theorem mem_liveKeys_iff (h : FirstLive key free tbl) :
    k ∈ liveKeys key free tbl ↔ (entry key free tbl k).isSome = true := by
  rw [Option.isSome_iff_exists]
  simp only [liveKeys, List.mem_map, List.mem_filter, List.mem_finRange, true_and,
    Bool.not_eq_true', entry_eq_some_iff h]
  constructor
  · rintro ⟨i, hlive, hkey⟩
    exact ⟨_, i, rfl, hkey, hlive⟩
  · rintro ⟨_, i, rfl, hkey, hlive⟩
    exact ⟨i, hlive, hkey⟩

/-- No key is in use twice. -/
theorem nodup_liveKeys (h : FirstLive key free tbl) : (liveKeys key free tbl).Nodup := by
  refine List.Nodup.map_on ?_ ((List.nodup_finRange n).filter _)
  intro i hi j hj hkey
  simp only [List.mem_filter, Bool.not_eq_true'] at hi hj
  exact h.unique hi.2 hj.2 hkey

/-- The number of keys in use. -/
theorem ncard_entry (h : FirstLive key free tbl) :
    {k | (entry key free tbl k).isSome = true}.ncard = (liveKeys key free tbl).length := by
  have hset : {k | (entry key free tbl k).isSome = true} = ↑(liveKeys key free tbl).toFinset := by
    ext k
    rw [Set.mem_ofPred_eq, ← mem_liveKeys_iff h, Finset.mem_coe, List.mem_toFinset]
  rw [hset, Set.ncard_coe_finset, List.toFinset_card_of_nodup (nodup_liveKeys h)]

omit [DecidableEq κ] in
/-- There are not more keys in use than slots. -/
theorem length_liveKeys_le : (liveKeys key free tbl).length ≤ n := by
  have hle := List.length_filter_le (fun i => !free (tbl.get i)) (List.finRange n)
  rw [List.length_finRange] at hle
  simpa only [liveKeys, List.length_map] using hle

omit [DecidableEq κ] in
/-- All slots are in use exactly if there are as many keys in use as slots. -/
theorem length_liveKeys_eq_iff : (liveKeys key free tbl).length = n ↔
    ∀ i, free (tbl.get i) = false := by
  have hlen : (List.finRange n).length = n := List.length_finRange
  simp only [liveKeys, List.length_map]
  constructor
  · intro h i
    have hall := List.length_filter_eq_length_iff.mp (h.trans hlen.symm)
    simpa using hall i (List.mem_finRange i)
  · intro h
    rw [List.length_filter_eq_length_iff.mpr fun i _ => by simp [h i], hlen]

/-- There is a slot for a key exactly if it is in use or a slot is not. -/
theorem claim_ne_none_iff (h : FirstLive key free tbl) :
    claim key free tbl k ≠ none ↔ (entry key free tbl k).isSome = true ∨
      {k | (entry key free tbl k).isSome = true}.ncard < n := by
  rw [ncard_entry h, ← not_iff_not, not_not, claim_eq_none_iff, not_or, Nat.not_lt,
    Bool.not_eq_true, Option.isSome_eq_false_iff, Option.isNone_iff_eq_none, entry_eq_none_iff h]
  constructor
  · -- every slot is in use, under other keys
    intro hfull
    refine ⟨fun i hkey => absurd hkey (hfull i).1, ?_⟩
    rw [length_liveKeys_eq_iff.mpr fun i => (hfull i).2]
  · -- as many keys as slots: no slot is free
    rintro ⟨hnone, hle⟩ i
    have hlive := length_liveKeys_eq_iff.mp (Nat.le_antisymm length_liveKeys_le hle) i
    refine ⟨fun hkey => ?_, hlive⟩
    exact absurd hlive (by rw [hnone i hkey]; exact Bool.noConfusion)

end

end SlotTable
