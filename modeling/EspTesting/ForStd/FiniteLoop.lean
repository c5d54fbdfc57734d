import EspTesting.ForStd.Loop
import Mathlib.Data.Fintype.Pigeonhole
import Mathlib.Logic.Relation

/-!
# Loops over a finite state space

A loop over finitely many states runs forever exactly if its states come round to one they
have been in before. `terminates_iff` says so with the step relation of the loop.
-/

namespace Loop

variable {σ : Type _} {cond : σ → Bool} {body : σ → σ}

/-- The loop goes from `s` to `t` in one iteration. -/
def Step (cond : σ → Bool) (body : σ → σ) (s t : σ) : Prop := cond s = true ∧ body s = t

/-- A loop that ends passes through no cycle. -/
theorem Terminates.not_cycle {s t : σ} (h : Terminates cond body s)
    (hreach : Relation.ReflTransGen (Step cond body) s t) :
    ¬ Relation.TransGen (Step cond body) t t := by
  obtain ⟨n, s', hexit⟩ := h
  induction hexit generalizing t with
  | @done s hcond =>
    intro hcycle
    -- neither the first state nor any behind it takes a step
    have hstep : ∃ u, Step cond body s u := by
      cases hreach using Relation.ReflTransGen.head_induction_on with
      | refl =>
        obtain ⟨u, hu, _⟩ := Relation.TransGen.head'_iff.mp hcycle
        exact ⟨u, hu⟩
      | head hu _ => exact ⟨_, hu⟩
    obtain ⟨u, hu, _⟩ := hstep
    rw [hcond] at hu
    exact Bool.false_ne_true hu
  | step hcond _ ih =>
    intro hcycle
    cases hreach using Relation.ReflTransGen.head_induction_on with
    | refl =>
      -- the cycle starts here, so the next state lies on it
      obtain ⟨u, ⟨_, rfl⟩, hback⟩ := Relation.TransGen.head'_iff.mp hcycle
      exact ih hback hcycle
    | head hu hrest =>
      obtain ⟨_, rfl⟩ := hu
      exact ih hrest hcycle

/-- A loop that does not end takes a step from every state it comes to. -/
private theorem cond_iterate {s : σ} (h : ¬ Terminates cond body s) (n : Nat) :
    cond (body^[n] s) = true := by
  induction n generalizing s with
  | zero =>
    cases hcond : cond s with
    | true => exact hcond
    | false => exact absurd ⟨0, s, .done hcond⟩ h
  | succ n ih =>
    rw [Function.iterate_succ_apply]
    apply ih
    rintro ⟨k, s', hexit⟩
    cases hcond : cond s with
    | true => exact h ⟨k + 1, s', .step hcond hexit⟩
    | false => exact h ⟨0, s, .done hcond⟩

/-- A loop over finitely many states ends exactly if it reaches no cycle. -/
theorem terminates_iff [Finite σ] {s : σ} :
    Terminates cond body s ↔ ¬ ∃ t, Relation.ReflTransGen (Step cond body) s t ∧
      Relation.TransGen (Step cond body) t t := by
  constructor
  · rintro h ⟨t, hreach, hcycle⟩
    exact h.not_cycle hreach hcycle
  · intro h
    by_contra hterm
    have hstep (n : Nat) : Step cond body (body^[n] s) (body^[n + 1] s) :=
      ⟨cond_iterate hterm n, (Function.iterate_succ_apply' body n s).symm⟩
    have hreach (n : Nat) (k : Nat) :
        Relation.ReflTransGen (Step cond body) (body^[n] s) (body^[n + k] s) := by
      induction k with
      | zero => exact .refl
      | succ k ih => exact ih.tail (hstep (n + k))
    -- two of infinitely many states of the run are equal
    obtain ⟨i, j, hne, heq⟩ := Finite.exists_ne_map_eq_of_infinite fun n => body^[n] s
    have hcycle {i j : Nat} (hlt : i < j) (heq : body^[i] s = body^[j] s) :
        Relation.TransGen (Step cond body) (body^[i] s) (body^[i] s) := by
      refine .head' (hstep i) ?_
      have hback := hreach (i + 1) (j - (i + 1))
      rwa [Nat.add_sub_cancel' hlt, ← heq] at hback
    have hstart (n : Nat) := hreach 0 n
    simp only [Nat.zero_add, Function.iterate_zero_apply] at hstart
    rcases Nat.lt_or_gt_of_ne hne with hlt | hlt
    · exact h ⟨_, hstart i, hcycle hlt heq⟩
    · exact h ⟨_, hstart j, hcycle hlt heq.symm⟩

end Loop
