/-!
# While loops

A `while (cond s) s := body s` loop over an arbitrary state type. `Exits` is the
exact number of iterations a loop makes before its condition fails; `run` executes
the loop with the iteration bound a decreasing measure supplies. The rules below
are the ones the firmware loops are verified with: termination by a measure, the
invariant rule, and the rule that runs two related loops side by side.
-/

namespace Loop

variable {σ τ : Type _}

/-- `Exits cond body n s s'`: started in `s` the loop makes exactly `n` iterations
    and leaves in `s'`. -/
inductive Exits (cond : σ → Bool) (body : σ → σ) : Nat → σ → σ → Prop where
  | done {s : σ} (h : cond s = false) : Exits cond body 0 s s
  | step {n : Nat} {s s' : σ} (h : cond s = true) (rest : Exits cond body n (body s) s') :
      Exits cond body (n + 1) s s'

/-- The loop ends after finitely many iterations. -/
def Terminates (cond : σ → Bool) (body : σ → σ) (s : σ) : Prop :=
  ∃ n s', Exits cond body n s s'

/-- Some iterations of the loop lead from `s` to `s'`, which need not be where it leaves. -/
inductive LeadsTo (cond : σ → Bool) (body : σ → σ) : σ → σ → Prop where
  | refl {s : σ} : LeadsTo cond body s s
  | step {s s' : σ} (h : cond s = true) (rest : LeadsTo cond body (body s) s') :
      LeadsTo cond body s s'

/-- At most `fuel` iterations of the loop. -/
def iterate (cond : σ → Bool) (body : σ → σ) : Nat → σ → σ
  | 0, s => s
  | fuel + 1, s => if cond s then iterate cond body fuel (body s) else s

/-- The loop, given as many iterations as the measure `μ` of its first state. -/
def run (cond : σ → Bool) (body : σ → σ) (μ : σ → Nat) (s : σ) : σ :=
  iterate cond body (μ s) s

/-- `μ` goes down in every iteration. -/
def Decreases (cond : σ → Bool) (body : σ → σ) (μ : σ → Nat) : Prop :=
  ∀ s, cond s = true → μ (body s) < μ s

variable {cond : σ → Bool} {body : σ → σ} {μ : σ → Nat}

theorem LeadsTo.trans {s s' s'' : σ} (h : LeadsTo cond body s s')
    (h' : LeadsTo cond body s' s'') : LeadsTo cond body s s'' := by
  induction h with
  | refl => exact h'
  | step h _ ih => exact .step h (ih h')

/-- The loop leaves where its iterations lead, if the condition fails there. -/
theorem LeadsTo.exits {s s' : σ} (h : LeadsTo cond body s s') (hdone : cond s' = false) :
    ∃ n, Exits cond body n s s' := by
  induction h with
  | refl => exact ⟨0, .done hdone⟩
  | step h _ ih =>
    obtain ⟨n, hexit⟩ := ih hdone
    exact ⟨n + 1, .step h hexit⟩

/-- The condition is false where a loop leaves. -/
theorem Exits.cond_eq_false {n : Nat} {s s' : σ} (h : Exits cond body n s s') :
    cond s' = false := by
  induction h with
  | done h => exact h
  | step _ _ ih => exact ih

/-- Enough fuel reaches the state the loop leaves in. -/
theorem Exits.iterate_eq {n : Nat} {s s' : σ} (h : Exits cond body n s s') {fuel : Nat}
    (hfuel : n ≤ fuel) : iterate cond body fuel s = s' := by
  induction h generalizing fuel with
  | done h =>
    cases fuel with
    | zero => rfl
    | succ fuel => simp only [iterate, h, Bool.false_eq_true, if_false]
  | step h _ ih =>
    cases fuel with
    | zero => omega
    | succ fuel =>
      simp only [iterate, h, if_true]
      exact ih (by omega)

/-- Iterating on from where a loop has come. -/
theorem iterate_add (n m : Nat) (s : σ) :
    iterate cond body (n + m) s = iterate cond body m (iterate cond body n s) := by
  induction n generalizing s with
  | zero => rw [Nat.zero_add, iterate]
  | succ n ih =>
    rw [Nat.add_right_comm, iterate, iterate]
    split
    · exact ih (body s)
    · rename_i hcond
      exact ((Exits.done (Bool.eq_false_iff.mpr hcond)).iterate_eq (Nat.zero_le m)).symm

theorem LeadsTo.iterate_eq {s s' : σ} (h : LeadsTo cond body s s') :
    ∃ n, iterate cond body n s = s' := by
  induction h with
  | refl => exact ⟨0, rfl⟩
  | step h _ ih =>
    obtain ⟨n, hn⟩ := ih
    exact ⟨n + 1, by rw [iterate, if_pos h, hn]⟩

/-- A decreasing measure bounds the iterations, and `run` is where the loop leaves. -/
theorem exits_run (hdec : Decreases cond body μ) (s : σ) :
    ∃ n, n ≤ μ s ∧ Exits cond body n s (run cond body μ s) := by
  -- strong induction on the measure, for every fuel that covers it
  suffices ∀ fuel s, μ s ≤ fuel → ∃ n, n ≤ μ s ∧
      Exits cond body n s (iterate cond body fuel s) from this (μ s) s (Nat.le_refl _)
  intro fuel
  induction fuel with
  | zero =>
    intro s hs
    have hcond : cond s = false := by
      cases hc : cond s with
      | false => rfl
      | true => have := hdec s hc; omega
    exact ⟨0, Nat.zero_le _, .done hcond⟩
  | succ fuel ih =>
    intro s hs
    cases hc : cond s with
    | false =>
      refine ⟨0, Nat.zero_le _, ?_⟩
      simp only [iterate, hc, Bool.false_eq_true, if_false]
      exact .done hc
    | true =>
      have hlt := hdec s hc
      obtain ⟨n, hn, hexit⟩ := ih (body s) (by omega)
      refine ⟨n + 1, by omega, ?_⟩
      simp only [iterate, hc, if_true]
      exact .step hc hexit

/-- A loop whose condition fails at once returns its first state. -/
theorem run_done {s : σ} (h : cond s = false) : run cond body μ s = s :=
  (Exits.done h).iterate_eq (Nat.zero_le _)

/-- Unfold one iteration of `run`. -/
theorem run_step (hdec : Decreases cond body μ) {s : σ} (h : cond s = true) :
    run cond body μ s = run cond body μ (body s) := by
  obtain ⟨n, hn, hexit⟩ := exits_run hdec (body s)
  exact (Exits.step h hexit).iterate_eq (Nat.lt_of_le_of_lt hn (hdec s h))

/-- The invariant rule. -/
theorem Exits.invariant {I : σ → Prop} (hstep : ∀ s, cond s = true → I s → I (body s))
    {n : Nat} {s s' : σ} (h : Exits cond body n s s') (hs : I s) : I s' := by
  induction h with
  | done _ => exact hs
  | step h _ ih => exact ih (hstep _ h hs)

/-- The invariant rule for a bounded number of iterations. -/
theorem iterate_invariant {I : σ → Prop} (hstep : ∀ s, cond s = true → I s → I (body s))
    (fuel : Nat) {s : σ} (hs : I s) : I (iterate cond body fuel s) := by
  induction fuel generalizing s with
  | zero => exact hs
  | succ fuel ih =>
    simp only [iterate]
    split
    · rename_i hcond
      exact ih (hstep s hcond hs)
    · exact hs

/-- Where the condition fails, no number of iterations changes anything. -/
theorem iterate_done {s : σ} (h : cond s = false) (fuel : Nat) :
    iterate cond body fuel s = s :=
  (Exits.done h).iterate_eq (Nat.zero_le _)

/-- A loop that follows another one step by step makes as many iterations and leaves in a
    related state. -/
theorem Exits.related {cond' : τ → Bool} {body' : τ → τ} {R : σ → τ → Prop}
    (hcond : ∀ s t, R s t → cond s = cond' t)
    (hstep : ∀ s t, R s t → cond' t = true → R (body s) (body' t))
    {n : Nat} {t t' : τ} (h : Exits cond' body' n t t') {s : σ} (hs : R s t) :
    ∃ s', Exits cond body n s s' ∧ R s' t' := by
  induction h generalizing s with
  | done h => exact ⟨s, .done ((hcond s _ hs).trans h), hs⟩
  | step h _ ih =>
    obtain ⟨s', hexit, hr⟩ := ih (hstep s _ hs h)
    exact ⟨s', .step ((hcond s _ hs).trans h) hexit, hr⟩

/-- A loop ends exactly if its image under a map that commutes with condition and body
    does. -/
theorem terminates_map {cond' : τ → Bool} {body' : τ → τ} {f : σ → τ}
    (hcond : ∀ s, cond s = cond' (f s)) (hstep : ∀ s, f (body s) = body' (f s)) (s : σ) :
    Terminates cond body s ↔ Terminates cond' body' (f s) := by
  constructor
  · rintro ⟨n, s', hexit⟩
    obtain ⟨t', hexit', _⟩ := @Exits.related τ σ cond' body' cond body (fun t s => t = f s)
      (fun _ s h => by rw [h, hcond]) (fun _ s h _ => by rw [h, hstep]) n s s' hexit (f s) rfl
    exact ⟨n, t', hexit'⟩
  · rintro ⟨n, t', hexit⟩
    obtain ⟨s', hexit', _⟩ := @Exits.related σ τ cond body cond' body' (fun s t => f s = t)
      (fun s _ h => by rw [← h, hcond]) (fun s _ h _ => by rw [← h, hstep]) n (f s) t' hexit s rfl
    exact ⟨n, s', hexit'⟩

end Loop
