/-!
# Machines

A machine takes a step for each action it is given; `run` takes one step after another.
`Meets` says that every step of a run is taken in a state, and for an action, that meets a
condition. The invariant rule carries a fact along all runs whose steps meet one. A machine
may give something out at every step (`outputs`).
-/

namespace Machine

variable {σ α : Type _} (step : σ → α → σ)

/-- The state after the actions `as`. -/
def run (s : σ) (as : List α) : σ := as.foldl step s

/-- Every step of the run on `as` from `s` meets `P`. -/
def Meets (P : σ → α → Prop) : σ → List α → Prop
  | _, [] => True
  | s, a :: as => P s a ∧ Meets P (step s a) as

/-- What the steps of the run on `as` from `s` give out. -/
def outputs {ω : Type _} (out : σ → α → ω) : σ → List α → List ω
  | _, [] => []
  | s, a :: as => out s a :: outputs out (step s a) as

variable {step} {P : σ → α → Prop} {I : σ → Prop}

/-- Whether every step of a run meets the condition can be computed. -/
instance Meets.decidable [∀ s a, Decidable (P s a)] :
    ∀ s as, Decidable (Meets step P s as)
  | _, [] => isTrue trivial
  | s, a :: as =>
    have := Meets.decidable (step s a) as
    inferInstanceAs (Decidable (P s a ∧ Meets step P (step s a) as))

/-- No step. -/
@[simp] theorem run_nil (s : σ) : run step s [] = s := rfl

/-- One step, and the others. -/
@[simp] theorem run_cons (s : σ) (a : α) (as : List α) :
    run step s (a :: as) = run step (step s a) as := rfl

/-- Two runs one after the other. -/
theorem run_append (s : σ) (as bs : List α) :
    run step s (as ++ bs) = run step (run step s as) bs :=
  List.foldl_append

/-- Both parts of a run meet the condition. -/
theorem meets_append {s : σ} {as bs : List α} :
    Meets step P s (as ++ bs) ↔ Meets step P s as ∧ Meets step P (run step s as) bs := by
  induction as generalizing s with
  | nil => exact (and_iff_right trivial).symm
  | cons a as ih => exact (and_congr_right fun _ => ih).trans and_assoc.symm

/-- A run meets a condition if each of its steps does, in the state it is taken in. -/
theorem meets_iff_forall {s : σ} {as : List α} :
    Meets step P s as ↔ ∀ past a rest, as = past ++ a :: rest → P (run step s past) a := by
  constructor
  · intro h past a rest heq
    rw [heq, meets_append] at h
    exact h.2.1
  · intro h
    induction as generalizing s with
    | nil => trivial
    | cons a as ih =>
      exact ⟨h [] a as rfl, ih fun past b rest heq => h (a :: past) b rest (by rw [heq]; rfl)⟩

/-- The invariant rule, for runs whose steps meet a condition. -/
theorem Meets.invariant (hstep : ∀ s a, P s a → I s → I (step s a)) {s : σ} {as : List α}
    (h : Meets step P s as) (hs : I s) : I (run step s as) := by
  induction as generalizing s with
  | nil => exact hs
  | cons a as ih =>
    obtain ⟨ha, has⟩ := h
    exact ih has (hstep s a ha hs)

/-- The invariant rule. -/
theorem run_invariant (hstep : ∀ s a, I s → I (step s a)) {s : σ} (hs : I s) (as : List α) :
    I (run step s as) := by
  induction as generalizing s with
  | nil => exact hs
  | cons a as ih => exact ih (hstep s a hs)

/-- Steps that give out nothing. -/
@[simp] theorem flatten_outputs_nil {ω : Type _} (s : σ) (as : List α) :
    (outputs step (fun _ _ => ([] : List ω)) s as).flatten = [] := by
  induction as generalizing s with
  | nil => rfl
  | cons a as ih => exact ih (step s a)

/-- A queue a machine carries: what it held and what came in is what went out and what it holds,
    in this order, if that is so at every step. -/
theorem run_conserves {ω : Type _} {queue : σ → List ω} {came went : σ → α → List ω}
    (hstep : ∀ s a, queue s ++ came s a = went s a ++ queue (step s a)) (s : σ) (as : List α) :
    queue s ++ (outputs step came s as).flatten =
      (outputs step went s as).flatten ++ queue (run step s as) := by
  induction as generalizing s with
  | nil => exact List.append_nil _
  | cons a as ih =>
    show queue s ++ (came s a ++ (outputs step came (step s a) as).flatten) =
      went s a ++ (outputs step went (step s a) as).flatten ++ queue (run step (step s a) as)
    rw [← List.append_assoc, hstep, List.append_assoc, ih, List.append_assoc]

/-- A map of states and of actions that every step meeting a condition commutes with: a run on
    the mapped actions ends in the mapped state. -/
theorem Meets.run_map {f : σ → σ} {g : α → α}
    (hstep : ∀ s a, P s a → step (f s) (g a) = f (step s a)) {s : σ} {as : List α}
    (h : Meets step P s as) : run step (f s) (as.map g) = f (run step s as) := by
  induction as generalizing s with
  | nil => rfl
  | cons a as ih =>
    obtain ⟨ha, has⟩ := h
    rw [List.map_cons, run_cons, run_cons, hstep s a ha, ih has]

/-- A run on the mapped actions gives out the same, if every step meeting the condition does. -/
theorem Meets.outputs_map {ω : Type _} {out : σ → α → ω} {f : σ → σ} {g : α → α}
    (hstep : ∀ s a, P s a → step (f s) (g a) = f (step s a))
    (hout : ∀ s a, P s a → out (f s) (g a) = out s a) {s : σ} {as : List α}
    (h : Meets step P s as) : outputs step out (f s) (as.map g) = outputs step out s as := by
  induction as generalizing s with
  | nil => rfl
  | cons a as ih =>
    obtain ⟨ha, has⟩ := h
    show out (f s) (g a) :: outputs step out (step (f s) (g a)) (as.map g) = _
    rw [hout s a ha, hstep s a ha, ih has]
    rfl

/-- Two conditions that agree wherever an invariant holds are met by the same runs, if the steps
    that meet the first one keep the invariant. -/
theorem meets_iff_of_kept {Q : σ → α → Prop} (hkeep : ∀ s a, I s → P s a → I (step s a))
    (hiff : ∀ s a, I s → (P s a ↔ Q s a)) {s : σ} (hs : I s) (as : List α) :
    Meets step P s as ↔ Meets step Q s as := by
  induction as generalizing s with
  | nil => exact Iff.rfl
  | cons a as ih =>
    calc Meets step P s (a :: as)
        ↔ P s a ∧ Meets step Q (step s a) as :=
          and_congr_right fun ha => ih (hkeep s a hs ha)
      _ ↔ Meets step Q s (a :: as) := and_congr_left fun _ => hiff s a hs

/-- Two conditions that agree wherever an invariant holds are met by the same runs. -/
theorem meets_iff_of_invariant {Q : σ → α → Prop} (hstep : ∀ s a, I s → I (step s a))
    (hiff : ∀ s a, I s → (P s a ↔ Q s a)) {s : σ} (hs : I s) (as : List α) :
    Meets step P s as ↔ Meets step Q s as :=
  meets_iff_of_kept (fun s a h _ => hstep s a h) hiff hs as

/-- A condition on the actions alone. -/
theorem meets_const {Q : α → Prop} {s : σ} {as : List α} :
    Meets step (fun _ a => Q a) s as ↔ ∀ a ∈ as, Q a := by
  induction as generalizing s with
  | nil => exact iff_of_true trivial nofun
  | cons a as ih => exact (and_congr_right fun _ => ih).trans List.forall_mem_cons.symm

/-- A property that a step keeps exactly if it meets a condition, and never restores: it holds at
    the end of a run exactly if all steps of the run meet the condition. -/
theorem run_iff_meets {H : σ → Prop} (hinv : ∀ s a, I s → I (step s a))
    (hstep : ∀ s a, I s → (H (step s a) ↔ H s ∧ P s a)) {s : σ} (hI : I s) (as : List α) :
    H (run step s as) ↔ H s ∧ Meets step P s as := by
  induction as generalizing s with
  | nil => exact (and_iff_left trivial).symm
  | cons a as ih =>
    calc H (run step (step s a) as)
        ↔ H (step s a) ∧ Meets step P (step s a) as := ih (hinv s a hI)
      _ ↔ (H s ∧ P s a) ∧ Meets step P (step s a) as := and_congr_left fun _ => hstep s a hI
      _ ↔ H s ∧ Meets step P s (a :: as) := and_assoc

/-- A property of the state and the actions so far, which a step keeps exactly if it meets a
    condition: it holds all along a run exactly if all steps of the run meet the condition. -/
theorem forall_prefix_iff_meets {H : List α → σ → Prop}
    (hstep : ∀ past s a, H past s → (H (past ++ [a]) (step s a) ↔ P s a))
    {s : σ} (hs : H [] s) (as : List α) :
    (∀ past, past <+: as → H past (run step s past)) ↔ Meets step P s as := by
  -- the same for a run that other actions came before
  suffices ∀ past s, H past s →
      ((∀ as', as' <+: as → H (past ++ as') (run step s as')) ↔ Meets step P s as) from
    this [] s hs
  clear hs s
  induction as with
  | nil =>
    intro past s hs
    refine iff_of_true (fun as' hpre => ?_) trivial
    rw [List.prefix_nil.mp hpre, List.append_nil]
    exact hs
  | cons a as ih =>
    intro past s hs
    constructor
    · -- the first step reaches a state of `H`, and the rest of the run goes on from there
      intro hall
      have hnext := hall [a] ⟨as, rfl⟩
      refine ⟨(hstep past s a hs).mp hnext, (ih _ _ hnext).mp fun as' hpre => ?_⟩
      rw [List.append_assoc]
      exact hall (a :: as') ((List.prefix_cons_inj a).mpr hpre)
    · rintro ⟨ha, has⟩ as' hpre
      rcases List.prefix_cons_iff.mp hpre with rfl | ⟨rest, rfl, hrest⟩
      · rw [List.append_nil]
        exact hs
      · have hkept := (ih _ _ ((hstep past s a hs).mpr ha)).mpr has rest hrest
        rw [List.append_assoc] at hkept
        exact hkept

end Machine
