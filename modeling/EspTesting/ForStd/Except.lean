/-!
# Pre- and postconditions for `Except`

`Meets E Q r` says that a computation ends with a value that meets `Q` or with an error that
meets `E`. The rules below are those of a program logic: one for each way in which a `do` block
is put together, and the rule of consequence.
-/

namespace Except

variable {ε α β : Type _}

/-- A value meets `Q`, an error meets `E`. -/
def Meets (E : ε → Prop) (Q : α → Prop) : Except ε α → Prop
  | ok a => Q a
  | error e => E e

variable {E E' : ε → Prop} {Q Q' : α → Prop} {R : β → Prop} {x : Except ε α}

/-- A result meets the condition on results. -/
@[simp] theorem meets_ok {a : α} : Meets E Q (ok a) ↔ Q a := Iff.rfl

/-- An error meets the condition on errors. -/
@[simp] theorem meets_error {e : ε} : Meets E Q (error e) ↔ E e := Iff.rfl

/-- The rule of consequence. -/
theorem Meets.imp (h : Meets E Q x) (hE : ∀ e, E e → E' e) (hQ : ∀ a, Q a → Q' a) :
    Meets E' Q' x := by
  cases x with
  | ok a => exact hQ a h
  | error e => exact hE e h

/-- The condition on results may be weakened. -/
theorem Meets.mono (h : Meets E Q x) (hQ : ∀ a, Q a → Q' a) : Meets E Q' x :=
  h.imp (fun _ he => he) hQ

/-- One computation after another. -/
theorem Meets.bind (h : Meets E Q x) {f : α → Except ε β} (hf : ∀ a, Q a → Meets E R (f a)) :
    Meets E R (x >>= f) := by
  cases x with
  | ok a => exact hf a h
  | error e => exact h

/-- Both branches of a condition meet it. -/
theorem Meets.ite {c : Prop} [Decidable c] {y : Except ε α} (ht : c → Meets E Q x)
    (he : ¬c → Meets E Q y) : Meets E Q (if c then x else y) := by
  split
  · rename_i h
    exact ht h
  · rename_i h
    exact he h

/-- What is known of a value that a computation ended with. -/
theorem Meets.of_eq_ok (h : Meets E Q x) {a : α} (hx : x = ok a) : Q a := by
  rw [hx] at h
  exact h

/-- Errors that are ruled out leave a value. -/
theorem Meets.exists_ok (h : Meets E Q x) (hE : ∀ e, ¬E e) : ∃ a, x = ok a ∧ Q a := by
  cases x with
  | ok a => exact ⟨a, rfl, h⟩
  | error e => exact absurd h (hE e)

end Except
