import Mathlib.Data.List.Induction

/-!
# Handles

A resource is known by its handle: it is acquired, used and released. `held` follows what a program
does with one handle at a time, and fails at the first step that is a misuse: a use or a release of
a handle that is not held, or a handle acquired while another one is held.

## Key results

- `held_append`: what is held after more events
- `acquired_of_use`: a handle is used behind its acquisition and in front of its release
-/

namespace Handles

variable {η : Type _} [DecidableEq η]

/-- What a program does with a handle. -/
inductive Event (η : Type _) where
  | acquire (h : η)
  | use (h : η)
  | release (h : η)
  deriving DecidableEq, Repr

/-- The handle held after an event, if the event is allowed. -/
def next : Option η → Event η → Option (Option η)
  | none, .acquire h => some (some h)
  | some h, .use h' => if h' = h then some (some h) else none
  | some h, .release h' => if h' = h then some none else none
  | _, _ => none

/-- The handle held after events that are all allowed. -/
def held : Option η → List (Event η) → Option (Option η)
  | s, [] => some s
  | s, e :: es => (next s e).bind fun s' => held s' es

/-- Without events the handle stays as it is. -/
@[simp] theorem held_nil (s : Option η) : held s [] = some s := rfl

/-- A handle is acquired where none is held. -/
@[simp] theorem held_acquire (h : η) (es : List (Event η)) :
    held none (.acquire h :: es) = held (some h) es := rfl

/-- The handle that is held may be used. -/
@[simp] theorem held_use (h : η) (es : List (Event η)) :
    held (some h) (.use h :: es) = held (some h) es := by
  rw [held, next, if_pos rfl]
  rfl

/-- The handle that is held may be released, and then none is held. -/
@[simp] theorem held_release (h : η) (es : List (Event η)) :
    held (some h) (.release h :: es) = held none es := by
  rw [held, next, if_pos rfl]
  rfl

/-- Events one after the other. -/
theorem held_append (s : Option η) (es es' : List (Event η)) :
    held s (es ++ es') = (held s es).bind fun s' => held s' es' := by
  induction es generalizing s with
  | nil => rfl
  | cons e es ih =>
    simp only [List.cons_append, held, Option.bind_assoc]
    exact congrArg _ (funext ih)

/-- Events that are allowed where others have led. -/
theorem held_trans {s s' s'' : Option η} {es es' : List (Event η)} (h : held s es = some s')
    (h' : held s' es' = some s'') : held s (es ++ es') = some s'' := by
  rw [held_append, h]
  exact h'

/-- A handle is used behind its acquisition, with nothing but uses of it in between. -/
theorem acquired_of_use {es es' : List (Event η)} {h : η} {s : Option η}
    (hheld : held none (es ++ .use h :: es') = some s) :
    ∃ before uses, es = before ++ .acquire h :: uses ∧ ∀ e ∈ uses, e = .use h := by
  rw [held_append] at hheld
  -- in front of the use the handle is held
  cases hes : held none es with
  | none => rw [hes] at hheld; cases hheld
  | some s' =>
    rw [hes] at hheld
    -- the use is legal for this handle only
    have hs' : s' = some h := by
      cases s' with
      | none => cases hheld
      | some h' =>
        by_cases heq : h = h'
        · rw [heq]
        · simp [held, next, heq] at hheld
    subst hs'
    clear hheld s es'
    -- the last event leads to `h`: its acquisition, or a use of it
    induction es using List.reverseRecOn with
    | nil => cases hes
    | append_singleton es e ih =>
      rw [held_append] at hes
      cases hmid : held none es with
      | none => rw [hmid] at hes; cases hes
      | some mid =>
        rw [hmid] at hes
        cases mid with
        | none =>
          cases e with
          | acquire h' =>
            simp [held, next] at hes
            subst hes
            exact ⟨es, [], rfl, fun e he => absurd he List.not_mem_nil⟩
          | use h' => cases hes
          | release h' => cases hes
        | some h'' =>
          cases e with
          | acquire h' => cases hes
          | use h' =>
            by_cases heq : h' = h''
            · simp [held, next, heq] at hes
              subst hes
              subst heq
              obtain ⟨before, uses, rfl, huses⟩ := ih hmid
              refine ⟨before, uses ++ [.use h'], by simp, ?_⟩
              intro e he
              obtain he | he := List.mem_append.mp he
              · exact huses e he
              · exact List.mem_singleton.mp he
            · simp [held, next, heq] at hes
          | release h' =>
            by_cases heq : h' = h'' <;> simp [held, next, heq] at hes

end Handles
