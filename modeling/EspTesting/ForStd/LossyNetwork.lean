import Mathlib.Logic.Relation

/-!
# A server and a client over a lossy network

A client asks, a server answers, and the network may lose, repeat and reorder what is sent: what
was sent once can arrive at any time, any number of times, or never. The facts that come to hold on
the server are collected, so that it can be said of what the client heard that it once was true.

## Key results

- `Exchange.reachable_invariant`: what each step preserves holds in every state that is reached
-/

namespace EspTesting

/-- What the two parties do: `own` is a step of the server besides its answers, and the facts are
    those that come to hold. -/
structure Exchange (σ τ α β φ : Type _) where
  own : σ → σ → Prop
  ownFacts : σ → List φ
  asks : α → Prop
  serve : σ → α → σ
  facts : σ → α → List φ
  answer : σ → α → Option β
  hear : τ → β → τ

namespace Exchange

variable {σ τ α β φ : Type _}

/-- The two parties, everything sent so far, and everything that has held. -/
structure State (σ τ α β φ : Type _) where
  server : σ
  client : τ
  asked : List α
  said : List β
  past : List φ

variable (E : Exchange σ τ α β φ)

/-- A step. Nothing sent is ever removed. -/
inductive Step (s : State σ τ α β φ) : State σ τ α β φ → Prop
  | own {server : σ} (h : E.own s.server server) :
    Step s { s with server, past := s.past ++ E.ownFacts server }
  | ask {a : α} (h : E.asks a) : Step s { s with asked := s.asked ++ [a] }
  | serve {a : α} (h : a ∈ s.asked) :
    Step s { s with
      server := E.serve s.server a
      said := s.said ++ (E.answer s.server a).toList
      past := s.past ++ E.facts s.server a }
  | hear {b : β} (h : b ∈ s.said) : Step s { s with client := E.hear s.client b }

/-- The state is reached from the first one. -/
def Reachable (s₀ s : State σ τ α β φ) : Prop := Relation.ReflTransGen (E.Step) s₀ s

/-- What holds of the parties and the messages. -/
structure Invariant (I : σ → Prop) (S : List φ → β → Prop) (J : List φ → τ → Prop)
    (s : State σ τ α β φ) : Prop where
  server : I s.server
  asked : ∀ a ∈ s.asked, E.asks a
  said : ∀ b ∈ s.said, S s.past b
  client : J s.past s.client

section

variable {E} {I : σ → Prop} {S : List φ → β → Prop} {J : List φ → τ → Prop}
  (hown : ∀ {server server'}, I server → E.own server server' → I server')
  (hserve : ∀ {server a}, I server → E.asks a → I (E.serve server a))
  (hS : ∀ {past more b}, S past b → S (past ++ more) b)
  (hJ : ∀ {past more client}, J past client → J (past ++ more) client)
  (hanswer : ∀ {server a past b}, I server → E.asks a → E.answer server a = some b →
    S (past ++ E.facts server a) b)
  (hhear : ∀ {past client b}, J past client → S past b → J past (E.hear client b))

include hown hserve hS hJ hanswer hhear

/-- A step preserves the invariant. -/
theorem Invariant.step {s s' : State σ τ α β φ} (h : E.Invariant I S J s)
    (hstep : E.Step s s') : E.Invariant I S J s' := by
  cases hstep with
  | own hown' =>
    exact ⟨hown h.server hown', h.asked, fun b hb => hS (h.said b hb), hJ h.client⟩
  | ask hasks =>
    refine ⟨h.server, ?_, h.said, h.client⟩
    intro a ha
    obtain ha | ha := List.mem_append.mp ha
    · exact h.asked a ha
    · rw [List.mem_singleton.mp ha]
      exact hasks
  | serve hmem =>
    have hasks := h.asked _ hmem
    refine ⟨hserve h.server hasks, h.asked, ?_, hJ h.client⟩
    intro b hb
    obtain hb | hb := List.mem_append.mp hb
    · exact hS (h.said b hb)
    · exact hanswer h.server hasks (Option.mem_toList.mp hb)
  | hear hmem => exact ⟨h.server, h.asked, h.said, hhear h.client (h.said _ hmem)⟩

/-- What each step preserves holds in every state that is reached. -/
theorem reachable_invariant {s₀ s : State σ τ α β φ} (hreach : E.Reachable s₀ s)
    (h : E.Invariant I S J s₀) : E.Invariant I S J s := by
  induction hreach with
  | refl => exact h
  | tail _ hstep ih => exact ih.step hown hserve hS hJ hanswer hhear hstep

end

end Exchange

end EspTesting
