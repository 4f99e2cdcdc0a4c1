import Mathlib.Data.List.Basic
import Mathlib.Logic.Function.Basic

/-!
# Machines that answer

A machine takes a request in every state, answers it and goes on. A relation between the
states of two machines that keeps the answers the same shows that nobody who only makes
requests can tell the machines apart.
-/

namespace Machine

variable {σ τ ω β : Type} {R : σ → τ → Prop}

/-- The answers to requests, one after the other. -/
def answers (step : σ → ω → σ × β) (s : σ) : List ω → List β
  | [] => []
  | op :: ops => (step s op).2 :: answers step (step s op).1 ops

/-- The two machines answer alike and stay related. -/
def Agrees (R : σ → τ → Prop) (r : σ × β) (r' : τ × β) : Prop := R r.1 r'.1 ∧ r.2 = r'.2

theorem answers_eq {step : σ → ω → σ × β} {step' : τ → ω → τ × β}
    (hstep : ∀ {s t}, R s t → ∀ op, Agrees R (step s op) (step' t op)) {s : σ} {t : τ}
    (h : R s t) (ops : List ω) : answers step s ops = answers step' t ops := by
  induction ops generalizing s t with
  | nil => rfl
  | cons op ops ih =>
    obtain ⟨hnext, hanswer⟩ := hstep h op
    rw [answers, answers, hanswer, ih hnext]

/-! ## Many machines -/

/-- Objects are related that are related one by one. -/
def Each (R : σ → τ → Prop) (w : Nat → σ) (v : Nat → τ) : Prop := ∀ i, R (w i) (v i)

variable {w : Nat → σ} {v : Nat → τ}

theorem Each.update (h : Each R w v) (i : Nat) {s : σ} {t : τ} (hst : R s t) :
    Each R (Function.update w i s) (Function.update v i t) := by
  intro j
  by_cases hj : j = i
  · subst hj
    rwa [Function.update_self, Function.update_self]
  · rw [Function.update_of_ne hj, Function.update_of_ne hj]
    exact h j

/-- Put a list of new objects in a row. -/
def place (i : Nat) : List σ → (Nat → σ) → Nat → σ
  | [], w => w
  | s :: l, w => place (i + 1) l (Function.update w i s)

theorem Each.place (h : Each R w v) (i : Nat) {l : List σ} {l' : List τ}
    (hl : List.Forall₂ R l l') : Each R (place i l w) (place i l' v) := by
  induction hl generalizing i w v with
  | nil => exact h
  | cons hst _ ih => exact ih (h.update i hst) (i + 1)

end Machine
