import Mathlib.Data.List.Basic

/-!
# Runs of a labelled transition relation

A run is a sequence of steps with their labels. A guard restricts a relation to the
steps that it allows, so that a run of the guarded relation is a run in which nothing
else is done.
-/

namespace Transition

variable {σ α : Type}

/-- A run, with the labels of its steps. -/
inductive Run (step : σ → α → σ → Prop) : σ → List α → σ → Prop where
  | nil {s} : Run step s [] s
  | cons {s a s₁ as s'} : step s a s₁ → Run step s₁ as s' → Run step s (a :: as) s'

/-- The steps that a guard allows. -/
def Guarded (guard : σ → α → Prop) (step : σ → α → σ → Prop) (s : σ) (a : α) (s' : σ) : Prop :=
  guard s a ∧ step s a s'

variable {step : σ → α → σ → Prop} {I : σ → Prop} {s s₁ s' : σ} {a : α} {as bs : List α}

/-- What every step keeps, every run keeps. -/
theorem Run.invariant (hstep : ∀ {s a s'}, I s → step s a s' → I s') (h : Run step s as s')
    (hs : I s) : I s' := by
  induction h with
  | nil => exact hs
  | cons e _ ih => exact ih (hstep hs e)

/-- What every step keeps of the labels so far and the state, every run keeps. -/
theorem Run.history {I : List α → σ → Prop}
    (hstep : ∀ {l s a s'}, I l s → step s a s' → I (l ++ [a]) s') (h : Run step s as s')
    (hs : I [] s) : I as s' := by
  have haux : ∀ l, I l s → I (l ++ as) s' := by
    clear hs
    induction h with
    | nil => simp
    | cons e _ ih =>
      intro l hl
      simpa using ih _ (hstep hl e)
  simpa using haux [] hs

theorem Run.append (h₁ : Run step s as s₁) (h₂ : Run step s₁ bs s') : Run step s (as ++ bs) s' := by
  induction h₁ with
  | nil => exact h₂
  | cons e _ ih => exact .cons e (ih h₂)

theorem Run.split (h : Run step s (as ++ bs) s') :
    ∃ s₁, Run step s as s₁ ∧ Run step s₁ bs s' := by
  induction as generalizing s with
  | nil => exact ⟨s, .nil, h⟩
  | cons a as ih =>
    cases h with
    | cons e h =>
      obtain ⟨s₁, h₁, h₂⟩ := ih h
      exact ⟨s₁, .cons e h₁, h₂⟩

/-- Where every step is determined, so are the runs that cannot be continued. -/
theorem Run.unique {t t' : σ} (h : Run step s as t) (h' : Run step s bs t')
    (hfun : ∀ s a s₁ b s₂, step s a s₁ → step s b s₂ → a = b ∧ s₁ = s₂)
    (ht : ∀ a u, ¬ step t a u) (ht' : ∀ a u, ¬ step t' a u) : as = bs ∧ t = t' := by
  induction h generalizing bs with
  | nil =>
    cases h' with
    | nil => exact ⟨rfl, rfl⟩
    | cons e _ => exact absurd e (ht _ _)
  | cons e _ ih =>
    cases h' with
    | nil => exact absurd e (ht' _ _)
    | cons e' h' =>
      obtain ⟨rfl, rfl⟩ := hfun _ _ _ _ _ e e'
      obtain ⟨rfl, rfl⟩ := ih h' ht
      exact ⟨rfl, rfl⟩

/-- A run of a relation is a run of a larger one. -/
theorem Run.mono {step' : σ → α → σ → Prop} (hstep : ∀ {s a s'}, step s a s' → step' s a s')
    (h : Run step s as s') : Run step' s as s' := by
  induction h with
  | nil => exact .nil
  | cons e _ ih => exact .cons (hstep e) ih

/-- A run whose labels a guard allows. -/
theorem Run.guarded (guard : α → Prop) (h : Run step s as s') (hall : ∀ a ∈ as, guard a) :
    Run (Guarded (fun _ => guard) step) s as s' := by
  induction h with
  | nil => exact .nil
  | cons e _ ih =>
    obtain ⟨ha, has⟩ := List.forall_mem_cons.mp hall
    exact .cons ⟨ha, e⟩ (ih has)

/-- The steps, with all labels so far in the state, where a guard can look at them. -/
def Logged (step : σ → α → σ → Prop) (s : List α × σ) (a : α) (s' : List α × σ) : Prop :=
  s'.1 = s.1 ++ [a] ∧ step s.2 a s'.2

/-- What every step keeps of the labels so far and the state, if the guard allows it. -/
theorem Run.logged {guard : List α → σ → α → Prop} {I : List α → σ → Prop} {l : List α}
    (hstep : ∀ {l s a s'}, I l s → guard l s a → step s a s' → I (l ++ [a]) s')
    (h : Run (Guarded (fun x => guard x.1 x.2) (Logged step)) ([], s) as (l, s'))
    (hs : I [] s) : I l s' :=
  h.invariant (I := fun x => I x.1 x.2)
    (fun hx ⟨hguard, hlog, hs⟩ => hlog ▸ hstep hx hguard hs) hs

/-- A run keeps to a guard, or there is a first step that the guard does not allow. -/
theorem Run.guarded_or (guard : σ → α → Prop) (h : Run step s as s') :
    Run (Guarded guard step) s as s' ∨
      ∃ pre a post s₁ s₂, as = pre ++ a :: post ∧ Run (Guarded guard step) s pre s₁ ∧
        step s₁ a s₂ ∧ ¬ guard s₁ a := by
  induction h with
  | nil => exact .inl .nil
  | @cons s a s₁ as s' e _ ih =>
    by_cases hguard : guard s a
    · rcases ih with h | ⟨pre, b, post, u, u', rfl, hpre, hstep, hb⟩
      · exact .inl (.cons ⟨hguard, e⟩ h)
      · exact .inr ⟨a :: pre, b, post, u, u', rfl, .cons ⟨hguard, e⟩ hpre, hstep, hb⟩
    · exact .inr ⟨[], a, as, s, s₁, rfl, .nil, e, hguard⟩

/-! ## Step functions -/

section StepFunction

variable {ε ω β : Type} {step : σ → ω → Except ε (σ × β)} {ops : List ω} {moves : List (ω × β)}

/-- The steps of a function that can fail, labelled with what is done and what it shows. -/
def Steps (step : σ → ω → Except ε (σ × β)) (s : σ) (move : ω × β) (s' : σ) : Prop :=
  step s move.1 = .ok (s', move.2)

/-- One step after the other. -/
def exec (step : σ → ω → Except ε (σ × β)) (s : σ) : List ω → Except ε (σ × List (ω × β))
  | [] => .ok (s, [])
  | op :: ops =>
    match step s op with
    | .error e => .error e
    | .ok (s, out) =>
      match exec step s ops with
      | .error e => .error e
      | .ok (s, moves) => .ok (s, (op, out) :: moves)

/-- Steps that are made one after the other are a run of those that a guard allows, if it
allows what is done in every state. -/
theorem exec_guarded {g : σ → ω → Prop} (h : exec step s ops = .ok (s', moves))
    (hall : ∀ op ∈ ops, ∀ s, g s op) :
    Run (Guarded (fun s move => g s move.1) (Steps step)) s moves s' := by
  induction ops generalizing s moves with
  | nil =>
    cases h
    exact .nil
  | cons op ops ih =>
    obtain ⟨hop, hops⟩ := List.forall_mem_cons.mp hall
    simp only [exec] at h
    split at h
    · cases h
    next s₁ out hstep =>
      split at h
      · cases h
      next s₂ rest hexec =>
        cases h
        exact .cons ⟨hop s, hstep⟩ (ih hexec hops)

theorem exec_run (h : exec step s ops = .ok (s', moves)) : Run (Steps step) s moves s' :=
  (exec_guarded (g := fun _ _ => True) h fun _ _ _ => trivial).mono And.right

/-- The step function that fails where a guard does not allow what is done. -/
def guardedStep (g : σ → ω → Bool) (e : ε) (step : σ → ω → Except ε (σ × β)) (s : σ) (op : ω) :
    Except ε (σ × β) :=
  if g s op then step s op else .error e

theorem exec_guardedStep {g : σ → ω → Bool} {e : ε}
    (h : exec (guardedStep g e step) s ops = .ok (s', moves)) :
    Run (Guarded (fun s move => g s move.1 = true) (Steps step)) s moves s' := by
  refine (exec_run h).mono fun {s move s'} hstep => ?_
  unfold Steps guardedStep at hstep
  split at hstep
  next hg => exact ⟨hg, hstep⟩
  · cases hstep

/-- What a test finds at the end of steps. -/
def execTest (step : σ → ω → Except ε (σ × β)) (s : σ) (ops : List ω)
    (f : σ → List (ω × β) → Bool) : Bool :=
  match exec step s ops with
  | .ok (s', moves) => f s' moves
  | .error _ => false

theorem exists_of_execTest (step : σ → ω → Except ε (σ × β)) (s : σ) (ops : List ω)
    (f : σ → List (ω × β) → Bool) (h : execTest step s ops f = true) :
    ∃ s' moves, exec step s ops = .ok (s', moves) ∧ f s' moves = true := by
  unfold execTest at h
  split at h
  next s' moves hexec => exact ⟨s', moves, hexec, h⟩
  · cases h

end StepFunction

/-- The steps of a function that may have no step, one after the other, are a run. -/
theorem run_of_foldlM {f : σ → α → Option σ} (hf : ∀ {s a s'}, f s a = some s' → step s a s')
    (h : as.foldlM f s = some s') : Run step s as s' := by
  induction as generalizing s with
  | nil =>
    cases h
    exact .nil
  | cons a as ih =>
    obtain ⟨s₁, hstep, hrest⟩ := Option.bind_eq_some_iff.mp h
    exact .cons (hf hstep) (ih hrest)

/-! ## Histories -/

/-- A history that ends in one label, cut at another. -/
theorem append_single_eq {β : Type} {l l₁ l₂ : List β} {x y : β} (h : l ++ [y] = l₁ ++ x :: l₂) :
    (l₂ = [] ∧ l = l₁ ∧ y = x) ∨ ∃ l₃, l₂ = l₃ ++ [y] ∧ l = l₁ ++ x :: l₃ := by
  rcases List.eq_nil_or_concat l₂ with rfl | ⟨l₃, z, rfl⟩
  · obtain ⟨hl, hy⟩ := List.append_inj' h rfl
    exact .inl ⟨rfl, hl, by simpa using hy⟩
  · rw [List.concat_eq_append, ← List.cons_append, ← List.append_assoc] at h
    obtain ⟨hl, hy⟩ := List.append_inj' h rfl
    cases hy
    exact .inr ⟨l₃, List.concat_eq_append, hl⟩

/-- What holds of each label and the labels before it. -/
def Justified {β : Type} (Q : List β → β → Prop) (l : List β) : Prop :=
  ∀ before x after, l = before ++ x :: after → Q before x

theorem justified_nil {β : Type} {Q : List β → β → Prop} : Justified Q [] := by
  intro before x after h
  simp at h

theorem Justified.snoc {β : Type} {Q : List β → β → Prop} {l : List β} {y : β}
    (h : Justified Q l) (hy : Q l y) : Justified Q (l ++ [y]) := by
  intro before x after hl
  rcases append_single_eq hl with ⟨-, rfl, rfl⟩ | ⟨l₃, -, hcut⟩
  · exact hy
  · exact h before x l₃ hcut

end Transition
